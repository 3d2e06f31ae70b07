import HashConsing.Proofs.Runs
import HashConsing.Proofs.Unfolding

/-!
# Renderings can be read back

A rendering shows all there is to a tree but its numbers: trees with the same rendering have the
same labels and the same shape (`Forest.render_determines_tree`). The indent does not matter for
this; it may be any text, and it may be empty.

The argument is one about printed captions. Read from the left, a printed tree tells where it
ends, whatever follows it (`Legible.readsBack`). A leaf begins with a digit and a node with a
parenthesis. A label ends where the digits do. The text of a leaf may hold anything but a line
break, so it ends with the line. And the nodes below a node end where a closing parenthesis
stands in the place of a digit or an opening one. So nothing in the text of a leaf can be mistaken
for the structure of the tree, although it may hold parentheses, colons and digits.
-/

namespace HashConsing

/-! ## Legible captions -/

/-- **A decimal text**: one or more digits. -/
def Text.IsDecimal (text : String) : Prop :=
  text.toList ≠ [] ∧ ∀ c ∈ text.toList, c.isDigit = true

/-- The texts of natural numbers are decimal. -/
theorem Text.isDecimal_toString (n : Nat) : IsDecimal (toString n) := by
  have htext : (toString n).toList = Nat.toDigits 10 n := Nat.toList_repr
  rw [IsDecimal, htext]
  exact ⟨Nat.toDigits_ne_nil, fun c => Nat.isDigit_of_mem_toDigits (by decide) (by decide)⟩

/-- **Captions that can be read back**: labels are decimal, texts stay on their line, and nothing
is below a leaf. -/
inductive Legible : Rose Caption → Prop where
  | leaf {label text : String} (hlabel : Text.IsDecimal label) (htext : '\n' ∉ text.toList) :
      Legible (.node ⟨label, some text⟩ [])
  | node {label : String} {items : List (Rose Caption)} (hlabel : Text.IsDecimal label)
      (hitems : ∀ D ∈ items, Legible D) : Legible (.node ⟨label, none⟩ items)

section Letters

variable (indent : String) (depth : Nat)

/-- A line break with the margin of the next line, letter by letter. -/
def lineEnd : List Char := '\n' :: (marginAt indent depth).toList

/-- What is printed behind the label of a node. -/
def behindLabel (items : List (Rose Caption)) : List Char :=
  match items with
  | [] => ')' :: lineEnd indent depth
  | item :: items => ':' :: (lineEnd indent (depth + 1)
      ++ ((Rose.printedEach indent (depth + 1) (item :: items)).toList
        ++ ')' :: lineEnd indent depth))

variable {label text : String} {items : List (Rose Caption)}

theorem toList_printed_leaf :
    (Rose.printed indent depth (.node ⟨label, some text⟩ items)).toList
      = label.toList ++ ':' :: (text.toList ++ lineEnd indent depth) := by
  simp [Rose.printed, newLine, lineEnd]

theorem toList_printed_node :
    (Rose.printed indent depth (.node ⟨label, none⟩ items)).toList
      = '(' :: (label.toList ++ behindLabel indent depth items) := by
  cases items <;> simp [Rose.printed, newLine, lineEnd, behindLabel]

theorem toList_printedEach_cons {D : Rose Caption} :
    (Rose.printedEach indent depth (D :: items)).toList
      = (Rose.printed indent depth D).toList ++ (Rose.printedEach indent depth items).toList := by
  rw [Rose.printedEach, String.toList_append]

end Letters

/-! ## Reading back -/

/-- A label can be told from what is behind it, if that is no digit. -/
theorem Text.IsDecimal.eq_of_append {label label' : String} (h : IsDecimal label)
    (h' : IsDecimal label') {c c' : Char} (hc : c.isDigit = false) (hc' : c'.isDigit = false)
    {rest rest' : List Char} (heq : label.toList ++ c :: rest = label'.toList ++ c' :: rest') :
    label = label' ∧ c = c' ∧ rest = rest' := by
  have hbehind : BeginsOutside Char.isDigit (c :: rest) := by
    rintro _ ⟨⟩
    exact hc
  have hbehind' : BeginsOutside Char.isDigit (c' :: rest') := by
    rintro _ ⟨⟩
    exact hc'
  obtain ⟨hlabel, hrest⟩ := run_unique hbehind hbehind' h.2 h'.2 heq
  exact ⟨String.toList_inj.1 hlabel, List.cons.inj hrest⟩

/-- A text can be told from the end of its line. -/
theorem Text.eq_of_append_lineEnd {text text' : String} (h : '\n' ∉ text.toList)
    (h' : '\n' ∉ text'.toList) {rest rest' : List Char}
    (heq : text.toList ++ '\n' :: rest = text'.toList ++ '\n' :: rest') :
    text = text' ∧ rest = rest' := by
  have hbehind : ∀ rest, BeginsOutside (· != '\n') ('\n' :: rest) := by
    rintro rest _ ⟨⟩
    rfl
  have hrun : ∀ {text : String}, '\n' ∉ text.toList → ∀ c ∈ text.toList, (c != '\n') = true :=
    fun h c hc => bne_iff_ne.2 fun heq => h (heq ▸ hc)
  obtain ⟨htext, hrest⟩ := run_unique (hbehind rest) (hbehind rest') (hrun h) (hrun h') heq
  exact ⟨String.toList_inj.1 htext, (List.cons.inj hrest).2⟩

/-- **A printed tree can be told from what is behind it**, at every depth. -/
def ReadsBack (indent : String) (D : Rose Caption) : Prop :=
  ∀ (depth : Nat) (E : Rose Caption), Legible E → ∀ rest rest' : List Char,
    (Rose.printed indent depth D).toList ++ rest = (Rose.printed indent depth E).toList ++ rest' →
    D = E ∧ rest = rest'

section Reading

variable {indent : String} {D : Rose Caption}

variable (indent) in
/-- A printed tree begins with a digit if it is a leaf, and with a parenthesis if not. -/
theorem Legible.exists_first (h : Legible D) (depth : Nat) : ∃ c rest,
    (Rose.printed indent depth D).toList = c :: rest ∧ c ≠ ')'
      ∧ (c = '(' ↔ D.value.text? = none) := by
  cases h with
  | leaf hlabel =>
    rw [toList_printed_leaf]
    obtain ⟨hne, hdigits⟩ := hlabel
    obtain ⟨c, cs, hcs⟩ := List.exists_cons_of_ne_nil hne
    have hc : c.isDigit = true := hdigits c (hcs ▸ List.mem_cons_self)
    rw [hcs]
    refine ⟨c, _, rfl, ?_, ?_⟩
    · rintro rfl
      exact absurd hc (by decide)
    · refine iff_of_false ?_ nofun
      rintro rfl
      exact absurd hc (by decide)
  | node hlabel hitems =>
    rw [toList_printed_node]
    exact ⟨'(', _, rfl, by decide, iff_of_true rfl rfl⟩

/-- Leaves and nodes can be told apart. -/
theorem Legible.text?_iff (h : Legible D) {E : Rose Caption} (h' : Legible E) {depth : Nat}
    {rest rest' : List Char}
    (heq : (Rose.printed indent depth D).toList ++ rest
      = (Rose.printed indent depth E).toList ++ rest') :
    D.value.text? = none ↔ E.value.text? = none := by
  obtain ⟨c, cs, hcs, -, hc⟩ := h.exists_first indent depth
  obtain ⟨c', cs', hcs', -, hc'⟩ := h'.exists_first indent depth
  rw [hcs, hcs'] at heq
  rw [← hc, ← hc', (List.cons.inj heq).1]

/-- **Printed trees can be told from what is behind them** if it is a closing parenthesis. -/
theorem readsBack_items {items : List (Rose Caption)} (h : ∀ D ∈ items, ReadsBack indent D)
    (hlegible : ∀ D ∈ items, Legible D) (depth : Nat) {items' : List (Rose Caption)}
    (h' : ∀ E ∈ items', Legible E) {rest rest' : List Char}
    (heq : (Rose.printedEach indent depth items).toList ++ ')' :: rest
      = (Rose.printedEach indent depth items').toList ++ ')' :: rest') :
    items = items' ∧ rest = rest' := by
  induction items generalizing items' with
  | nil =>
    cases items' with
    | nil => exact ⟨rfl, (List.cons.inj heq).2⟩
    | cons E items' =>
      obtain ⟨c, cs, hcs, hc, -⟩ := (h' E List.mem_cons_self).exists_first indent depth
      rw [toList_printedEach_cons, hcs] at heq
      exact absurd (List.cons.inj heq).1.symm hc
  | cons D items ih =>
    obtain ⟨hD, h⟩ := List.forall_mem_cons.1 h
    obtain ⟨hlegibleD, hlegible⟩ := List.forall_mem_cons.1 hlegible
    cases items' with
    | nil =>
      obtain ⟨c, cs, hcs, hc, -⟩ := hlegibleD.exists_first indent depth
      rw [toList_printedEach_cons, hcs] at heq
      exact absurd (List.cons.inj heq).1 hc
    | cons E items' =>
      obtain ⟨hE, h'⟩ := List.forall_mem_cons.1 h'
      rw [toList_printedEach_cons, toList_printedEach_cons, List.append_assoc,
        List.append_assoc] at heq
      obtain ⟨hfirst, hbehind⟩ := hD depth E hE _ _ heq
      obtain ⟨hitems, hrest⟩ := ih h hlegible h' hbehind
      rw [hfirst, hitems]
      exact ⟨rfl, hrest⟩

/-- **Legible captions can be read back.** -/
theorem Legible.readsBack (h : Legible D) : ReadsBack indent D := by
  induction h with
  | @leaf label text hlabel htext =>
    intro depth E hE rest rest' heq
    cases hE with
    | leaf hlabel' htext' =>
      simp only [toList_printed_leaf, List.append_assoc, List.cons_append] at heq
      obtain ⟨hsame, -, hbehind⟩ := hlabel.eq_of_append hlabel' (by decide) (by decide) heq
      obtain ⟨hsame', hbehind⟩ := Text.eq_of_append_lineEnd htext htext' hbehind
      rw [hsame, hsame']
      exact ⟨rfl, List.append_cancel_left hbehind⟩
    | node hlabel' hitems' =>
      cases ((Legible.leaf hlabel htext).text?_iff (.node hlabel' hitems') heq).2 rfl
  | @node label items hlabel hitems ih =>
    intro depth E hE rest rest' heq
    cases hE with
    | leaf hlabel' htext' =>
      cases ((Legible.node hlabel hitems).text?_iff (.leaf hlabel' htext') heq).1 rfl
    | @node label' items' hlabel' hitems' =>
      simp only [toList_printed_node, List.append_assoc, List.cons_append] at heq
      replace heq := (List.cons.inj heq).2
      cases items with
      | nil =>
        cases items' with
        | nil =>
          obtain ⟨hsame, -, hbehind⟩ := hlabel.eq_of_append hlabel' (by decide) (by decide) heq
          rw [hsame]
          exact ⟨rfl, List.append_cancel_left hbehind⟩
        | cons E items' =>
          obtain ⟨-, hmark, -⟩ := hlabel.eq_of_append hlabel' (by decide) (by decide) heq
          exact absurd hmark (by decide)
      | cons D items =>
        cases items' with
        | nil =>
          obtain ⟨-, hmark, -⟩ := hlabel.eq_of_append hlabel' (by decide) (by decide) heq
          exact absurd hmark (by decide)
        | cons E items' =>
          simp only [behindLabel, List.append_assoc, List.cons_append] at heq
          obtain ⟨hsame, -, hbehind⟩ := hlabel.eq_of_append hlabel' (by decide) (by decide) heq
          obtain ⟨hsame', hbehind⟩ :=
            readsBack_items ih hitems _ hitems' (List.append_cancel_left hbehind)
          rw [hsame, hsame']
          exact ⟨rfl, List.append_cancel_left hbehind⟩

end Reading

/-! ## Renderings -/

/-- Captions are legible if labels are decimal and the texts of leaves stay on their line. -/
theorem Classifier.legible_of_caption {c : Classifier}
    (htexts : ∀ n text, c.leafText n = .ok text → '\n' ∉ text.toList) :
    ∀ {t : Rose String} {leaf : Bool} {D : Rose Caption}, c.caption leaf t = .ok D →
    (∀ path u, t.at? path = some u → Text.IsDecimal u.value) → Legible D
  | .node label ts, true, D, h, hlabels => by
    obtain ⟨text, rfl, htext⟩ := caption_leaf h
    obtain ⟨n, -, hn⟩ := Failure.exists_of_bind_eq_ok htext
    exact .leaf (hlabels [] _ rfl) (htexts n text hn)
  | .node label ts, false, D, h, hlabels => by
    obtain ⟨items, rfl, hitems⟩ := caption_node h
    refine .node (hlabels [] _ rfl) fun E hE => ?_
    obtain ⟨i, hi⟩ := List.getElem?_of_mem hE
    obtain ⟨t, ht, leaf, -, hcaption⟩ := exists_getElem?_of_forall₂ hitems.flip hi
    have hmem : t ∈ ts := List.mem_of_getElem? ht
    exact legible_of_caption htexts hcaption ((Rose.forall_at?_iff.1 hlabels).2 t hmem)

namespace Forest

variable {f : Forest} {c : Classifier}

variable (f c) in
/-- **Trees that a rendering shows completely**: the labels are decimal, and nothing is below a
leaf, unless the leaf is the root. -/
structure ShownBy (t : Rose Ref) : Prop where
  label : ∀ path u, t.at? path = some u → Text.IsDecimal (f.label u.value)
  leaf : ∀ path u, path ≠ [] → t.at? path = some u →
    ∀ n, f.id u.value = .ok n → c.isLeaf n = .ok true → u.children = []

/-- A node is shown completely if all below it is, and the leaves below it are childless. -/
theorem ShownBy.node {r : Ref} {ts : List (Rose Ref)} (hlabel : Text.IsDecimal (f.label r))
    (hbelow : ∀ t ∈ ts, f.ShownBy c t)
    (hleaf : ∀ t ∈ ts, ∀ n, f.id t.value = .ok n → c.isLeaf n = .ok true → t.children = []) :
    f.ShownBy c (.node r ts) where
  label := Rose.forall_at?_iff.2 ⟨hlabel, fun t ht => (hbelow t ht).label⟩
  leaf := Rose.forall_below_iff.2 fun t ht =>
    Rose.forall_at?_iff.2 ⟨hleaf t ht, Rose.forall_below_iff.1 (hbelow t ht).leaf⟩

section Shown

variable {t : Rose Ref} (h : f.ShownBy c t)

include h

theorem ShownBy.isDecimal {path : List Nat} {u : Rose String}
    (hu : (t.map f.label).at? path = some u) : Text.IsDecimal u.value := by
  obtain ⟨v, hv, rfl⟩ := Rose.exists_at?_of_map hu
  rw [Rose.value_map]
  exact h.label path v hv

theorem ShownBy.leavesEnd : c.LeavesEnd (t.map f.label) := by
  intro path u hpath hu hleaf
  obtain ⟨v, hv, rfl⟩ := Rose.exists_at?_of_map hu
  rw [Rose.value_map] at hleaf
  obtain ⟨n, hn, hleaf⟩ := Failure.exists_of_bind_eq_ok hleaf
  rw [Rose.children_map, h.leaf path v hpath hv n hn hleaf]
  rfl

end Shown

/-- **A rendering determines its tree**, whatever the indent is. Two trees with decimal labels,
and with nothing below leaves, have the same labels and the same shape if their renderings are
the same and the texts of leaves stay on their line. So they are equal exactly if their numbers
are. -/
theorem render_determines_tree
    (htexts : ∀ n text, c.leafText n = .ok text → '\n' ∉ text.toList) {indent text : String}
    {r s : Ref} {t u : Rose Ref} (ht : f.Unfolds r t) (hu : f.Unfolds s u)
    (hshown : f.ShownBy c t) (hshown' : f.ShownBy c u) (hr : f.render c indent r = .ok text)
    (hs : f.render c indent s = .ok text) :
    t.map f.label = u.map f.label
      ∧ (f.same r s = true ↔ t.map f.postOrderId = u.map f.postOrderId) := by
  rw [ht.render_eq_printed] at hr
  rw [hu.render_eq_printed] at hs
  obtain ⟨D, hD, hr⟩ := Failure.exists_of_bind_eq_ok hr
  obtain ⟨E, hE, hs⟩ := Failure.exists_of_bind_eq_ok hs
  have hlegible : Legible D := c.legible_of_caption htexts hD fun path v hv => hshown.isDecimal hv
  have hlegible' : Legible E :=
    c.legible_of_caption htexts hE fun path v hv => hshown'.isDecimal hv
  -- The printed captions are the same text, so the captions are the same.
  have hprinted : (Rose.printed indent 0 D).toList ++ [] = (Rose.printed indent 0 E).toList ++ [] :=
    congrArg (·.toList ++ []) ((Except.ok.inj hr).trans (Except.ok.inj hs).symm)
  obtain ⟨rfl, -⟩ := hlegible.readsBack 0 E hlegible' [] [] hprinted
  have hlabels : t.map f.label = u.map f.label := by
    rw [← Classifier.map_label_of_caption hD hshown.leavesEnd nofun,
      Classifier.map_label_of_caption hE hshown'.leavesEnd nofun]
  rw [same_iff_of_unfolds ht hu]
  exact ⟨hlabels, and_iff_right hlabels⟩

/-- Two nodes over the leaves with the labels 2 and 3, each made of nodes of its own. -/
def twins : Forest :=
  let leaf (label : String) : Cell := ⟨label, [], none, none, none⟩
  let node (children : List Ref) (postOrderId : Option Int) : Cell :=
    ⟨"9", children, postOrderId, none, none⟩
  ⟨#[leaf "2", leaf "3", node [0, 1] none, leaf "2", node [3, 1] (some 5)]⟩

/-- The leaves are 2 and 3, with texts that look like the structure of a tree. -/
def misleading : Classifier where
  isLeaf n := .ok (n == 2 || n == 3)
  leafText n := .ok (if n == 2 then "(4:" else ")")

/-- The two nodes are rendered alike, and differ in a number only. -/
theorem render_determines_tree_twins :
    let t : Rose Ref := .node 2 [.node 0 [], .node 1 []]
    let u : Rose Ref := .node 4 [.node 3 [], .node 1 []]
    let text := "(9:\n2:(4:\n3:)\n)\n"
    twins.render misleading "" 2 = .ok text ∧ twins.render misleading "" 4 = .ok text
      ∧ t.map twins.label = u.map twins.label
      ∧ (twins.same 2 4 = true ↔ t.map twins.postOrderId = u.map twins.postOrderId) := by
  intro t u text
  have hleaf : ∀ {r}, twins.children r = [] → Text.IsDecimal (twins.label r) →
      twins.Unfolds r (.node r []) ∧ twins.ShownBy misleading (.node r []) :=
    fun hchildren hlabel => ⟨.node hchildren.symm nofun, .node hlabel nofun nofun⟩
  obtain ⟨h0, h0'⟩ := hleaf (r := 0) rfl (Text.isDecimal_toString 2)
  obtain ⟨h1, h1'⟩ := hleaf (r := 1) rfl (Text.isDecimal_toString 3)
  obtain ⟨h3, h3'⟩ := hleaf (r := 3) rfl (Text.isDecimal_toString 2)
  have ht : twins.Unfolds 2 t := .node rfl (by simpa using ⟨h0, h1⟩)
  have hu : twins.Unfolds 4 u := .node rfl (by simpa using ⟨h3, h1⟩)
  have hdecimal : Text.IsDecimal "9" := Text.isDecimal_toString 9
  have hshown : twins.ShownBy misleading t :=
    .node hdecimal (by simpa using ⟨h0', h1'⟩) (by simp [Rose.children])
  have hshown' : twins.ShownBy misleading u :=
    .node hdecimal (by simpa using ⟨h3', h1'⟩) (by simp [Rose.children])
  have htexts : ∀ n text, misleading.leafText n = .ok text → '\n' ∉ text.toList := by
    rintro n _ ⟨⟩
    split <;> decide
  have hr : twins.render misleading "" 2 = .ok text := by
    rw [ht.render_eq_printed]
    simp only [t, Rose.map_node, List.map_cons, List.map_nil]
    rfl
  have hs : twins.render misleading "" 4 = .ok text := by
    rw [hu.render_eq_printed]
    simp only [u, Rose.map_node, List.map_cons, List.map_nil]
    rfl
  exact ⟨hr, hs, render_determines_tree htexts ht hu hshown hshown' hr hs⟩

end Forest

end HashConsing
