import HashConsing.Proofs.Layout
import HashConsing.Proofs.Pieces
import HashConsing.Proofs.Positions
import HashConsing.Source

/-!
# Renderings as printed captions

A rendering classifies nodes while it writes. Here the two are taken apart. What a rendering
shows of a node is its *caption*: its label and, if it is a leaf below the root, its text.
`Classifier.caption` finds the captions of a tree of labels, in the order in which a rendering
asks for them, and it is the only part that can fail. `Rose.printed` then prints a tree of
captions; it is the layout of renderings as one would write it down, by plain recursion over the
tree.

**A rendering prints the captions of its tree** (`Branching.render_eq_printed`), with the same
failures. The tree is given by its labels alone, so whatever renderings are made of, rose trees
or nodes of a forest, they are the same if the labels are.
-/

namespace HashConsing

/-- **What a rendering shows of a node**: its label and, for a leaf below the root, its text. -/
structure Caption where
  label : String
  text? : Option String
  deriving DecidableEq, Repr

/-! ## Printing -/

/-- The margin of a line: one indent for each level of depth. -/
def marginAt (indent : String) : Nat → String
  | 0 => ""
  | depth + 1 => marginAt indent depth ++ indent

mutual

/-- **Prints a tree of captions** at a depth. A leaf is its label and its text. A node stands
between parentheses, the nodes below it on lines of their own and one level deeper. The margin
of the next line ends each of them. -/
def Rose.printed (indent : String) (depth : Nat) : Rose Caption → String
  | .node ⟨label, some text⟩ _ => label ++ ":" ++ text ++ newLine (marginAt indent depth)
  | .node ⟨label, none⟩ [] => "(" ++ label ++ ")" ++ newLine (marginAt indent depth)
  | .node ⟨label, none⟩ (item :: items) =>
    "(" ++ label ++ ":" ++ newLine (marginAt indent (depth + 1))
      ++ Rose.printedEach indent (depth + 1) (item :: items) ++ ")"
      ++ newLine (marginAt indent depth)

/-- Prints some trees of captions, one behind the other. -/
def Rose.printedEach (indent : String) (depth : Nat) : List (Rose Caption) → String
  | [] => ""
  | item :: items => Rose.printed indent depth item ++ Rose.printedEach indent depth items

end

theorem Rose.printedEach_eq_join (indent : String) (depth : Nat) (items : List (Rose Caption)) :
    printedEach indent depth items = String.join (items.map (printed indent depth)) := by
  induction items with
  | nil => rfl
  | cons item items ih => rw [printedEach, ih, List.map_cons, String.join_cons]

theorem Rose.printed_node (indent label : String) (depth : Nat) {items : List (Rose Caption)}
    (h : items ≠ []) : printed indent depth (.node ⟨label, none⟩ items)
      = "(" ++ label ++ ":" ++ newLine (marginAt indent (depth + 1))
        ++ printedEach indent (depth + 1) items ++ ")" ++ newLine (marginAt indent depth) := by
  cases items with
  | nil => exact absurd rfl h
  | cons item items => rfl

/-! ## Captions -/

namespace Classifier

variable (c : Classifier)

/-- Which of some labels are those of leaves, asked from the last to the first. -/
def classify : List String → Except Failure (List Bool)
  | [] => .ok []
  | label :: labels => do
    let rest ← classify labels
    let leaf ← c.isLeaf (← Text.readInteger label)
    return leaf :: rest

theorem classify_cons (label : String) (labels : List String) : c.classify (label :: labels)
    = (do
      let rest ← c.classify labels
      let leaf ← Text.readInteger label >>= c.isLeaf
      return leaf :: rest) := by
  rw [classify]
  cases Text.readInteger label <;> rfl

theorem length_classify {labels : List String} {leaves : List Bool}
    (h : c.classify labels = .ok leaves) : leaves.length = labels.length := by
  induction labels generalizing leaves with
  | nil => cases h; rfl
  | cons label labels ih =>
    rw [classify_cons] at h
    obtain ⟨rest, hrest, h⟩ := Failure.exists_of_bind_eq_ok h
    obtain ⟨leaf, -, h⟩ := Failure.exists_of_bind_eq_ok h
    cases h
    rw [List.length_cons, List.length_cons, ih hrest]

mutual

/-- **The captions of a tree of labels**, the root of which is shown as a leaf or as a node. Of
a leaf nothing is shown below. -/
def caption (leaf : Bool) : Rose String → Except Failure (Rose Caption)
  | .node label ts =>
    if leaf then do
      let text ← Text.readInteger label >>= c.leafText
      return .node ⟨label, some text⟩ []
    else do
      let leaves ← c.classify (ts.map Rose.value)
      return .node ⟨label, none⟩ (← captions ts leaves)

/-- The captions of some trees of labels, each shown as a leaf or as a node. -/
def captions : List (Rose String) → List Bool → Except Failure (List (Rose Caption))
  | t :: ts, leaf :: leaves => do return (← caption leaf t) :: (← captions ts leaves)
  | _, _ => .ok []

end

theorem length_captions {ts : List (Rose String)} {leaves : List Bool} {items : List (Rose Caption)}
    (h : c.captions ts leaves = .ok items) (hlength : leaves.length = ts.length) :
    items.length = ts.length := by
  induction ts generalizing leaves items with
  | nil =>
    cases leaves <;> cases h <;> rfl
  | cons t ts ih =>
    cases leaves with
    | nil => cases hlength
    | cons leaf leaves =>
      obtain ⟨D, -, h⟩ := Failure.exists_of_bind_eq_ok h
      obtain ⟨rest, hrest, h⟩ := Failure.exists_of_bind_eq_ok h
      cases h
      rw [List.length_cons, List.length_cons, ih hrest (Nat.succ.inj hlength)]

theorem forall₂_classify {labels : List String} {leaves : List Bool}
    (h : c.classify labels = .ok leaves) :
    List.Forall₂ (fun label leaf => (Text.readInteger label >>= c.isLeaf) = .ok leaf)
      labels leaves := by
  induction labels generalizing leaves with
  | nil =>
    cases h
    exact .nil
  | cons label labels ih =>
    rw [classify_cons] at h
    obtain ⟨rest, hrest, h⟩ := Failure.exists_of_bind_eq_ok h
    obtain ⟨leaf, hleaf, h⟩ := Failure.exists_of_bind_eq_ok h
    cases h
    exact .cons hleaf (ih hrest)

/-- **A tree below the root is shown** as a leaf or as a node, as its label says. -/
def Shows (t : Rose String) (D : Rose Caption) : Prop :=
  ∃ leaf, (Text.readInteger t.value >>= c.isLeaf) = .ok leaf ∧ c.caption leaf t = .ok D

/-- **Leaves below the root end a tree.** -/
def LeavesEnd (t : Rose String) : Prop :=
  ∀ path u, path ≠ [] → t.at? path = some u →
    (Text.readInteger u.value >>= c.isLeaf) = .ok true → u.children = []

section Shown

variable {c} {label : String} {t : Rose String} {ts : List (Rose String)} {D : Rose Caption}

/-- What is shown of a leaf. -/
theorem caption_leaf (h : c.caption true (.node label ts) = .ok D) :
    ∃ text, D = .node ⟨label, some text⟩ []
      ∧ (Text.readInteger label >>= c.leafText) = .ok text := by
  rw [caption, if_pos rfl] at h
  obtain ⟨text, htext, h⟩ := Failure.exists_of_bind_eq_ok h
  cases h
  exact ⟨text, rfl, htext⟩

theorem shows_of_captions {leaves : List Bool} {items : List (Rose Caption)}
    (hleaves : List.Forall₂
      (fun t leaf => (Text.readInteger t.value >>= c.isLeaf) = .ok leaf) ts leaves)
    (h : c.captions ts leaves = .ok items) : List.Forall₂ c.Shows ts items := by
  induction hleaves generalizing items with
  | nil =>
    cases h
    exact .nil
  | cons hleaf _ ih =>
    obtain ⟨D, hD, h⟩ := Failure.exists_of_bind_eq_ok h
    obtain ⟨rest, hrest, h⟩ := Failure.exists_of_bind_eq_ok h
    cases h
    exact .cons ⟨_, hleaf, hD⟩ (ih hrest)

/-- What is shown of a node. -/
theorem caption_node (h : c.caption false (.node label ts) = .ok D) :
    ∃ items, D = .node ⟨label, none⟩ items ∧ List.Forall₂ c.Shows ts items := by
  rw [caption, if_neg Bool.false_ne_true] at h
  obtain ⟨leaves, hleaves, h⟩ := Failure.exists_of_bind_eq_ok h
  obtain ⟨items, hitems, h⟩ := Failure.exists_of_bind_eq_ok h
  cases h
  exact ⟨items, rfl,
    shows_of_captions (List.forall₂_map_left_iff.1 (c.forall₂_classify hleaves)) hitems⟩

/-- **Everything below the root is shown as its label says.** -/
theorem exists_shows_at {leaf : Bool} (h : c.caption leaf t = .ok D)
    {path : List Nat} (hpath : path ≠ []) {E : Rose Caption} (hE : D.at? path = some E) :
    ∃ u, t.at? path = some u ∧ c.Shows u E := by
  induction path generalizing t leaf D with
  | nil => exact absurd rfl hpath
  | cons i path ih =>
    obtain ⟨label, ts⟩ := t
    obtain ⟨D', hD', hbelow⟩ := Rose.at?_cons_eq_some.1 hE
    cases leaf with
    | true =>
      obtain ⟨text, rfl, -⟩ := caption_leaf h
      cases hD'
    | false =>
      obtain ⟨items, rfl, hitems⟩ := caption_node h
      obtain ⟨u, hu, hshows⟩ := exists_getElem?_of_forall₂ hitems.flip hD'
      cases path with
      | nil =>
        cases hbelow
        exact ⟨u, Rose.at?_cons_eq_some.2 ⟨u, hu, rfl⟩, hshows⟩
      | cons j path =>
        obtain ⟨leaf', -, hcaption⟩ := hshows
        obtain ⟨v, hv, hshows⟩ := ih hcaption (List.cons_ne_nil j path) hbelow
        exact ⟨v, Rose.at?_cons_eq_some.2 ⟨u, hu, hv⟩, hshows⟩

theorem LeavesEnd.child (h : c.LeavesEnd t) {u : Rose String} (hu : u ∈ t.children) :
    c.LeavesEnd u ∧ ((Text.readInteger u.value >>= c.isLeaf) = .ok true → u.children = []) := by
  obtain ⟨i, hi⟩ := List.getElem?_of_mem hu
  refine ⟨fun path v _ hv => h (i :: path) v (List.cons_ne_nil i path) ?_,
    h [i] u (List.cons_ne_nil i []) (Rose.at?_cons_eq_some.2 ⟨u, hi, rfl⟩)⟩
  exact Rose.at?_cons_eq_some.2 ⟨u, hi, hv⟩

/-- **Captions show the labels of their tree**, unless something is below a leaf. -/
theorem map_label_of_caption : ∀ {t : Rose String} {leaf : Bool} {D : Rose Caption},
    c.caption leaf t = .ok D → c.LeavesEnd t → (leaf = true → t.children = []) →
    D.map Caption.label = t
  | .node label ts, true, D, h, _, hroot => by
    obtain ⟨text, rfl, -⟩ := caption_leaf h
    obtain rfl : ts = [] := hroot rfl
    rw [Rose.map_node]
    rfl
  | .node label ts, false, D, h, hleaves, _ => by
    obtain ⟨items, rfl, hitems⟩ := caption_node h
    have hbelow : ∀ t ∈ ts, ∀ D, c.Shows t D → D.map Caption.label = t := fun t ht D hD => by
      obtain ⟨leaf, hleaf, hcaption⟩ := hD
      obtain ⟨hleaves, hend⟩ := hleaves.child ht
      exact map_label_of_caption hcaption hleaves fun heq => hend (heq ▸ hleaf)
    have hlabels : List.Forall₂ (fun t D => D.map Caption.label = t) ts items :=
      ((List.forall₂_and_left _ _).2 ⟨hbelow, hitems⟩).imp fun t D h => h.1 D h.2
    rw [Rose.map_node]
    refine congrArg _ ?_
    rw [← List.forall₂_eq_eq_eq, List.forall₂_map_left_iff]
    exact hlabels.flip

/-- A tree has the captions of its positions. -/
theorem exists_caption_at (h : c.caption false t = .ok D) (hleaves : c.LeavesEnd t)
    {path : List Nat} {u : Rose String} (hu : t.at? path = some u) :
    ∃ E, D.at? path = some E := by
  rw [← map_label_of_caption h hleaves nofun] at hu
  obtain ⟨E, hE, -⟩ := Rose.exists_at?_of_map hu
  exact ⟨E, hE⟩

/-- **Leaves are shown with their texts**, and what is no leaf is shown without one. -/
theorem Shows.text? {u : Rose String} {E : Rose Caption} (h : c.Shows u E) :
    ((Text.readInteger u.value >>= c.isLeaf) = .ok true
      ∧ ∃ text, E.value.text? = some text ∧ (Text.readInteger u.value >>= c.leafText) = .ok text)
    ∨ (Text.readInteger u.value >>= c.isLeaf) = .ok false ∧ E.value.text? = none := by
  obtain ⟨leaf, hleaf, hcaption⟩ := h
  obtain ⟨label, us⟩ := u
  cases leaf with
  | true =>
    obtain ⟨text, rfl, htext⟩ := caption_leaf hcaption
    exact .inl ⟨hleaf, text, rfl, htext⟩
  | false =>
    obtain ⟨items, rfl, -⟩ := caption_node hcaption
    exact .inr ⟨hleaf, rfl⟩

end Shown

/-! ## Failures -/

/-- **A label at which a rendering fails**: it cannot be told whether it is that of a leaf, or
it is, and the leaf has no text. -/
def FailsAt (label : String) (failure : Failure) : Prop :=
  (Text.readInteger label >>= c.isLeaf) = .error failure
    ∨ (Text.readInteger label >>= c.isLeaf) = .ok true
      ∧ (Text.readInteger label >>= c.leafText) = .error failure

section Failing

variable {c} {failure : Failure}

theorem exists_of_classify_eq_error {labels : List String}
    (h : c.classify labels = .error failure) :
    ∃ label ∈ labels, (Text.readInteger label >>= c.isLeaf) = .error failure := by
  induction labels with
  | nil => cases h
  | cons label labels ih =>
    rw [classify_cons] at h
    rcases Failure.eq_error_of_bind_eq_error h with hrest | ⟨rest, -, h⟩
    · obtain ⟨label', hmem, hfails⟩ := ih hrest
      exact ⟨label', List.mem_cons_of_mem _ hmem, hfails⟩
    · rcases Failure.eq_error_of_bind_eq_error h with hleaf | ⟨leaf, -, h⟩
      · exact ⟨label, List.mem_cons_self, hleaf⟩
      · cases h

theorem exists_of_captions_eq_error {ts : List (Rose String)} {leaves : List Bool}
    (hleaves : List.Forall₂
      (fun t leaf => (Text.readInteger t.value >>= c.isLeaf) = .ok leaf) ts leaves)
    (h : c.captions ts leaves = .error failure) :
    ∃ t ∈ ts, ∃ leaf, (Text.readInteger t.value >>= c.isLeaf) = .ok leaf
      ∧ c.caption leaf t = .error failure := by
  induction hleaves with
  | nil => cases h
  | cons hleaf _ ih =>
    rw [captions] at h
    rcases Failure.eq_error_of_bind_eq_error h with hfirst | ⟨D, -, h⟩
    · exact ⟨_, List.mem_cons_self, _, hleaf, hfirst⟩
    · rcases Failure.eq_error_of_bind_eq_error h with hrest | ⟨items, -, h⟩
      · obtain ⟨t, ht, hfails⟩ := ih hrest
        exact ⟨t, List.mem_cons_of_mem _ ht, hfails⟩
      · cases h

/-- **Captions fail at a label below the root**, or the root is shown as a leaf and has no
text. -/
theorem failsAt_of_caption : ∀ {t : Rose String} {leaf : Bool},
    c.caption leaf t = .error failure →
    (leaf = true ∧ (Text.readInteger t.value >>= c.leafText) = .error failure)
    ∨ ∃ path u, path ≠ [] ∧ t.at? path = some u ∧ c.FailsAt u.value failure
  | .node label ts, true, h => by
    rw [caption, if_pos rfl] at h
    rcases Failure.eq_error_of_bind_eq_error h with htext | ⟨text, -, h⟩
    · exact .inl ⟨rfl, htext⟩
    · cases h
  | .node label ts, false, h => by
    refine .inr ?_
    have hstep : ∀ {t : Rose String}, t ∈ ts → ∃ i, ∀ path u, t.at? path = some u →
        (Rose.node label ts).at? (i :: path) = some u := fun ht => by
      obtain ⟨i, hi⟩ := List.getElem?_of_mem ht
      exact ⟨i, fun path u hu => Rose.at?_cons_eq_some.2 ⟨_, hi, hu⟩⟩
    rw [caption, if_neg Bool.false_ne_true] at h
    rcases Failure.eq_error_of_bind_eq_error h with hclassify | ⟨leaves, hleaves, h⟩
    · obtain ⟨_, hmem, hfails⟩ := exists_of_classify_eq_error hclassify
      obtain ⟨t, ht, rfl⟩ := List.mem_map.1 hmem
      obtain ⟨i, hi⟩ := hstep ht
      exact ⟨[i], t, List.cons_ne_nil _ _, hi [] t rfl, .inl hfails⟩
    · rcases Failure.eq_error_of_bind_eq_error h with hcaptions | ⟨items, -, h⟩
      · obtain ⟨t, ht, leaf, hleaf, hfails⟩ := exists_of_captions_eq_error
          (List.forall₂_map_left_iff.1 (c.forall₂_classify hleaves)) hcaptions
        obtain ⟨i, hi⟩ := hstep ht
        rcases failsAt_of_caption hfails with ⟨rfl, htext⟩ | ⟨path, u, -, hu, hfails⟩
        · exact ⟨[i], t, List.cons_ne_nil _ _, hi [] t rfl, .inr ⟨hleaf, htext⟩⟩
        · exact ⟨i :: path, u, List.cons_ne_nil _ _, hi path u hu, hfails⟩
      · cases h

end Failing

/-! ## Classifiers that agree -/

/-- **Classifiers give the same answers about a label.** -/
structure Agrees (c' : Classifier) (label : String) : Prop where
  isLeaf : (Text.readInteger label >>= c.isLeaf) = (Text.readInteger label >>= c'.isLeaf)
  leafText : (Text.readInteger label >>= c.leafText) = (Text.readInteger label >>= c'.leafText)

section Agreeing

variable {c} {c' : Classifier}

theorem classify_congr {labels : List String} (h : ∀ label ∈ labels, c.Agrees c' label) :
    c.classify labels = c'.classify labels := by
  induction labels with
  | nil => rfl
  | cons label labels ih =>
    obtain ⟨hfirst, hrest⟩ := List.forall_mem_cons.1 h
    rw [classify_cons, classify_cons, hfirst.isLeaf, ih hrest]

mutual

/-- **Classifiers that agree on the labels of a tree** find the same captions, or fail alike. -/
theorem caption_congr : ∀ {t : Rose String} (leaf : Bool),
    (∀ path u, t.at? path = some u → c.Agrees c' u.value) → c.caption leaf t = c'.caption leaf t
  | .node label ts, leaf, h => by
    obtain ⟨hroot, hbelow⟩ := Rose.forall_at?_iff.1 h
    have htext : (Text.readInteger label >>= c.leafText)
        = (Text.readInteger label >>= c'.leafText) := hroot.leafText
    have hlabels : c.classify (ts.map Rose.value) = c'.classify (ts.map Rose.value) :=
      classify_congr (List.forall_mem_map.2 fun t ht => hbelow t ht [] t rfl)
    have hitems : ∀ leaves, c.captions ts leaves = c'.captions ts leaves := captions_congr hbelow
    rw [caption, caption, htext, hlabels]
    simp only [hitems]

/-- Classifiers that agree on the labels of some trees find the same captions. -/
theorem captions_congr : ∀ {ts : List (Rose String)},
    (∀ t ∈ ts, ∀ path u, t.at? path = some u → c.Agrees c' u.value) →
    ∀ leaves, c.captions ts leaves = c'.captions ts leaves
  | [], _, leaves => by cases leaves <;> rfl
  | _ :: _, _, [] => rfl
  | t :: ts, h, leaf :: leaves => by
    obtain ⟨hfirst, hrest⟩ := List.forall_mem_cons.1 h
    rw [captions, captions, caption_congr leaf hfirst, captions_congr hrest]

end

end Agreeing

end Classifier

/-! ## Renderings -/

namespace Branching

variable {α : Type} (b : Branching α) (label : α → String) (c : Classifier) (indent : String)

/-- What is to be written of a position that is shown as a leaf or as a node. -/
def fragmentOf (margin : String) (leaf : Bool) (a : α) : Fragment α :=
  if leaf then .leaf a margin else .node a margin

/-- Positions are classified by their labels. -/
theorem fragments_eq_classify (margin : String) (as : List α) :
    fragments label c margin as
      = (do return List.zipWith (fragmentOf margin) (← c.classify (as.map label)) as) := by
  induction as with
  | nil => rfl
  | cons a as ih =>
    rw [fragments, ih, List.map_cons, Classifier.classify]
    cases c.classify (as.map label) with
    | error failure => rfl
    | ok leaves =>
      cases Text.readInteger (label a) with
      | error failure => rfl
      | ok n =>
        simp only [bind, Except.bind]
        cases c.isLeaf n <;> rfl

/-- **A relation between positions and the trees of labels below them.** -/
structure LabelTrees (R : α → Rose String → Prop) : Prop where
  value : ∀ {a t}, R a t → label a = t.value
  children : ∀ {a t}, R a t → List.Forall₂ R (b.children a) t.children

section Layout

variable {b label} {R : α → Rose String → Prop}

mutual

/-- **The layout of a position prints its captions**, if the labels below it are those of a
tree. -/
theorem layout_eq_printed (hR : b.LabelTrees label R) :
    ∀ {t : Rose String} {a : α}, R a t → ∀ (leaf : Bool) (depth : Nat),
    b.layout label c indent (fragmentOf (marginAt indent depth) leaf a)
      = (do return Rose.printed indent depth (← c.caption leaf t))
  | .node l ts, a, h, true, depth => by
    have hl : label a = l := hR.value h
    show b.layout label c indent (.leaf a _) = _
    rw [layout_leaf, hl, Classifier.caption, if_pos rfl]
    cases Text.readInteger l >>= c.leafText <;> rfl
  | .node l ts, a, h, false, depth => by
    have hl : label a = l := hR.value h
    have hts : List.Forall₂ R (b.children a) ts := hR.children h
    have hlabels : (b.children a).map label = ts.map Rose.value := by
      rw [← List.forall₂_eq_eq_eq, List.forall₂_map_left_iff, List.forall₂_map_right_iff]
      exact hts.imp fun _ _ hs => hR.value hs
    show b.layout label c indent (.node a _) = _
    rw [Classifier.caption, if_neg Bool.false_ne_true, ← hlabels]
    by_cases hnone : b.children a = []
    · rw [hnone] at hts
      obtain rfl := List.forall₂_nil_left_iff.1 hts
      rw [layout_childless _ _ _ _ _ _ hnone, hl, hnone]
      rfl
    · rw [layout_node _ _ _ _ _ _ hnone, fragments_eq_classify, hl]
      cases hleaves : c.classify ((b.children a).map label) with
      | error failure => rfl
      | ok leaves =>
        show (do
          let texts ← (List.zipWith (fragmentOf (marginAt indent (depth + 1))) leaves
            (b.children a)).mapM (b.layout label c indent)
          return "(" ++ l ++ ":" ++ newLine (marginAt indent (depth + 1)) ++ String.join texts
            ++ ")" ++ newLine (marginAt indent depth)) = (do
          let D ← (do return Rose.node ⟨l, none⟩ (← c.captions ts leaves) : Except Failure _)
          return Rose.printed indent depth D)
        rw [layouts_eq_printed hR hts leaves (depth + 1)]
        cases hitems : c.captions ts leaves with
        | error failure => rfl
        | ok items =>
          have hlength : items.length = (b.children a).length := by
            rw [c.length_captions hitems, hts.length_eq]
            rw [c.length_classify hleaves, List.length_map, hts.length_eq]
          have hne : items ≠ [] := by
            rintro rfl
            exact hnone (List.length_eq_zero_iff.1 hlength.symm)
          show Except.ok _ = Except.ok _
          rw [Rose.printed_node _ _ _ hne, Rose.printedEach_eq_join]

/-- The layouts of some positions print their captions. -/
theorem layouts_eq_printed (hR : b.LabelTrees label R) :
    ∀ {ts : List (Rose String)} {as : List α}, List.Forall₂ R as ts →
    ∀ (leaves : List Bool) (depth : Nat),
    (List.zipWith (fragmentOf (marginAt indent depth)) leaves as).mapM (b.layout label c indent)
      = (do return (← c.captions ts leaves).map (Rose.printed indent depth))
  | [], _, .nil, leaves, depth => by
    cases leaves <;> rfl
  | _ :: _, _, .cons _ _, [], depth => rfl
  | t :: ts, a :: as, .cons h hs, leaf :: leaves, depth => by
    rw [List.zipWith_cons_cons, List.mapM_cons, layout_eq_printed hR h,
      layouts_eq_printed hR hs leaves depth, Classifier.captions]
    cases c.caption leaf t with
    | error failure => rfl
    | ok D =>
      simp only [bind, Except.bind]
      cases c.captions ts leaves <;> rfl

end

/-- **A rendering prints the captions of its tree.** -/
theorem render_eq_printed (hR : b.LabelTrees label R) {t : Rose String} {a : α} (h : R a t) :
    b.render label c indent a
      = (do return Rose.printed indent 0 (← c.caption false t)) :=
  layout_eq_printed c indent hR h false 0

end Layout

end Branching

/-- The rendering of an own tree prints the captions of its labels. -/
theorem Canonicalizer.render_eq_printed (c : Canonicalizer) (T : Rose Nat) :
    c.render T = (do
      return Rose.printed c.reporter.settings.indent 0
        (← c.tables.classifier.caption false (T.map toString))) := by
  have hR : Rose.branching.LabelTrees (fun T : Rose Nat => toString T.value)
      fun T t => t = T.map toString := by
    constructor
    · rintro T _ rfl
      exact (Rose.value_map toString T).symm
    · rintro ⟨id, Ts⟩ _ rfl
      rw [Rose.map_node]
      exact List.forall₂_map_right_iff.2 (List.forall₂_same.2 fun _ _ => rfl)
  exact Branching.render_eq_printed _ _ hR rfl

end HashConsing
