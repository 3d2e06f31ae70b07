import HashConsing.Proofs.Answers
import HashConsing.Proofs.Readability

/-!
# Annotations tell ids apart

The text of a shape puts what it is of in front of a colon and the ids of its children behind
it. Nothing is escaped, and node kinds are any texts: they may hold colons, semicolons, digits
and number signs. Yet a text shows one shape only, up to one confusion: a list looks like a node
of the kind that lists are shown by (`Shape.text_eq_iff`). There is no colon behind the last one,
and behind that every id ends at a semicolon.

The annotation of an id has the kind name in front of that, and a number sign between them. This
clears up the confusion. For a node the kind stands there twice, for a list there are two
different words, and where the kinds are as long as these words a bracket stands in the place of
the number sign (`Shape.eq_of_annotation`). The annotations of the reserved ids are without a
colon. So ids that are no leaves have different annotations.
-/

namespace HashConsing

/-- Numbers are told apart by their texts. -/
theorem Text.toString_inj {m n : Nat} : toString m = toString n ↔ m = n :=
  Rose.label_inj (t := .node m []) (u := .node n [])

/-- **A text can be cut at the last letter of some kind** in one way only. -/
theorem Text.eq_of_append_last {c : Char} {front front' rest rest' : List Char} (h : c ∉ rest)
    (h' : c ∉ rest') (heq : front ++ c :: rest = front' ++ c :: rest') :
    front = front' ∧ rest = rest' := by
  -- Read from the right, what stands behind the letter is a run of other letters.
  have hreverse : rest.reverse ++ c :: front.reverse = rest'.reverse ++ c :: front'.reverse := by
    simpa using congrArg List.reverse heq
  have hbehind : ∀ front, BeginsOutside (· != c) (c :: front) := by
    rintro front _ ⟨⟩
    exact bne_self_eq_false c
  have hrun : ∀ {rest : List Char}, c ∉ rest → ∀ d ∈ rest.reverse, (d != c) = true :=
    fun h d hd => bne_iff_ne.2 fun hdc => h (hdc ▸ List.mem_reverse.1 hd)
  obtain ⟨hrest, hfront⟩ := run_unique (hbehind _) (hbehind _) (hrun h) (hrun h') hreverse
  exact ⟨List.reverse_inj.1 (List.cons.inj hfront).2, List.reverse_inj.1 hrest⟩

/-! ## Texts of shapes -/

namespace Shape

/-- What a shape is of, as its text shows it. -/
def heading : Shape → String
  | list _ => "[list]"
  | node kind _ => kind

/-- The ids of children as a text shows them, letter by letter. -/
def childLetters (cs : List Nat) : List Char := cs.flatMap fun id => (toString id).toList ++ [';']

/-- **A list and a node that look alike**: the node is of the kind that lists are shown by. -/
def Mistakable (s s' : Shape) : Prop :=
  ∃ cs, s = .list cs ∧ s' = .node "[list]" cs ∨ s = .node "[list]" cs ∧ s' = .list cs

theorem childLetters_cons (id : Nat) (cs : List Nat) :
    childLetters (id :: cs) = (toString id).toList ++ ';' :: childLetters cs := by
  simp [childLetters]

theorem toList_text (s : Shape) :
    s.text.toList = s.heading.toList ++ ':' :: childLetters s.children := by
  have hletters : ∀ id : Nat, (toString (Int.ofNat id) ++ ";").toList
      = (toString id).toList ++ [';'] := fun id => String.toList_append
  have hjoin : ∀ cs : List Nat,
      (String.join ((cs.map Int.ofNat).map fun child => toString child ++ ";")).toList
        = childLetters cs := by
    intro cs
    rw [String.toList_join, List.map_map, List.flatMap_map]
    exact congrArg cs.flatMap (funext hletters)
  have htext : s.text = s.heading ++ ":"
      ++ String.join ((s.children.map Int.ofNat).map fun child => toString child ++ ";") := by
    cases s <;> rfl
  rw [htext, String.toList_append, String.toList_append, hjoin, List.append_assoc]
  rfl

/-- **There is no colon among the children.** -/
theorem colon_not_mem_childLetters (cs : List Nat) : ':' ∉ childLetters cs := by
  simp only [childLetters, List.mem_flatMap, List.mem_append, List.mem_singleton, not_exists,
    not_and, not_or]
  refine fun id _ => ⟨fun hmem => ?_, by decide⟩
  exact absurd ((Text.isDecimal_toString id).2 _ hmem) (by decide)

/-- **The children can be read back.** -/
theorem childLetters_injective : ∀ {cs cs' : List Nat},
    childLetters cs = childLetters cs' → cs = cs'
  | [], [], _ => rfl
  | [], id :: cs, h | id :: cs, [], h => by simp [childLetters] at h
  | id :: cs, id' :: cs', h => by
    rw [childLetters_cons, childLetters_cons] at h
    obtain ⟨hid, -, hcs⟩ := (Text.isDecimal_toString id).eq_of_append (Text.isDecimal_toString id')
      (by decide) (by decide) h
    rw [Text.toString_inj.1 hid, childLetters_injective hcs]

variable {s s' : Shape}

/-- Shapes look alike if they have the same heading and the same children. -/
theorem text_eq_iff_heading :
    s.text = s'.text ↔ s.heading = s'.heading ∧ s.children = s'.children := by
  rw [← String.toList_inj, toList_text, toList_text]
  constructor
  · intro h
    obtain ⟨hheading, hchildren⟩ := Text.eq_of_append_last (colon_not_mem_childLetters _)
      (colon_not_mem_childLetters _) h
    exact ⟨String.toList_inj.1 hheading, childLetters_injective hchildren⟩
  · rintro ⟨hheading, hchildren⟩
    rw [hheading, hchildren]

/-- **A text shows one shape**, or a list and a node that look alike. -/
theorem text_eq_iff : s.text = s'.text ↔ s = s' ∨ s.Mistakable s' := by
  rw [text_eq_iff_heading]
  cases s <;> cases s' <;> simp [Mistakable, heading, children, eq_comm, and_comm]

/-! ## Annotations -/

/-- The letters of an annotation in front of its last colon. -/
theorem toList_annotation (s : Shape) : (Tables.shapeKindName s ++ "#" ++ s.text).toList
    = ((Tables.shapeKindName s).toList ++ '#' :: s.heading.toList)
      ++ ':' :: childLetters s.children := by
  simp [toList_text]

/-- A text that stands twice around a letter can be read back. -/
theorem eq_of_twice {c : Char} {kind kind' : List Char}
    (h : kind ++ c :: kind = kind' ++ c :: kind') : kind = kind' := by
  have hlength : (kind ++ c :: kind).length = (kind' ++ c :: kind').length := congrArg _ h
  rw [List.length_append, List.length_append, List.length_cons, List.length_cons] at hlength
  exact (List.append_inj h (by omega)).1

/-- **A node does not have the annotation of a list**: if its kind were as long as the kind name of
lists, then a bracket would stand in the place of the number sign. -/
theorem list_ne_twice (kind : List Char) :
    "List".toList ++ '#' :: "[list]".toList ≠ kind ++ '#' :: kind := by
  intro h
  have hlength : 11 = (kind ++ '#' :: kind).length := congrArg List.length h
  rw [List.length_append, List.length_cons] at hlength
  have hfive : "List#".toList.length = kind.length := by
    show 5 = kind.length
    omega
  have hcut : "List#".toList ++ "[list]".toList = kind ++ '#' :: kind := h
  obtain ⟨-, hbehind⟩ := List.append_inj hcut hfive
  exact absurd (List.cons.inj hbehind).1 (by decide)

/-- **Shapes with the same annotation are the same.** -/
theorem eq_of_annotation
    (h : Tables.shapeKindName s ++ "#" ++ s.text = Tables.shapeKindName s' ++ "#" ++ s'.text) :
    s = s' := by
  rw [← String.toList_inj, toList_annotation, toList_annotation] at h
  obtain ⟨hfront, hletters⟩ := Text.eq_of_append_last (colon_not_mem_childLetters _)
    (colon_not_mem_childLetters _) h
  have hchildren := childLetters_injective hletters
  cases s with
  | list cs =>
    cases s' with
    | list cs' => exact congrArg list hchildren
    | node kind' cs' => exact absurd hfront (list_ne_twice _)
  | node kind cs =>
    cases s' with
    | list cs' => exact absurd hfront.symm (list_ne_twice _)
    | node kind' cs' =>
      have hkind : kind = kind' := String.toList_inj.1 (eq_of_twice hfront)
      rw [hkind, show cs = cs' from hchildren]

end Shape

/-- **The annotation of what is no leaf.** -/
def Representation.annotation? : Representation → Option String
  | leaf _ => none
  | marker m => some (m.text ++ "#" ++ m.text)
  | shape s => some (Tables.shapeKindName s ++ "#" ++ s.text)

namespace Representation

/-- The annotation of a mark is without a colon, and that of a shape is not. -/
theorem marker_annotation_ne (m : Marker) (s : Shape) :
    m.text ++ "#" ++ m.text ≠ Tables.shapeKindName s ++ "#" ++ s.text := by
  intro h
  have hcolon : ':' ∈ (m.text ++ "#" ++ m.text).toList := by
    rw [h, Shape.toList_annotation]
    exact List.mem_append_right _ List.mem_cons_self
  cases m <;> exact absurd hcolon (by decide)

/-- The annotations of the marks are different. -/
theorem marker_annotation_inj {m m' : Marker}
    (h : m.text ++ "#" ++ m.text = m'.text ++ "#" ++ m'.text) : m = m' := by
  revert h
  cases m <;> cases m' <;> decide

variable {r r' : Representation}

/-- What is no leaf has an annotation. -/
theorem exists_annotation? (h : r.isLeaf = false) : ∃ text, r.annotation? = some text := by
  cases r with
  | leaf v => cases h
  | marker m => exact ⟨_, rfl⟩
  | shape s => exact ⟨_, rfl⟩

/-- **What is no leaf can be told from its annotation.** -/
theorem eq_of_annotation? {text : String} (h : r.annotation? = some text)
    (h' : r'.annotation? = some text) : r = r' := by
  cases r with
  | leaf v => cases h
  | marker m =>
    cases r' with
    | leaf v' => cases h'
    | marker m' =>
      exact congrArg marker (marker_annotation_inj (Option.some.inj (h.trans h'.symm)))
    | shape s' => exact absurd (Option.some.inj (h.trans h'.symm)) (marker_annotation_ne m s')
  | shape s =>
    cases r' with
    | leaf v' => cases h'
    | marker m' => exact absurd (Option.some.inj (h'.trans h.symm)) (marker_annotation_ne m' s)
    | shape s' =>
      exact congrArg shape (Shape.eq_of_annotation (Option.some.inj (h.trans h'.symm)))

end Representation

/-! ## Annotations in tables -/

namespace Tables.Coherent

variable {t : Tables} (h : t.Coherent) {id id' : Value} {n n' : Nat} (hid : t.Names id n)
  (hid' : t.Names id' n')

include h

/-- What stands for no leaf stands at one place. -/
theorem representation_inj {r : Representation} (hr : t.representations[n]? = some r)
    (hr' : t.representations[n']? = some r) (hleaf : r.isLeaf = false) : n = n' := by
  cases r with
  | leaf v => cases hleaf
  | marker m => exact (h.marker_iff.1 hr).trans (h.marker_iff.1 hr').symm
  | shape s => exact h.representation_shape_inj hr hr'

include hid

/-- **The text of an id with its kind** is the annotation of what it stands for. -/
theorem annotated_eq {r : Representation} (hr : t.representations[n]? = some r) {text : String}
    (htext : r.annotation? = some text) : t.annotated id = .ok text := by
  unfold annotated
  rw [representation_eq hid hr, h.kindName_eq_kindName hid hr]
  cases r with
  | leaf v => cases htext
  | marker m => exact congrArg Except.ok (Option.some.inj htext)
  | shape s => exact congrArg Except.ok (Option.some.inj htext)

/-- What an id that is no leaf stands for. -/
theorem exists_of_isLeaf_eq_false (hleaf : t.isLeaf id = .ok false) :
    ∃ r text, t.representations[n]? = some r ∧ r.isLeaf = false ∧ r.annotation? = some text := by
  obtain ⟨r, hr⟩ := h.exists_representation.2 hid.2
  rw [isLeaf_eq hid hr] at hleaf
  have hr' : r.isLeaf = false := Except.ok.inj hleaf
  obtain ⟨text, htext⟩ := r.exists_annotation? hr'
  exact ⟨r, text, hr, hr', htext⟩

include hid'

/-- **Ids that are no leaves have the same annotation only if they are the same.** -/
theorem annotated_inj (hleaf : t.isLeaf id = .ok false) (hleaf' : t.isLeaf id' = .ok false) :
    ∃ text text', t.annotated id = .ok text ∧ t.annotated id' = .ok text'
      ∧ (text = text' ↔ n = n') := by
  obtain ⟨r, text, hr, hother, htext⟩ := h.exists_of_isLeaf_eq_false hid hleaf
  obtain ⟨r', text', hr', -, htext'⟩ := h.exists_of_isLeaf_eq_false hid' hleaf'
  refine ⟨text, text', h.annotated_eq hid hr htext, h.annotated_eq hid' hr' htext', ?_, ?_⟩
  · rintro rfl
    obtain rfl := Representation.eq_of_annotation? htext htext'
    exact h.representation_inj hr hr' hother
  · rintro rfl
    obtain rfl := Option.some.inj (hr.symm.trans hr')
    exact Option.some.inj (htext.symm.trans htext')

/-- **Shapes with ids show the same text** only if their ids are the same or they look alike. -/
theorem shape_text_eq_iff {s s' : Shape} (hs : t.representation id = .ok (.shape s))
    (hs' : t.representation id' = .ok (.shape s')) :
    s.text = s'.text ↔ n = n' ∨ s.Mistakable s' := by
  obtain ⟨m, hm, hs⟩ := h.representation_eq_ok_iff.1 hs
  obtain rfl := hid.unique hm
  obtain ⟨m', hm', hs'⟩ := h.representation_eq_ok_iff.1 hs'
  obtain rfl := hid'.unique hm'
  rw [Shape.text_eq_iff]
  refine or_congr_left ⟨?_, ?_⟩
  · rintro rfl
    exact h.representation_shape_inj hs hs'
  · rintro rfl
    exact Representation.shape.inj (Option.some.inj (hs.symm.trans hs'))

end Tables.Coherent

/-! ## Histories -/

namespace Canonicalizer

open Tables

/-- **Annotations separate all ids that are no leaves.** The front-end may be any, so node kinds are
any texts, and anything may have been labeled, with success or not. Two ids that are no leaves,
reserved or handed out, have annotations, and these are different unless the ids are the same. Two
ids of shapes stand for what shows the same text only if they are the same, or the one is that of a
list and the other that of a node of the kind that lists are shown by, with the same children. -/
theorem History.annotated_separates {fe : Frontend} {reporter : Reporter} {calls : List Call}
    {c : Canonicalizer} (h : (create fe reporter).History calls c) {id id' : Value} {n n' : Nat}
    (hid : c.tables.Names id n) (hid' : c.tables.Names id' n') :
    (c.tables.isLeaf id = .ok false → c.tables.isLeaf id' = .ok false →
      ∃ text text', c.tables.annotated id = .ok text ∧ c.tables.annotated id' = .ok text'
        ∧ (text = text' ↔ n = n'))
    ∧ ∀ s s', c.tables.representation id = .ok (.shape s) →
      c.tables.representation id' = .ok (.shape s') →
      (s.text = s'.text ↔ n = n' ∨ s.Mistakable s') := by
  have hc : c.tables.Coherent := h.coherent coherent_empty
  exact ⟨hc.annotated_inj hid hid', fun s s' => hc.shape_text_eq_iff hid hid'⟩

end Canonicalizer

/-! ## A node of the kind that lists are shown by -/

/-- A small dialect, with blocks of nodes and nodes of a misleading kind. -/
def Dialect.bracketed : Dialect where
  grammar := [("Block", [⟨"items", .childList⟩]), ("[list]", [⟨"item", .child⟩])]
  nodeType := none
  freezesLeaves := false
  unknownReason := none

/-- A node of the misleading kind, without an item. -/
def Value.misleading (ref : Nat) : Value :=
  .node ⟨ref, "Node", "[list]", none, some "Node([list])"⟩ [("item", .null)]

namespace Dialect

/-- The form of a block of nothing. -/
theorem form_block_null : bracketed.frontend.form (.block 0 [.null])
    = some (.ok (.node "Block" [.list [.absent]])) := by
  have hitems : bracketed.frontend.PropertyForm (.block 0 [.null]) ⟨"items", .childList⟩
      (.list [.absent]) :=
    (Frontend.propertyForm_childList rfl).2 ⟨[.null], rfl, _, .cons (.absent rfl) .nil, rfl⟩
  exact Frontend.form_eq_ok_iff.2 ⟨_, _, rfl, .cons hitems .nil, rfl⟩

/-- The form of a node of the misleading kind. -/
theorem form_misleading (ref : Nat) : bracketed.frontend.form (.misleading ref)
    = some (.ok (.node "[list]" [.absent])) := by
  have hitem : bracketed.frontend.PropertyForm (.misleading ref) ⟨"item", .child⟩ .absent :=
    (Frontend.propertyForm_child rfl).2 (.absent rfl)
  exact Frontend.form_eq_ok_iff.2 ⟨_, _, rfl, .cons hitem .nil, rfl⟩

end Dialect

/-- A list and a node of the misleading kind: they look alike, and their annotations are
different. -/
theorem Canonicalizer.History.annotated_separates_bracketed :
    ∃ (a b : Labeled) (c : Canonicalizer) (n n' : Nat) (text text' : String),
      (create Dialect.bracketed.frontend {}).History
        [⟨.block 0 [.null], a⟩, ⟨.misleading 1, b⟩] c
      ∧ c.tables.representation (.int n) = .ok (.shape (.list [0]))
      ∧ c.tables.representation (.int n') = .ok (.shape (.node "[list]" [0]))
      ∧ (Shape.list [0]).text = (Shape.node "[list]" [0]).text
      ∧ c.tables.annotated (.int n) = .ok text ∧ c.tables.annotated (.int n') = .ok text'
      ∧ text ≠ text' := by
  have h : (create Dialect.bracketed.frontend {}).History [] _ := .nil
  obtain ⟨a, h, ha⟩ := h.exists_snoc Tables.coherent_empty Dialect.form_block_null
  obtain ⟨b, h, hb⟩ := h.exists_snoc Tables.coherent_empty (Dialect.form_misleading 1)
  obtain ⟨T, hT, -⟩ := ha.exists_ok
  obtain ⟨T', -, hT'⟩ := hb.exists_ok
  have hc := h.coherent Tables.coherent_empty
  have hgiven := h.treeOf?_of_form Tables.coherent_empty List.mem_cons_self
    Dialect.form_block_null hT
  obtain ⟨Ts, -, hTs, -⟩ := Tables.treeOf?_node_eq_some.1 hgiven
  obtain ⟨U, -, hU, -⟩ := Tables.treesOf?_cons_eq_some.1 hTs
  obtain ⟨Us, n, hUs, hn, -⟩ := Tables.treeOf?_list_eq_some.1 hU
  obtain ⟨Vs, n', hVs, hn', -⟩ := Tables.treeOf?_node_eq_some.1 hT'
  cases hUs
  cases hVs
  have hlist := hc.shapeId?_iff.1 hn
  have hnode := hc.shapeId?_iff.1 hn'
  have hid : Tables.Names _ (.int n) n := ⟨.inl rfl, hc.lt_nextId hlist⟩
  have hid' : Tables.Names _ (.int n') n' := ⟨.inl rfl, hc.lt_nextId hnode⟩
  obtain ⟨hannotated, htexts⟩ := h.annotated_separates hid hid'
  have hstands := Tables.Coherent.representation_eq hid hlist
  have hstands' := Tables.Coherent.representation_eq hid' hnode
  obtain ⟨text, text', htext, htext', hiff⟩ := hannotated (Tables.Coherent.isLeaf_eq hid hlist)
    (Tables.Coherent.isLeaf_eq hid' hnode)
  have halike := (htexts _ _ hstands hstands').2 (.inr ⟨[0], .inl ⟨rfl, rfl⟩⟩)
  have hne : n ≠ n' := by
    rintro rfl
    cases hlist.symm.trans hnode
  exact ⟨a, b, _, n, n', text, text', h, hstands, hstands', halike, htext, htext',
    hiff.not.2 hne⟩

end HashConsing
