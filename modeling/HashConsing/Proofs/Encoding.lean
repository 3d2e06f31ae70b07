import HashConsing.Form
import HashConsing.Proofs.Coherence
import Mathlib.Data.List.Forall2

/-!
# Forms in the tables

Canonical ids stand for canonical forms. Tables that have an id for everything in
a form have a labeled tree for it, `Tables.treeOf?`: the form with an id at every
position. This module relates the two in coherent tables.

Every position of a labeled tree is a position of its form, and what the tables
say of the id there is what the form has there, up to the forms below
(`Tables.StandsFor`). So the id at the root determines the form:
`Tables.Coherent.form_unique`. And as nothing is forgotten when tables grow, a
form keeps its labeled tree for good: `Tables.GrowsTo.treeOf?`.
-/

namespace HashConsing

namespace Tables

section Encoding

variable (t : Tables)

mutual

/-- **The labeled tree of a form**, if everything in the form has an id. -/
def treeOf? : Form → Option (Rose Nat)
  | .absent => some absentTree
  | .leaf key => do
    let id ← t.leafId? key
    return .node id []
  | .list items => do
    let trees ← treesOf? items
    let id ← t.shapeId? (.list (trees.map Rose.value))
    return .node id trees
  | .node kind properties => do
    let trees ← treesOf? properties
    let id ← t.shapeId? (.node kind (trees.map Rose.value))
    return .node id trees

/-- The labeled trees of some forms. -/
def treesOf? : List Form → Option (List (Rose Nat))
  | [] => some []
  | F :: Fs => do return (← treeOf? F) :: (← treesOf? Fs)

end

variable {t} {T : Rose Nat} {Ts : List (Rose Nat)} {F : Form} {Fs : List Form}

theorem treesOf?_cons_eq_some :
    t.treesOf? (F :: Fs) = some Ts
      ↔ ∃ U Us, t.treeOf? F = some U ∧ t.treesOf? Fs = some Us ∧ U :: Us = Ts := by
  simp [treesOf?, Option.bind_eq_some_iff]

/-- The labeled trees of some forms are the trees of the forms one by one. -/
theorem treesOf?_eq_some :
    t.treesOf? Fs = some Ts ↔ List.Forall₂ (fun T F => t.treeOf? F = some T) Ts Fs := by
  induction Fs generalizing Ts with
  | nil => simp [treesOf?, eq_comm]
  | cons F Fs ih =>
    rw [treesOf?_cons_eq_some, List.forall₂_cons_right_iff]
    simp only [ih, eq_comm]

/-- The labeled tree of a leaf. -/
theorem treeOf?_leaf_eq_some {key : LeafKey} :
    t.treeOf? (.leaf key) = some T ↔ ∃ id, t.leafId? key = some id ∧ .node id [] = T := by
  simp [treeOf?, Option.bind_eq_some_iff]

/-- The labeled tree of a list. -/
theorem treeOf?_list_eq_some :
    t.treeOf? (.list Fs) = some T ↔ ∃ Ts id, t.treesOf? Fs = some Ts
      ∧ t.shapeId? (.list (Ts.map Rose.value)) = some id ∧ .node id Ts = T := by
  simp [treeOf?, Option.bind_eq_some_iff]

/-- The labeled tree of a node. -/
theorem treeOf?_node_eq_some {kind : String} :
    t.treeOf? (.node kind Fs) = some T ↔ ∃ Ts id, t.treesOf? Fs = some Ts
      ∧ t.shapeId? (.node kind (Ts.map Rose.value)) = some id ∧ .node id Ts = T := by
  simp [treeOf?, Option.bind_eq_some_iff]

/-! ## Positions -/

/-- **The subtrees of a labeled tree are the trees of the forms below.** -/
theorem children_of_treeOf? (h : t.treeOf? F = some T) :
    List.Forall₂ (fun T F => t.treeOf? F = some T) T.children F.children := by
  cases F with
  | absent =>
    cases h
    exact .nil
  | leaf key =>
    obtain ⟨id, -, rfl⟩ := treeOf?_leaf_eq_some.1 h
    exact .nil
  | list items =>
    obtain ⟨Ts, id, hTs, -, rfl⟩ := treeOf?_list_eq_some.1 h
    exact treesOf?_eq_some.1 hTs
  | node kind properties =>
    obtain ⟨Ts, id, hTs, -, rfl⟩ := treeOf?_node_eq_some.1 h
    exact treesOf?_eq_some.1 hTs

/-- Lists that correspond to each other correspond at each index. -/
theorem forall₂_getElem? {A B : Type} {R : A → B → Prop} {as : List A} {bs : List B}
    (h : List.Forall₂ R as bs) (i : Nat) : Option.Rel R as[i]? bs[i]? := by
  induction h generalizing i with
  | nil => exact .none
  | cons hab _ ih =>
    cases i with
    | zero => exact .some hab
    | succ i => exact ih i

/-- **The positions of a labeled tree are those of its form**, and each of them holds the
labeled tree of the form there. -/
theorem rel_at?_of_treeOf? (h : t.treeOf? F = some T) (path : List Nat) :
    Option.Rel (fun U G => t.treeOf? G = some U) (T.at? path) (F.at? path) := by
  induction path generalizing F T with
  | nil => exact .some h
  | cons i path ih =>
    -- A step down in the tree is a step down in the form.
    have hchild := forall₂_getElem? (children_of_treeOf? h) i
    rw [Rose.at?, Form.at?]
    generalize T.children[i]? = child, F.children[i]? = form at hchild ⊢
    cases hchild with
    | none => exact .none
    | some hchild => exact ih hchild

/-- What is at a position of a labeled tree is the labeled tree of the form there. -/
theorem at?_of_treeOf? {path : List Nat} {U : Rose Nat} (h : t.treeOf? F = some T)
    (hU : T.at? path = some U) : ∃ G, F.at? path = some G ∧ t.treeOf? G = some U := by
  have hrel := rel_at?_of_treeOf? h path
  rw [hU] at hrel
  generalize F.at? path = form at hrel ⊢
  cases hrel with
  | some hGU => exact ⟨_, rfl, hGU⟩

/-- What is at a position of a form has its labeled tree there. -/
theorem exists_tree_at? {path : List Nat} {G : Form} (h : t.treeOf? F = some T)
    (hG : F.at? path = some G) : ∃ U, T.at? path = some U ∧ t.treeOf? G = some U := by
  have hrel := rel_at?_of_treeOf? h path
  rw [hG] at hrel
  generalize T.at? path = tree at hrel ⊢
  cases hrel with
  | some hGU => exact ⟨_, rfl, hGU⟩

/-! ## What the tables say of an id -/

variable (t) in
/-- **An id stands for a form** over given ids of the forms below it. -/
def StandsFor (F : Form) (children : List Nat) (id : Nat) : Prop :=
  match F with
  | .absent => children = [] ∧ t.representations[id]? = some (.marker .absent)
  | .leaf key => children = [] ∧
      ∃ v, t.representations[id]? = some (.leaf v) ∧ v.leafKey = .ok key
  | .list _ => t.representations[id]? = some (.shape (.list children))
  | .node kind _ => t.representations[id]? = some (.shape (.node kind children))

/-- **An id stands for one form only**, apart from the forms below. -/
theorem StandsFor.unique {F G : Form} {children children' : List Nat} {id : Nat}
    (hF : t.StandsFor F children id) (hG : t.StandsFor G children' id) :
    children = children' ∧ (F.children = G.children → F = G) := by
  cases F <;> cases G <;> simp_all [StandsFor, Form.children]
  case leaf.leaf key key' =>
    obtain ⟨-, v, hr, hv⟩ := hF
    obtain ⟨-, v', hr', hv'⟩ := hG
    obtain rfl : v = v' := by simpa using hr.symm.trans hr'
    simpa using hv.symm.trans hv'

/-- **The id at the root of a labeled tree stands for its form.** -/
theorem Coherent.standsFor (h : t.Coherent) (hF : t.treeOf? F = some T) :
    t.StandsFor F (T.children.map Rose.value) T.value := by
  cases F with
  | absent =>
    cases hF
    exact ⟨rfl, h.marker_iff.2 rfl⟩
  | leaf key =>
    obtain ⟨id, hid, rfl⟩ := treeOf?_leaf_eq_some.1 hF
    exact ⟨rfl, h.leafId?_iff.1 hid⟩
  | list items =>
    obtain ⟨Ts, id, -, hid, rfl⟩ := treeOf?_list_eq_some.1 hF
    exact h.shapeId?_iff.1 hid
  | node kind properties =>
    obtain ⟨Ts, id, -, hid, rfl⟩ := treeOf?_node_eq_some.1 hF
    exact h.shapeId?_iff.1 hid

/-- **The ids in labeled trees are those that can be children.** -/
theorem Coherent.handedOutBefore_value (h : t.Coherent) (hF : t.treeOf? F = some T) :
    HandedOutBefore t.nextId T.value := by
  cases F with
  | absent =>
    cases hF
    exact .inl rfl
  | leaf key =>
    obtain ⟨id, hid, rfl⟩ := treeOf?_leaf_eq_some.1 hF
    exact .inr (h.handedOut_of_leafId? hid)
  | list items =>
    obtain ⟨Ts, id, -, hid, rfl⟩ := treeOf?_list_eq_some.1 hF
    exact .inr (h.handedOut_of_shapeId? hid)
  | node kind properties =>
    obtain ⟨Ts, id, -, hid, rfl⟩ := treeOf?_node_eq_some.1 hF
    exact .inr (h.handedOut_of_shapeId? hid)

/-- The ids at the roots of labeled trees can be children. -/
theorem Coherent.handedOutBefore_values (h : t.Coherent) (hFs : t.treesOf? Fs = some Ts) :
    ∀ child ∈ Ts.map Rose.value, HandedOutBefore t.nextId child := by
  induction Fs generalizing Ts with
  | nil =>
    cases hFs
    simp
  | cons F Fs ih =>
    obtain ⟨T, Ts, hF, hFs', rfl⟩ := treesOf?_cons_eq_some.1 hFs
    rw [List.map_cons, List.forall_mem_cons]
    exact ⟨h.handedOutBefore_value hF, ih hFs'⟩

/-! ## Ids determine forms -/

mutual

/-- **The id at the root determines the form.** -/
theorem Coherent.form_unique (h : t.Coherent) : ∀ {T U : Rose Nat} {F G : Form},
    t.treeOf? F = some T → t.treeOf? G = some U → T.value = U.value → F = G
  | .node id Ts, .node id' Us, F, G, hF, hG, hid => by
    have hF' := h.standsFor hF
    rw [hid] at hF'
    obtain ⟨hids, hform⟩ := hF'.unique (h.standsFor hG)
    -- The ids of the forms below agree, so the forms below do.
    exact hform (h.forms_unique (children_of_treeOf? hF) (children_of_treeOf? hG) hids)

/-- The ids at the roots determine the forms one by one. -/
theorem Coherent.forms_unique (h : t.Coherent) : ∀ {Ts Us : List (Rose Nat)} {Fs Gs : List Form},
    List.Forall₂ (fun T F => t.treeOf? F = some T) Ts Fs →
    List.Forall₂ (fun U G => t.treeOf? G = some U) Us Gs →
    Ts.map Rose.value = Us.map Rose.value → Fs = Gs
  | [], [], _, _, .nil, .nil, _ => rfl
  | T :: Ts, U :: Us, _, _, .cons hF hFs, .cons hG hGs, hids => by
    obtain ⟨hid, hids⟩ := List.cons.inj hids
    rw [h.form_unique hF hG hid, h.forms_unique hFs hGs hids]

end

/-- **Labels are equal if and only if the forms are.** -/
theorem Coherent.labels_eq_iff (h : t.Coherent) {U : Rose Nat} {G : Form}
    (hF : t.treeOf? F = some T) (hG : t.treeOf? G = some U) : T.label = U.label ↔ F = G := by
  rw [Rose.label_inj]
  constructor
  · exact h.form_unique hF hG
  · rintro rfl
    rw [Option.some.inj (hF.symm.trans hG)]

end Encoding

/-! ## Later tables -/

section Later

variable {t u : Tables}

mutual

/-- **A form keeps its labeled tree.** -/
theorem GrowsTo.treeOf? (h : t.GrowsTo u) : ∀ {F : Form} {T : Rose Nat},
    t.treeOf? F = some T → u.treeOf? F = some T
  | .absent, _, hF => hF
  | .leaf key, _, hF => by
    obtain ⟨id, hid, rfl⟩ := treeOf?_leaf_eq_some.1 hF
    exact treeOf?_leaf_eq_some.2 ⟨id, h.leafId? hid, rfl⟩
  | .list items, _, hF => by
    obtain ⟨Ts, id, hTs, hid, rfl⟩ := treeOf?_list_eq_some.1 hF
    exact treeOf?_list_eq_some.2 ⟨Ts, id, h.treesOf? hTs, h.shapeId? hid, rfl⟩
  | .node kind properties, _, hF => by
    obtain ⟨Ts, id, hTs, hid, rfl⟩ := treeOf?_node_eq_some.1 hF
    exact treeOf?_node_eq_some.2 ⟨Ts, id, h.treesOf? hTs, h.shapeId? hid, rfl⟩

/-- Forms keep their labeled trees. -/
theorem GrowsTo.treesOf? (h : t.GrowsTo u) : ∀ {Fs : List Form} {Ts : List (Rose Nat)},
    t.treesOf? Fs = some Ts → u.treesOf? Fs = some Ts
  | [], _, hFs => hFs
  | F :: Fs, _, hcons => by
    obtain ⟨T, Ts, hF, hFs, rfl⟩ := treesOf?_cons_eq_some.1 hcons
    exact treesOf?_cons_eq_some.2 ⟨T, Ts, h.treeOf? hF, h.treesOf? hFs, rfl⟩

end

end Later

end Tables

end HashConsing
