import HashConsing.Proofs.Meaning
import HashConsing.Proofs.Planting
import HashConsing.Tables.Query

/-!
# Labeling loses nothing

What an id stands for can be looked up, and so can the ids below it, and so on:
`Tables.unfold` makes a tree of an id in this way. It is written as plain
recursion, which ends because the ids below an id are smaller
(`Tables.Coherent.exists_unfold`). Unfolding the root of a labeled tree gives back
the labeled tree, and reading kinds and keys off it gives back the form
(`Tables.decode?`). As nothing is forgotten, this can be done at any later time.

So a labeled tree is determined by its label. Comparing the nodes that labeled
trees are handed out as is comparing their labels.
-/

namespace HashConsing

/-- The ids below what an id stands for. -/
def Representation.children : Representation → List Nat
  | shape s => s.children
  | _ => []

namespace Tables

/-- **The tree of an id**: the id, and below it the trees of the ids below. -/
def unfold (t : Tables) (id : Nat) : Outcome (Rose Nat) := do
  let r ← t.representation (.int id)
  return .node id (← r.children.mapM fun child => t |>.unfold child)
partial_fixpoint

mutual

/-- **The form read off a labeled tree**: at each id, what the tables say it stands
for. -/
def decode? (t : Tables) : Rose Nat → Option Form
  | .node id ts =>
    match t.representation (.int id) with
    | .ok (.marker .absent) => some .absent
    | .ok (.leaf v) => do return .leaf (← v.leafKey.toOption)
    | .ok (.shape (.list _)) => do return .list (← decodeEach? t ts)
    | .ok (.shape (.node kind _)) => do return .node kind (← decodeEach? t ts)
    | _ => none

/-- The forms read off some labeled trees. -/
def decodeEach? (t : Tables) : List (Rose Nat) → Option (List Form)
  | [] => some []
  | u :: us => do return (← decode? t u) :: (← decodeEach? t us)

end

variable {t : Tables}

/-! ## Looking ids up -/

section Looking

variable {id : Nat} {F : Form} {T : Rose Nat} (h : t.Coherent)

include h

/-- Asking what an id stands for is looking it up. -/
theorem Coherent.representation_of_some {r : Representation}
    (hr : t.representations[id]? = some r) : t.representation (.int id) = .ok r := by
  have hid : (0 : Int) ≤ id ∧ (id : Int) < t.nextId :=
    ⟨Int.natCast_nonneg id, Int.ofNat_lt.2 (h.lt_nextId hr)⟩
  have hallocated : t.allocated (.int id) = .ok id := if_pos hid
  unfold representation
  simp only [hallocated, bind, Except.bind, hr]
  rfl

omit h in
/-- A number that was not handed out stands for nothing. -/
theorem representation_of_le (hid : t.nextId ≤ id) :
    t.representation (.int id) = .error (t.unknownId (.int id)) := by
  have hnot : ¬((0 : Int) ≤ id ∧ (id : Int) < t.nextId) := fun hlt =>
    absurd (Int.ofNat_lt.1 hlt.2) (Nat.not_lt.2 hid)
  have hallocated : t.allocated (.int id) = .error (t.unknownId (.int id)) := if_neg hnot
  unfold representation
  rw [hallocated]
  rfl

/-- The ids below what an id stands for are smaller. -/
theorem Coherent.lt_of_mem_children {r : Representation} (hr : t.representations[id]? = some r)
    {child : Nat} (hchild : child ∈ r.children) : child < id := by
  cases r with
  | marker m => cases hchild
  | leaf v => cases hchild
  | shape s =>
    have hfirst : firstId ≤ id := h.first_le_of_ne_marker hr (by simp)
    rcases h.children hr child hchild with hnull | ⟨-, hlt⟩
    · exact hnull ▸ Nat.lt_of_lt_of_le (by decide) hfirst
    · exact hlt

/-- **What the root of a labeled tree stands for has the ids below it.** -/
theorem Coherent.exists_children (hF : t.treeOf? F = some T) :
    ∃ r, t.representations[T.value]? = some r ∧ r.children = T.children.map Rose.value := by
  have hstands := h.standsFor hF
  cases F with
  | absent => exact ⟨_, hstands.2, hstands.1.symm⟩
  | leaf key =>
    obtain ⟨v, hr, -⟩ := hstands.2
    exact ⟨_, hr, hstands.1.symm⟩
  | list items => exact ⟨_, hstands, rfl⟩
  | node kind properties => exact ⟨_, hstands, rfl⟩

end Looking

/-! ## Unfolding -/

/-- Some ids unfold if each of them does. -/
theorem mapM_unfold {ids : List Nat} {Ts : List (Rose Nat)}
    (hids : List.Forall₂ (fun id T => t.unfold id = some (.ok T)) ids Ts) :
    ids.mapM t.unfold = (some (.ok Ts) : Outcome (List (Rose Nat))) := by
  induction hids with
  | nil => rfl
  | cons hid _ ih =>
    rw [List.mapM_cons, hid, ih]
    rfl

/-- An id unfolds if the ids below it do. -/
theorem unfold_of_children {id : Nat} {r : Representation} {Ts : List (Rose Nat)}
    (hr : t.representation (.int id) = .ok r)
    (hids : List.Forall₂ (fun id T => t.unfold id = some (.ok T)) r.children Ts) :
    t.unfold id = some (.ok (.node id Ts)) := by
  rw [unfold, hr]
  show ((r.children.mapM t.unfold) >>= fun Ts => pure (.node id Ts) : Outcome (Rose Nat)) = _
  rw [mapM_unfold hids]
  rfl

mutual

/-- **A labeled tree is what the id at its root unfolds to.** -/
theorem Coherent.unfold_value (h : t.Coherent) : ∀ {T : Rose Nat} {F : Form},
    t.treeOf? F = some T → t.unfold T.value = some (.ok T)
  | .node id Ts, F, hF => by
    obtain ⟨r, hr, hchildren⟩ := h.exists_children hF
    refine unfold_of_children (h.representation_of_some hr) ?_
    rw [hchildren]
    exact h.unfold_values (children_of_treeOf? hF)

theorem Coherent.unfold_values (h : t.Coherent) : ∀ {Ts : List (Rose Nat)} {Fs : List Form},
    List.Forall₂ (fun T F => t.treeOf? F = some T) Ts Fs →
    List.Forall₂ (fun id T => t.unfold id = some (.ok T)) (Ts.map Rose.value) Ts
  | [], _, _ => .nil
  | _ :: _, _, .cons hF hFs => .cons (h.unfold_value hF) (h.unfold_values hFs)

end

/-- **Every id that stands for something unfolds.** -/
theorem Coherent.exists_unfold (h : t.Coherent) {id : Nat} (hid : id < t.nextId) :
    ∃ T, t.unfold id = some (.ok T) := by
  induction id using Nat.strongRecOn with
  | ind id ih =>
    obtain ⟨r, hr⟩ := h.exists_representation.2 hid
    -- The ids below are smaller, so they unfold already.
    have hbelow : ∀ child ∈ r.children, ∃ T, t.unfold child = some (.ok T) := by
      intro child hchild
      have hlt : child < id := h.lt_of_mem_children hr hchild
      exact ih child hlt (Nat.lt_trans hlt hid)
    choose! below hbelow using hbelow
    have hall : List.Forall₂ (fun id T => t.unfold id = some (.ok T)) r.children
        (r.children.map below) := by
      rw [List.forall₂_map_right_iff, List.forall₂_same]
      exact hbelow
    exact ⟨_, unfold_of_children (h.representation_of_some hr) hall⟩

/-- **Unfolding ends for every number.** -/
theorem Coherent.unfold_terminates (h : t.Coherent) (id : Nat) :
    ∃ outcome, t.unfold id = some outcome := by
  by_cases hid : id < t.nextId
  · obtain ⟨T, hT⟩ := h.exists_unfold hid
    exact ⟨_, hT⟩
  · refine ⟨.error (t.unknownId (.int id)), ?_⟩
    rw [unfold, representation_of_le (Nat.not_lt.1 hid)]
    rfl

/-! ## Reading forms -/

mutual

/-- **Reading a labeled tree gives the form back.** -/
theorem Coherent.decode?_treeOf? (h : t.Coherent) : ∀ {F : Form} {T : Rose Nat},
    t.treeOf? F = some T → t.decode? T = some F
  | .absent, .node id Ts, hF => by
    have hr : t.representation (.int id) = .ok (.marker .absent) :=
      h.representation_of_some (h.standsFor hF).2
    rw [decode?, hr]
  | .leaf key, .node id Ts, hF => by
    obtain ⟨v, hv, hkey⟩ := (h.standsFor hF).2
    have hr : t.representation (.int id) = .ok (.leaf v) := h.representation_of_some hv
    rw [decode?, hr]
    show (do return Form.leaf (← v.leafKey.toOption) : Option Form) = _
    rw [hkey]
    rfl
  | .list items, .node id Ts, hF => by
    have hTs : t.treesOf? items = some Ts := treesOf?_eq_some.2 (children_of_treeOf? hF)
    have hr : t.representation (.int id) = .ok (.shape (.list (Ts.map Rose.value))) :=
      h.representation_of_some (h.standsFor hF)
    rw [decode?, hr]
    show (do return Form.list (← t.decodeEach? Ts) : Option Form) = _
    rw [h.decodeEach?_treesOf? hTs]
    rfl
  | .node kind properties, .node id Ts, hF => by
    have hTs : t.treesOf? properties = some Ts := treesOf?_eq_some.2 (children_of_treeOf? hF)
    have hr : t.representation (.int id) = .ok (.shape (.node kind (Ts.map Rose.value))) :=
      h.representation_of_some (h.standsFor hF)
    rw [decode?, hr]
    show (do return Form.node kind (← t.decodeEach? Ts) : Option Form) = _
    rw [h.decodeEach?_treesOf? hTs]
    rfl

theorem Coherent.decodeEach?_treesOf? (h : t.Coherent) : ∀ {Fs : List Form}
    {Ts : List (Rose Nat)}, t.treesOf? Fs = some Ts → t.decodeEach? Ts = some Fs
  | [], Ts, hFs => by
    cases hFs
    rfl
  | F :: Fs, Ts, hcons => by
    obtain ⟨T, Ts, hF, hFs, rfl⟩ := treesOf?_cons_eq_some.1 hcons
    rw [decodeEach?, h.decode?_treeOf? hF, h.decodeEach?_treesOf? hFs]
    rfl

end

/-! ## Positions -/

/-- **A labeled tree is laid out as the tables say** of the id at its root. -/
structure LaidOut (t : Tables) (T : Rose Nat) : Prop where
  /-- The id stands for something. -/
  stands : ∃ r, t.representation (.int T.value) = .ok r
  /-- There is nothing below what is absent. -/
  absent : T.value = nullId → T.children = []
  /-- There is nothing below a leaf. -/
  leaf : ∀ v, t.representation (.int T.value) = .ok (.leaf v) → T.children = []
  /-- Below a shape are the children of the shape, in order. -/
  shape : ∀ s, t.representation (.int T.value) = .ok (.shape s) →
    T.children.map Rose.value = s.children

/-- **Labeled trees of forms are laid out as the tables say.** -/
theorem Coherent.laidOut (h : t.Coherent) {F : Form} {T : Rose Nat}
    (hF : t.treeOf? F = some T) : t.LaidOut T := by
  obtain ⟨r, hr, hchildren⟩ := h.exists_children hF
  have hrepresentation := h.representation_of_some hr
  constructor
  · exact ⟨r, hrepresentation⟩
  · intro hnull
    have hmarker : r = .marker .absent :=
      Option.some.inj (hr.symm.trans (h.marker_iff.2 hnull))
    rw [hmarker] at hchildren
    exact List.map_eq_nil_iff.1 hchildren.symm
  · intro v hv
    obtain rfl : r = .leaf v := Except.ok.inj (hrepresentation.symm.trans hv)
    exact List.map_eq_nil_iff.1 hchildren.symm
  · intro s hs
    obtain rfl : r = .shape s := Except.ok.inj (hrepresentation.symm.trans hs)
    exact hchildren.symm

end Tables

/-! ## Labeled trees of a history -/

namespace Canonicalizer

open Tables

/-- **A tree that a labeling gave out**, whole or as a part. -/
def Call.Gave (call : Call) (U : Rose Nat) : Prop :=
  ∃ T path, call.labeled.result = .ok T ∧ T.at? path = some U

variable {fe : Frontend} {reporter : Reporter} {calls : List Call} {c : Canonicalizer}

/-- What a labeling of a history gave out is the labeled tree of a form. -/
theorem History.treeOf?_of_gave (h : (create fe reporter).History calls c) {call : Call}
    (hcall : call ∈ calls) {U : Rose Nat} (hU : call.Gave U) :
    ∃ F, c.tables.treeOf? F = some U := by
  obtain ⟨T, path, hT, hTU⟩ := hU
  obtain ⟨F, -, hFT⟩ := h.treeOf? coherent_empty hcall hT
  obtain ⟨G, -, hGU⟩ := at?_of_treeOf? hFT hTU
  exact ⟨G, hGU⟩

/-- **Labeling loses nothing.** In the tables after any history, every number
unfolds, and every allocated id to a tree; whatever a labeling gave out is what
its root unfolds to, is laid out as the tables say, and reads as the form of the
tree that was labeled; and nodes that hold two such trees, or parts of them, have
the same label if and only if they are equal. -/
theorem History.tables_decode (h : (create fe reporter).History calls c) :
    (∀ id, ∃ outcome, c.tables.unfold id = some outcome)
    ∧ (∀ id < c.tables.nextId, ∃ T, c.tables.unfold id = some (.ok T))
    ∧ (∀ call ∈ calls, ∀ T, call.labeled.result = .ok T →
        c.tables.unfold T.value = some (.ok T)
        ∧ (∀ path U, T.at? path = some U → c.tables.LaidOut U)
        ∧ ∃ F, fe.form call.root = some (.ok F) ∧ c.tables.decode? T = some F)
    ∧ ∀ call ∈ calls, ∀ call' ∈ calls, ∀ U U', call.Gave U → call'.Gave U' →
        ∀ (f : Forest) (r r' : Ref), f.Holds Forest.idName r U → f.Holds Forest.idName r' U' →
          (f.label r = f.label r' ↔ f.same r r' = true) := by
  have hc : c.tables.Coherent := h.coherent coherent_empty
  refine ⟨hc.unfold_terminates, fun id hid => hc.exists_unfold hid, ?_, ?_⟩
  · intro call hcall T hT
    obtain ⟨F, hF, hFT⟩ := h.treeOf? coherent_empty hcall hT
    refine ⟨hc.unfold_value hFT, fun path U hU => ?_, F, hF, hc.decode?_treeOf? hFT⟩
    obtain ⟨G, -, hGU⟩ := at?_of_treeOf? hFT hU
    exact hc.laidOut hGU
  · intro call hcall call' hcall' U U' hU hU' f r r' hr hr'
    obtain ⟨F, hFU⟩ := h.treeOf?_of_gave hcall hU
    obtain ⟨F', hFU'⟩ := h.treeOf?_of_gave hcall' hU'
    have hlabel : f.label r = U.label := congrArg Prod.fst hr.name_eq
    have hlabel' : f.label r' = U'.label := congrArg Prod.fst hr'.name_eq
    rw [hlabel, hlabel', Rose.label_inj, Forest.same_iff Forest.idName_injective hr hr']
    constructor
    · intro hid
      obtain rfl := hc.form_unique hFU hFU' hid
      exact Option.some.inj (hFU.symm.trans hFU')
    · exact congrArg Rose.value

/-- A block and a name labeled after a failure, handed out as nodes of one forest. -/
theorem History.tables_decode_blocks :
    ∃ a b d c T T', ∃ (f : Forest) (r r' : Ref),
      (create Dialect.blocks.frontend {}).History (blockCalls a b d) c
      ∧ a.result = .ok T ∧ d.result = .ok T'
      ∧ c.tables.unfold T.value = some (.ok T) ∧ c.tables.unfold T'.value = some (.ok T')
      ∧ f.Holds Forest.idName r T ∧ f.Holds Forest.idName r' T'
      ∧ (f.label r = f.label r' ↔ f.same r r' = true) := by
  obtain ⟨a, b, d, c, h, ⟨T, hT⟩, -, T', hT'⟩ := exists_history_blockCalls
  have hfirst : ⟨_, a⟩ ∈ blockCalls a b d := List.mem_cons_self
  have hlast : ⟨.name 6 "x", d⟩ ∈ blockCalls a b d := by simp [blockCalls]
  obtain ⟨-, hr⟩ := Forest.holds_plant Forest.idName .empty T
  obtain ⟨hkeeps, hr'⟩ := Forest.holds_plant Forest.idName (Forest.empty.plantIds T).2 T'
  replace hr := hr.keep hkeeps
  obtain ⟨-, -, hdecode, hsame⟩ := h.tables_decode
  refine ⟨a, b, d, c, T, T', _, _, _, h, hT, hT', (hdecode _ hfirst T hT).1,
    (hdecode _ hlast T' hT').1, hr, hr', ?_⟩
  exact hsame _ hfirst _ hlast T T' ⟨T, [], hT, rfl⟩ ⟨T', [], hT', rfl⟩ _ _ _ hr hr'

end Canonicalizer

end HashConsing
