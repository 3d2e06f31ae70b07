import HashConsing.Proofs.Meaning
import HashConsing.Proofs.Trail

/-!
# The tables follow the grammar

A shape says nothing of what its children stand for: they are numbers. Yet an id
among the children of a node stands for what the grammar declares there. It fits the
property in its place (`Tables.Fits`) and no property of another kind: where raw data is
declared there is a leaf, where a node is declared there is a node or nothing, where a
sequence is declared there is a list, and the items of a list are nodes or nothing.

`Tables.WellSorted` says this of all shapes in the tables. It holds along every trail of
a labeling (`Trail.wellSorted`): a shape is made of ids that were made for the places
of its children, and an id that fitted a place once fits it in all later tables.
-/

namespace HashConsing

/-- What holds of the second members of all pairs holds of the second list. -/
theorem forall_of_forall₂ {α β : Type} {p : β → Prop} {as : List α} {bs : List β}
    (h : List.Forall₂ (fun _ b => p b) as bs) : ∀ b ∈ bs, p b := by
  have hflip : List.Forall₂ (fun b (_ : α) => p b ∧ True) bs as :=
    h.flip.imp fun _ _ hb => ⟨hb, trivial⟩
  exact ((List.forall₂_and_left _ _).1 hflip).1

/-- **The kind of place that an id is for**, by what it stands for. What is absent is
in a place for a node; the reserved id of lists is in no place. -/
def Representation.place? : Representation → Option PropertyKind
  | marker .absent => some .child
  | marker .listShape => none
  | leaf _ => some .leaf
  | shape (.node ..) => some .child
  | shape (.list _) => some .childList

namespace Tables

section Sorts

variable (t : Tables)

/-- **An id fits a place** for raw data, for a node, or for a sequence of nodes. -/
def Fits (place : PropertyKind) (id : Nat) : Prop :=
  ∃ r, t.representations[id]? = some r ∧ r.place? = some place

/-- **Children for which a relation to their places holds**: the children of a node
are in the places of its properties, and those of a list in places for nodes. The kind
of the node is known. -/
def InPlaces (fe : Frontend) (R : PropertyKind → Nat → Prop) : Shape → Prop
  | .node kind cs => ∃ ps, fe.properties? kind = some ps
      ∧ List.Forall₂ R (ps.map Property.kind) cs
  | .list cs => ∀ child ∈ cs, R .child child

/-- **All shapes in the tables follow the grammar.** -/
def WellSorted (fe : Frontend) : Prop :=
  ∀ (id : Nat) (s : Shape), t.representations[id]? = some (.shape s) → InPlaces fe t.Fits s

end Sorts

/-- What holds in all places may be weakened. -/
theorem InPlaces.imp {fe : Frontend} {R S : PropertyKind → Nat → Prop}
    (hRS : ∀ place id, R place id → S place id) {s : Shape} (h : InPlaces fe R s) :
    InPlaces fe S s := by
  cases s with
  | list cs => exact fun child hchild => hRS _ _ (h child hchild)
  | node kind cs =>
    obtain ⟨ps, hps, hcs⟩ := h
    exact ⟨ps, hps, hcs.imp hRS⟩

variable {t u : Tables} {fe : Frontend}

/-- **No id fits places of two kinds.** -/
theorem Fits.unique {place place' : PropertyKind} {id : Nat} (h : t.Fits place id)
    (h' : t.Fits place' id) : place = place' := by
  obtain ⟨r, hr, hplace⟩ := h
  obtain ⟨r', hr', hplace'⟩ := h'
  obtain rfl := Option.some.inj (hr.symm.trans hr')
  exact Option.some.inj (hplace.symm.trans hplace')

/-- **An id that fits a place goes on fitting it.** -/
theorem GrowsTo.fits (h : t.GrowsTo u) (place : PropertyKind) (id : Nat)
    (hid : t.Fits place id) : u.Fits place id := by
  obtain ⟨r, hr, hplace⟩ := hid
  exact ⟨r, h.representations hr, hplace⟩

/-- The ids that fit places for raw data are those that stand for a leaf. -/
theorem fits_leaf_iff {id : Nat} :
    t.Fits .leaf id ↔ ∃ v, t.representations[id]? = some (.leaf v) := by
  constructor
  · rintro ⟨(_ | _) | v | (_ | _), hr, hplace⟩ <;> cases hplace
    exact ⟨v, hr⟩
  · rintro ⟨v, hr⟩
    exact ⟨_, hr, rfl⟩

namespace Coherent

variable (h : t.Coherent)

include h

/-- Nothing fits places for nodes. -/
theorem fits_absent : t.Fits .child nullId := ⟨.marker .absent, h.marker_iff.2 rfl, rfl⟩

/-- The ids that fit places for nodes are those of node shapes and that of nothing. -/
theorem fits_child_iff {id : Nat} :
    t.Fits .child id ↔ id = nullId ∨ ∃ kind cs, t.shapeId? (.node kind cs) = some id := by
  simp only [h.shapeId?_iff]
  constructor
  · rintro ⟨(_ | _) | v | (_ | ⟨kind, cs⟩), hr, hplace⟩ <;> cases hplace
    · exact .inl (h.marker_iff.1 hr)
    · exact .inr ⟨kind, cs, hr⟩
  · rintro (rfl | ⟨kind, cs, hr⟩)
    · exact h.fits_absent
    · exact ⟨_, hr, rfl⟩

/-- The ids that fit places for sequences are those of list shapes. -/
theorem fits_childList_iff {id : Nat} :
    t.Fits .childList id ↔ ∃ cs, t.shapeId? (.list cs) = some id := by
  simp only [h.shapeId?_iff]
  constructor
  · rintro ⟨(_ | _) | v | (cs | _), hr, hplace⟩ <;> cases hplace
    exact ⟨cs, hr⟩
  · rintro ⟨cs, hr⟩
    exact ⟨_, hr, rfl⟩

/-- What fits a place can be a child. -/
theorem handedOutBefore_of_fits {place : PropertyKind} {id : Nat} (hid : t.Fits place id) :
    HandedOutBefore t.nextId id := by
  obtain ⟨r, hr, hplace⟩ := hid
  by_cases hnull : r = .marker .absent
  · exact .inl (h.marker_iff.1 (hnull ▸ hr))
  · refine .inr ⟨h.first_le_of_ne_marker hr ?_, h.lt_nextId hr⟩
    rintro (_ | _) rfl
    · exact hnull rfl
    · cases hplace

/-- Children in their places can be children. -/
theorem handedOutBefore_of_inPlaces {s : Shape} (hs : InPlaces fe t.Fits s) :
    ∀ child ∈ s.children, HandedOutBefore t.nextId child := by
  cases s with
  | list cs => exact fun child hchild => h.handedOutBefore_of_fits (hs child hchild)
  | node kind cs =>
    obtain ⟨ps, -, hcs⟩ := hs
    exact forall_of_forall₂ (hcs.imp fun _ _ hid => h.handedOutBefore_of_fits hid)

/-! ## Steps that hand out ids -/

/-- **A new leaf key keeps the shapes as they were.** -/
theorem wellSorted_addLeaf (hsorted : t.WellSorted fe) {key : LeafKey} (v : Value)
    (hnew : t.leafId? key = none) : (t.addLeaf key v).WellSorted fe := by
  intro id s hs
  rcases h.getElem?_push.1 hs with ⟨-, hleaf⟩ | hold
  · cases hleaf
  · exact (hsorted _ _ hold).imp (growsTo_addLeaf v hnew).fits

/-- **A new shape follows the grammar** if its children fit their places. -/
theorem wellSorted_addShape (hsorted : t.WellSorted fe) {s : Shape}
    (hs : InPlaces fe t.Fits s) (hnew : t.shapeId? s = none) :
    (t.addShape s).WellSorted fe := by
  have hfits := (growsTo_addShape hnew).fits
  intro id s' hs'
  rcases h.getElem?_push.1 hs' with ⟨-, hshape⟩ | hold
  · cases hshape
    exact hs.imp hfits
  · exact (hsorted _ _ hold).imp hfits

end Coherent

end Tables

namespace Progress

open Tables

variable {s : Progress} {fe : Frontend} (h : s.tables.Coherent) (hsorted : s.tables.WellSorted fe)
  (report : Nat → Report)

include h hsorted

/-- **A leaf gets an id that fits places for raw data.** -/
theorem internLeaf_fits {key : LeafKey} {v : Value} (hv : v.leafKey = .ok key) :
    let r := s.internLeaf key v report
    r.2.tables.Coherent ∧ r.2.tables.WellSorted fe ∧ s.tables.GrowsTo r.2.tables
      ∧ r.2.tables.Fits .leaf r.1 := by
  obtain ⟨hc, hgrows, hid⟩ := internLeaf_spec h report hv
  refine ⟨hc, ?_, hgrows, ?_⟩
  · unfold internLeaf
    cases hkey : s.tables.leafId? key with
    | some id => exact hsorted
    | none => exact h.wellSorted_addLeaf hsorted v hkey
  · obtain ⟨w, hw, -⟩ := hc.leafId?_iff.1 hid
    exact ⟨_, hw, rfl⟩

/-- **A shape gets an id** in tables that follow the grammar if the shape does. -/
theorem internShape_fits {shape : Shape} (hshape : InPlaces fe s.tables.Fits shape) :
    let r := s.internShape shape report
    r.2.tables.Coherent ∧ r.2.tables.WellSorted fe ∧ s.tables.GrowsTo r.2.tables
      ∧ r.2.tables.representations[r.1]? = some (.shape shape) := by
  obtain ⟨hc, hgrows, hid⟩ :=
    internShape_spec h report shape (h.handedOutBefore_of_inPlaces hshape)
  refine ⟨hc, ?_, hgrows, hc.shapeId?_iff.1 hid⟩
  unfold internShape
  cases hnew : s.tables.shapeId? shape with
  | some id => exact hsorted
  | none => exact h.wellSorted_addShape hsorted hshape hnew

end Progress

/-! ## Trails -/

open Tables

variable {fe : Frontend} {reporter : Reporter}

/-- **Along every trail the tables follow the grammar**, and what is made fits the
places it is made for. -/
theorem Trail.wellSorted {s s' : Progress} {places : List PropertyKind} {Ts : List (Rose Nat)}
    (trail : Trail fe (.trees reporter) s places Ts s') (h : s.tables.Coherent)
    (hsorted : s.tables.WellSorted fe) :
    s'.tables.Coherent ∧ s'.tables.WellSorted fe ∧ s.tables.GrowsTo s'.tables
      ∧ List.Forall₂ s'.tables.Fits places (Ts.map Rose.value) := by
  induction trail with
  | nil s => exact ⟨h, hsorted, .refl _, .nil⟩
  | cons first rest ihfirst ihrest =>
    obtain ⟨h', hsorted', hgrows, hid⟩ := ihfirst h hsorted
    obtain ⟨h'', hsorted'', hgrows', hids⟩ := ihrest h' hsorted'
    obtain ⟨hid, -⟩ := List.forall₂_cons.1 hid
    exact ⟨h'', hsorted'', hgrows.trans hgrows', .cons (hgrows'.fits _ _ hid) hids⟩
  | absent s => exact ⟨h, hsorted, .refl _, .cons h.fits_absent .nil⟩
  | @leaf key v s hkey =>
    obtain ⟨hc, hw, hgrows, hid⟩ :=
      Progress.internLeaf_fits h hsorted (reporter.reportLeaf v) hkey
    exact ⟨hc, hw, hgrows, .cons hid .nil⟩
  | @list s s' items Ts below ih =>
    obtain ⟨h', hsorted', hgrows, hids⟩ := ih h hsorted
    have hitems : InPlaces fe s'.tables.Fits (.list (Ts.map Rose.value)) :=
      forall_of_forall₂ (List.forall₂_map_left_iff.1 hids)
    obtain ⟨hc, hw, hgrows', hs⟩ := Progress.internShape_fits h' hsorted'
      (reporter.reportList items (.list (Ts.map Rose.value))) hitems
    exact ⟨hc, hw, hgrows.trans hgrows', .cons ⟨_, hs, rfl⟩ .nil⟩
  | @node s s' v ps Ts known below ih =>
    obtain ⟨h', hsorted', hgrows, hids⟩ := ih h hsorted
    have hproperties :
        InPlaces fe s'.tables.Fits (.node (fe.kindOf v) (Ts.map Rose.value)) :=
      ⟨ps, known, hids⟩
    obtain ⟨hc, hw, hgrows', hs⟩ := Progress.internShape_fits h' hsorted'
      (reporter.reportNode v (fe.kindOf v) (.node (fe.kindOf v) (Ts.map Rose.value))) hproperties
    exact ⟨hc, hw, hgrows.trans hgrows', .cons ⟨_, hs, rfl⟩ .nil⟩

/-- Tables that follow the grammar follow it after every labeling, failed or not. -/
theorem Trailed.wellSorted {s : Progress} {ending : Ending Progress (Rose Nat)}
    {places : List PropertyKind} {made : Rose Nat → List (Rose Nat)}
    (trailed : Trailed fe (.trees reporter) s places made ending) (h : s.tables.Coherent)
    (hsorted : s.tables.WellSorted fe) : ending.2.tables.WellSorted fe := by
  rcases ending with ⟨failure | T, s'⟩
  · obtain ⟨places, Ts, trail⟩ := trailed
    exact (trail.wellSorted h hsorted).2.1
  · exact (Trail.wellSorted trailed h hsorted).2.1

/-! ## Histories -/

namespace Tables

/-- There are no shapes in the tables at the start. -/
theorem wellSorted_empty (fe : Frontend) : empty.WellSorted fe := by
  intro id s hs
  rcases id with _ | _ | id <;> simp [empty] at hs

end Tables

namespace Canonicalizer

variable {calls : List Call} {c : Canonicalizer}

/-- **Tables follow the grammar** through any labelings. -/
theorem History.wellSorted {start : Canonicalizer} (hs : start.tables.Coherent)
    (hsorted : start.tables.WellSorted start.frontend) (h : start.History calls c) :
    c.tables.WellSorted start.frontend := by
  induction h with
  | nil => exact hsorted
  | snoc before last ih =>
    obtain ⟨ending, hending, rfl⟩ := Option.map_eq_some_iff.1 last
    rw [before.frontend_eq] at hending
    exact (Trailed.label hending).wellSorted (before.coherent hs) ih

/-- **Every stored shape follows the grammar**, whatever has been labeled: the kind of
a node is known, and there is one child for each of its properties, which fits that
property; the children of a list fit places for nodes. Raw data is where a leaf is, a
node where nothing or a node shape is, a sequence where a list shape is, and no id fits
places of two kinds: a list stands nowhere but where a sequence is declared, and neither
lists nor leaves are items of lists. -/
theorem History.shapes_follow_grammar (h : (create fe reporter).History calls c) :
    (∀ s id, c.tables.shapeId? s = some id ∨ c.tables.representations[id]? = some (.shape s) →
      InPlaces fe c.tables.Fits s)
    ∧ (∀ id, c.tables.Fits .leaf id ↔ ∃ v, c.tables.representations[id]? = some (.leaf v))
    ∧ (∀ id, c.tables.Fits .child id ↔
        id = nullId ∨ ∃ kind cs, c.tables.shapeId? (.node kind cs) = some id)
    ∧ (∀ id, c.tables.Fits .childList id ↔ ∃ cs, c.tables.shapeId? (.list cs) = some id)
    ∧ ∀ id place place', c.tables.Fits place id → c.tables.Fits place' id → place = place' := by
  have hc : c.tables.Coherent := h.coherent coherent_empty
  have hsorted : c.tables.WellSorted fe := h.wellSorted coherent_empty (wellSorted_empty fe)
  refine ⟨fun s id hid => hsorted id s (hid.elim hc.shapeId?_iff.1 fun hs => hs),
    fun _ => fits_leaf_iff, fun _ => hc.fits_child_iff, fun _ => hc.fits_childList_iff,
    fun _ _ _ => Fits.unique⟩

/-- The shape of a block, after a labeling that failed between two others. -/
theorem History.shapes_follow_grammar_block :
    ∃ a b d c cs id, (create Dialect.blocks.frontend {}).History (blockCalls a b d) c
      ∧ c.tables.shapeId? (.node "Block" cs) = some id
      ∧ InPlaces Dialect.blocks.frontend c.tables.Fits (.node "Block" cs) := by
  obtain ⟨a, b, d, c, h, ⟨T, hT⟩, -⟩ := exists_history_blockCalls
  have hfirst : ⟨_, a⟩ ∈ blockCalls a b d := List.mem_cons_self
  obtain ⟨Ts, id, -, hid, -⟩ :=
    treeOf?_node_eq_some.1 (h.treeOf?_of_form coherent_empty hfirst form_names hT)
  exact ⟨a, b, d, c, _, id, h, hid, h.shapes_follow_grammar.1 _ _ (.inl hid)⟩

end Canonicalizer

end HashConsing
