import HashConsing.Labeling
import Mathlib.Logic.ExistsUnique

/-!
# Coherent tables

The tables keep what they know in four places: the ids of leaf keys, the ids of
shapes, what each id stands for, and the kind name of each id. `Tables.Coherent`
says that these agree. The ids of leaf keys are those that stand for a leaf, the
ids of shapes are those that stand for a shape, and only the two reserved ids
stand for a mark; the children of a shape have been handed out before the shape.

`Tables.GrowsTo` says that nothing is forgotten on the way from some tables to
later ones.

Both are shown here for the two steps that hand out ids, `Progress.internLeaf`
and `Progress.internShape`. A step keeps the tables coherent if what it is given
is sound: a leaf comes with its key, and the children of a shape have ids.
-/

namespace HashConsing

/-- The reserved id that stands for a mark. -/
def Marker.id : Marker → Nat
  | absent => nullId
  | listShape => listId

/-- The ids that are not handed out are those of the marks. -/
theorem Marker.exists_id_of_lt {id : Nat} (h : id < firstId) : ∃ m : Marker, id = m.id := by
  have hid : id = nullId ∨ id = listId := by
    simp only [nullId, listId, firstId] at h ⊢
    omega
  exact hid.elim (fun hid => ⟨.absent, hid⟩) fun hid => ⟨.listShape, hid⟩

/-- **The kind name that goes with what an id stands for.** -/
def Representation.kindName : Representation → String
  | marker m => m.text
  | leaf _ => Tables.leafKindName
  | shape s => Tables.shapeKindName s

/-- **An id that can be a child of an id**: it stands for what is absent, or it was
handed out before. The reserved id of lists cannot. -/
def HandedOutBefore (id child : Nat) : Prop := child = nullId ∨ firstId ≤ child ∧ child < id

namespace Tables

/-- **The tables agree with each other.** -/
structure Coherent (t : Tables) : Prop where
  first_le : firstId ≤ t.nextId
  size_representations : t.representations.size = t.nextId
  size_kindNames : t.kindNames.size = t.nextId
  /-- Each mark stands at its reserved id and nowhere else. -/
  marker_iff : ∀ {id : Nat} {m : Marker}, t.representations[id]? = some (.marker m) ↔ id = m.id
  /-- The ids of leaf keys are the ids that stand for a value with that key. -/
  leafId?_iff : ∀ {key : LeafKey} {id : Nat}, t.leafId? key = some id ↔
    ∃ v, t.representations[id]? = some (.leaf v) ∧ v.leafKey = .ok key
  /-- What an id stands for as a leaf has a key. -/
  leaf_key : ∀ {id : Nat} {v : Value}, t.representations[id]? = some (.leaf v) →
    ∃ key, v.leafKey = .ok key
  /-- The ids of shapes are the ids that stand for that shape. -/
  shapeId?_iff : ∀ {s : Shape} {id : Nat}, t.shapeId? s = some id ↔
    t.representations[id]? = some (.shape s)
  /-- The children of a shape were handed out before the shape. -/
  children : ∀ {id : Nat} {s : Shape}, t.representations[id]? = some (.shape s) →
    ∀ child ∈ s.children, HandedOutBefore id child
  kindName_eq : ∀ id : Nat, t.kindNames[id]? = t.representations[id]?.map Representation.kindName

/-- **Nothing that the tables know is forgotten.** -/
structure GrowsTo (t u : Tables) : Prop where
  nextId_le : t.nextId ≤ u.nextId
  representations : ∀ {id : Nat} {r : Representation},
    t.representations[id]? = some r → u.representations[id]? = some r
  kindNames : ∀ {id : Nat} {name : String},
    t.kindNames[id]? = some name → u.kindNames[id]? = some name
  leafId? : ∀ {key : LeafKey} {id : Nat}, t.leafId? key = some id → u.leafId? key = some id
  shapeId? : ∀ {s : Shape} {id : Nat}, t.shapeId? s = some id → u.shapeId? s = some id

namespace GrowsTo

variable {t u w : Tables}

theorem refl (t : Tables) : t.GrowsTo t :=
  ⟨Nat.le_refl _, fun h => h, fun h => h, fun h => h, fun h => h⟩

theorem trans (h : t.GrowsTo u) (h' : u.GrowsTo w) : t.GrowsTo w where
  nextId_le := Nat.le_trans h.nextId_le h'.nextId_le
  representations := h'.representations ∘ h.representations
  kindNames := h'.kindNames ∘ h.kindNames
  leafId? := h'.leafId? ∘ h.leafId?
  shapeId? := h'.shapeId? ∘ h.shapeId?

end GrowsTo

/-! ## What coherent tables tell of an id -/

namespace Coherent

variable {t : Tables} (h : t.Coherent) {id : Nat}

include h

/-- Exactly the ids below the next one stand for something. -/
theorem exists_representation : (∃ r, t.representations[id]? = some r) ↔ id < t.nextId := by
  rw [← h.size_representations]
  constructor
  · rintro ⟨r, hr⟩
    exact (Array.getElem?_eq_some_iff.1 hr).1
  · intro hid
    exact ⟨_, Array.getElem?_eq_getElem hid⟩

theorem lt_nextId {r : Representation} (hr : t.representations[id]? = some r) :
    id < t.nextId :=
  h.exists_representation.1 ⟨r, hr⟩

theorem representation_nextId : t.representations[t.nextId]? = none := by
  rw [← h.size_representations]
  exact Array.getElem?_eq_none (Nat.le_refl _)

/-- What stands for no mark was handed out. -/
theorem first_le_of_ne_marker {r : Representation} (hr : t.representations[id]? = some r)
    (hm : ∀ m, r ≠ .marker m) : firstId ≤ id := by
  refine Nat.le_of_not_lt fun hlt => ?_
  obtain ⟨m, hid⟩ := Marker.exists_id_of_lt hlt
  exact hm m (Option.some.inj (hr.symm.trans (h.marker_iff.2 hid)))

/-- What was handed out stands for no mark. -/
theorem ne_marker_of_first_le {m : Marker} (hid : firstId ≤ id) :
    t.representations[id]? ≠ some (.marker m) := by
  intro hr
  obtain rfl := h.marker_iff.1 hr
  cases m
  · exact absurd hid (by decide)
  · exact absurd hid (by decide)

/-- The id of a leaf key was handed out. -/
theorem handedOut_of_leafId? {key : LeafKey} (hkey : t.leafId? key = some id) :
    firstId ≤ id ∧ id < t.nextId := by
  obtain ⟨v, hr, -⟩ := h.leafId?_iff.1 hkey
  exact ⟨h.first_le_of_ne_marker hr (by simp), h.lt_nextId hr⟩

/-- The id of a shape was handed out. -/
theorem handedOut_of_shapeId? {s : Shape} (hs : t.shapeId? s = some id) :
    firstId ≤ id ∧ id < t.nextId := by
  have hr := h.shapeId?_iff.1 hs
  exact ⟨h.first_le_of_ne_marker hr (by simp), h.lt_nextId hr⟩

/-- A shape has one id. -/
theorem representation_shape_inj {id' : Nat} {s : Shape}
    (hr : t.representations[id]? = some (.shape s))
    (hr' : t.representations[id']? = some (.shape s)) : id = id' :=
  Option.some.inj ((h.shapeId?_iff.2 hr).symm.trans (h.shapeId?_iff.2 hr'))

end Coherent

/-- **The tables at the start are coherent.** -/
theorem coherent_empty : empty.Coherent where
  first_le := Nat.le_refl _
  size_representations := rfl
  size_kindNames := rfl
  marker_iff {id m} := by
    rcases id with _ | _ | id <;> cases m <;> simp [empty, Marker.id, nullId, listId]
  leafId?_iff {key id} := by
    rcases id with _ | _ | id <;> simp [empty, Tables.leafId?]
  leaf_key {id v} hr := by
    rcases id with _ | _ | id <;> simp [empty] at hr
  shapeId?_iff {s id} := by
    rcases id with _ | _ | id <;> simp [empty, Tables.shapeId?]
  children {id s} hr := by
    rcases id with _ | _ | id <;> simp [empty] at hr
  kindName_eq id := by
    rcases id with _ | _ | id <;> simp [empty, Representation.kindName]

/-! ## Adding an entry -/

section Adding

variable {t : Tables} (h : t.Coherent)

include h

/-- What stands where an entry was added at the end. -/
theorem Coherent.getElem?_push {id : Nat} {r r' : Representation} :
    (t.representations.push r)[id]? = some r'
      ↔ id = t.nextId ∧ r = r' ∨ t.representations[id]? = some r' := by
  rw [Array.getElem?_push, h.size_representations]
  by_cases hid : id = t.nextId
  · subst hid
    simp [h.representation_nextId]
  · simp [hid]

/-- The kind names still go with the representations. -/
theorem Coherent.kindName_push (r : Representation) (id : Nat) :
    (t.kindNames.push r.kindName)[id]?
      = (t.representations.push r)[id]?.map Representation.kindName := by
  rw [Array.getElem?_push, Array.getElem?_push, h.size_kindNames, h.size_representations]
  by_cases hid : id = t.nextId
  · rw [if_pos hid, if_pos hid, Option.map_some]
  · rw [if_neg hid, if_neg hid]
    exact h.kindName_eq id

/-- The marks still stand where they stood. -/
theorem Coherent.marker_push {r : Representation} (hr : ∀ m, r ≠ .marker m) {id : Nat}
    {m : Marker} : (t.representations.push r)[id]? = some (.marker m) ↔ id = m.id := by
  rw [h.getElem?_push, ← h.marker_iff]
  exact or_iff_right fun hm => hr m hm.2

/-- **A new leaf key keeps the tables coherent.** -/
theorem Coherent.addLeaf {key : LeafKey} {v : Value} (hv : v.leafKey = .ok key)
    (hnew : t.leafId? key = none) : (t.addLeaf key v).Coherent where
  first_le := Nat.le_succ_of_le h.first_le
  size_representations := by
    rw [Tables.addLeaf, Array.size_push, h.size_representations]
  size_kindNames := by
    rw [Tables.addLeaf, Array.size_push, h.size_kindNames]
  marker_iff := h.marker_push (by simp)
  leafId?_iff {key' id} := by
    rw [leafId?_addLeaf]
    simp only [Tables.addLeaf, h.getElem?_push]
    by_cases hkey : key = key'
    · -- The new key has the new id, and no old leaf has that key: it had no id.
      subst hkey
      rw [if_pos rfl]
      constructor
      · rintro ⟨⟩
        exact ⟨v, .inl ⟨rfl, rfl⟩, hv⟩
      · rintro ⟨w, ⟨rfl, -⟩ | hold, hw⟩
        · rfl
        · rw [h.leafId?_iff.2 ⟨w, hold, hw⟩] at hnew
          cases hnew
    · rw [if_neg hkey, h.leafId?_iff]
      constructor
      · rintro ⟨w, hold, hw⟩
        exact ⟨w, .inr hold, hw⟩
      · rintro ⟨w, ⟨-, hw'⟩ | hold, hw⟩
        · cases hw'
          rw [hv] at hw
          cases hw
          exact absurd rfl hkey
        · exact ⟨w, hold, hw⟩
  leaf_key {id w} hw := by
    rcases h.getElem?_push.1 hw with ⟨-, hnew⟩ | hold
    · cases hnew
      exact ⟨key, hv⟩
    · exact h.leaf_key hold
  shapeId?_iff {s id} := by
    rw [shapeId?_addLeaf]
    simp only [Tables.addLeaf, h.getElem?_push]
    rw [h.shapeId?_iff]
    exact (or_iff_right fun hnew => by cases hnew.2).symm
  children {id s} hs := by
    rcases h.getElem?_push.1 hs with ⟨-, hnew⟩ | hold
    · cases hnew
    · exact h.children hold
  kindName_eq := h.kindName_push (.leaf v)

/-- **A new shape keeps the tables coherent** if its children have ids. -/
theorem Coherent.addShape {s : Shape} (hs : ∀ child ∈ s.children, HandedOutBefore t.nextId child)
    (hnew : t.shapeId? s = none) : (t.addShape s).Coherent where
  first_le := Nat.le_succ_of_le h.first_le
  size_representations := by
    rw [Tables.addShape, Array.size_push, h.size_representations]
  size_kindNames := by
    rw [Tables.addShape, Array.size_push, h.size_kindNames]
  marker_iff := h.marker_push (by simp)
  leafId?_iff {key id} := by
    rw [leafId?_addShape, h.leafId?_iff]
    simp only [Tables.addShape, h.getElem?_push, reduceCtorEq, and_false, false_or]
  leaf_key {id v} hv := by
    rcases h.getElem?_push.1 hv with ⟨-, hnew⟩ | hold
    · cases hnew
    · exact h.leaf_key hold
  shapeId?_iff {s' id} := by
    rw [shapeId?_addShape]
    simp only [Tables.addShape, h.getElem?_push]
    by_cases hs' : s = s'
    · -- The new shape has the new id, and no old id stands for it.
      subst hs'
      rw [if_pos rfl]
      constructor
      · rintro ⟨⟩
        exact .inl ⟨rfl, rfl⟩
      · rintro (⟨rfl, -⟩ | hold)
        · rfl
        · rw [h.shapeId?_iff.2 hold] at hnew
          cases hnew
    · rw [if_neg hs', h.shapeId?_iff]
      exact (or_iff_right fun hnew => hs' (by simpa using hnew.2)).symm
  children {id s'} hs' := by
    rcases h.getElem?_push.1 hs' with ⟨rfl, hnew⟩ | hold
    · cases hnew
      exact hs
    · exact h.children hold
  kindName_eq := h.kindName_push (.shape s)

omit h in
theorem getElem?_push_of_some {α : Type} {xs : Array α} {i : Nat} {x y : α}
    (hx : xs[i]? = some x) : (xs.push y)[i]? = some x := by
  have hi : i < xs.size := (Array.getElem?_eq_some_iff.1 hx).1
  rw [Array.getElem?_push, if_neg (Nat.ne_of_lt hi), hx]

omit h in
/-- **A new leaf key makes nothing forgotten.** -/
theorem growsTo_addLeaf {key : LeafKey} (v : Value) (hnew : t.leafId? key = none) :
    t.GrowsTo (t.addLeaf key v) where
  nextId_le := Nat.le_succ _
  representations := getElem?_push_of_some
  kindNames := getElem?_push_of_some
  leafId? {key' id} hkey := by
    rw [leafId?_addLeaf, if_neg, hkey]
    rintro rfl
    rw [hnew] at hkey
    cases hkey
  shapeId? hs := hs

omit h in
/-- **A new shape makes nothing forgotten.** -/
theorem growsTo_addShape {s : Shape} (hnew : t.shapeId? s = none) :
    t.GrowsTo (t.addShape s) where
  nextId_le := Nat.le_succ _
  representations := getElem?_push_of_some
  kindNames := getElem?_push_of_some
  leafId? hkey := hkey
  shapeId? {s' id} hs := by
    rw [shapeId?_addShape, if_neg, hs]
    rintro rfl
    rw [hnew] at hs
    cases hs

end Adding

end Tables

/-! ## Steps that hand out ids -/

namespace Progress

open Tables

variable {s : Progress} (h : s.tables.Coherent) (report : Nat → Report)

include h

/-- **The id of a leaf is the id of its key afterwards.** -/
theorem internLeaf_spec {key : LeafKey} {v : Value} (hv : v.leafKey = .ok key) :
    let r := s.internLeaf key v report
    r.2.tables.Coherent ∧ s.tables.GrowsTo r.2.tables ∧ r.2.tables.leafId? key = some r.1 := by
  unfold internLeaf
  cases hid : s.tables.leafId? key with
  | some id => exact ⟨h, .refl _, hid⟩
  | none =>
    refine ⟨h.addLeaf hv hid, growsTo_addLeaf v hid, ?_⟩
    show (s.tables.addLeaf key v).leafId? key = some s.tables.nextId
    rw [leafId?_addLeaf, if_pos rfl]

/-- **The id of a shape is the id of that shape afterwards.** -/
theorem internShape_spec (shape : Shape)
    (hs : ∀ child ∈ shape.children, HandedOutBefore s.tables.nextId child) :
    let r := s.internShape shape report
    r.2.tables.Coherent ∧ s.tables.GrowsTo r.2.tables
      ∧ r.2.tables.shapeId? shape = some r.1 := by
  unfold internShape
  cases hid : s.tables.shapeId? shape with
  | some id => exact ⟨h, .refl _, hid⟩
  | none =>
    refine ⟨h.addShape hs hid, growsTo_addShape hid, ?_⟩
    show (s.tables.addShape shape).shapeId? shape = some s.tables.nextId
    rw [shapeId?_addShape, if_pos rfl]

end Progress

end HashConsing
