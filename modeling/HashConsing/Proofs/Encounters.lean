import HashConsing.Proofs.Counting
import HashConsing.Proofs.Sorts
import Mathlib.Data.List.Perm.Subperm

/-!
# The order of first encounters

Ids are handed out on the way through a tree, children first. So in the labeled tree the
ids that were handed out for it come in order, if every one is counted where it is met
first: `Encountered`. This holds of every step that makes something, and it is passed on
when things are made one after the other (`Encountered.append`); an induction on the
trail of a labeling gives it for the whole tree.

The walk over the labeled tree that is handed out is another one, over nodes of a forest,
but it meets the ids in the same order (`Forest.Holds.map_label_postorder`).
-/

namespace HashConsing

/-! ## First encounters -/

/-- **The ids from a bound on**, each of them where it is met first. -/
def firstEncounters (bound : Nat) (ids : List Nat) : List Nat :=
  (ids.filter (bound ≤ ·)).eraseDups

theorem mem_firstEncounters {bound id : Nat} {ids : List Nat} :
    id ∈ firstEncounters bound ids ↔ id ∈ ids ∧ bound ≤ id := by
  simp [firstEncounters, List.mem_eraseDups]

/-- **The ids that are met while the next id goes from one to another**: they are older
than the next id afterwards, and the new ones among them are met in the order in which
they are handed out, without a gap. -/
structure Encountered (next : Nat) (ids : List Nat) (next' : Nat) : Prop where
  le : next ≤ next'
  lt : ∀ id ∈ ids, id < next'
  firstEncounters_eq : firstEncounters next ids = List.range' next (next' - next)

namespace Encountered

variable {m m' m'' : Nat} {ids ids' : List Nat}

/-- **Exactly the new ids are met.** -/
theorem mem_of_le (h : Encountered m ids m') {id : Nat} (hle : m ≤ id) (hlt : id < m') :
    id ∈ ids := by
  have hmem : id ∈ firstEncounters m ids := by
    rw [h.firstEncounters_eq, List.mem_range'_1, Nat.add_sub_cancel' h.le]
    exact ⟨hle, hlt⟩
  exact (mem_firstEncounters.1 hmem).1

/-- Ids that are all old. -/
theorem of_lt (h : ∀ id ∈ ids, id < m) : Encountered m ids m where
  le := Nat.le_refl m
  lt := h
  firstEncounters_eq := by
    have hnone : ids.filter (m ≤ ·) = [] := by
      rw [List.filter_eq_nil_iff]
      intro id hid
      simpa using h id hid
    rw [firstEncounters, hnone, Nat.sub_self]
    rfl

/-- The next id is handed out and met. -/
theorem next (m : Nat) : Encountered m [m] (m + 1) where
  le := Nat.le_succ m
  lt := by simp
  firstEncounters_eq := by simp [firstEncounters, List.eraseDups_cons]

/-- **Ids are met one after the other.** What is new first is old for the second. -/
theorem append (h : Encountered m ids m') (h' : Encountered m' ids' m'') :
    Encountered m (ids ++ ids') m'' where
  le := Nat.le_trans h.le h'.le
  lt id hid := by
    rcases List.mem_append.1 hid with hid | hid
    · exact Nat.lt_of_lt_of_le (h.lt id hid) h'.le
    · exact h'.lt id hid
  firstEncounters_eq := by
    -- An id that is new for both is one that was not met in the first part.
    have hnew : (ids'.filter (m ≤ ·)).removeAll (ids.filter (m ≤ ·)) = ids'.filter (m' ≤ ·) := by
      rw [List.removeAll, List.filter_filter]
      refine List.filter_congr fun id _ => ?_
      rw [Bool.eq_iff_iff]
      simp only [Bool.and_eq_true, Bool.not_eq_true', List.elem_eq_mem, decide_eq_false_iff_not,
        decide_eq_true_eq, List.mem_filter, not_and]
      constructor
      · rintro ⟨hunmet, hle⟩
        exact Nat.le_of_not_lt fun hlt => hunmet (h.mem_of_le hle hlt) hle
      · intro hle
        exact ⟨fun hid => absurd (h.lt id hid) (Nat.not_lt.2 hle), Nat.le_trans h.le hle⟩
    have hfirst := h.firstEncounters_eq
    have hsecond := h'.firstEncounters_eq
    have hlength : m' - m + (m'' - m') = m'' - m := by
      have := h.le
      have := h'.le
      omega
    unfold firstEncounters at hfirst hsecond ⊢
    rw [List.filter_append, List.eraseDups_append, hnew, hfirst, hsecond, ← hlength,
      ← List.range'_append_1, Nat.add_sub_cancel' h.le]

/-- **No more ids are handed out than are met.** -/
theorem le_add (h : Encountered m ids m') : m' ≤ m + ids.length := by
  have hmet : List.range' m (m' - m) ⊆ ids := by
    intro id hid
    rw [List.mem_range'_1, Nat.add_sub_cancel' h.le] at hid
    exact h.mem_of_le hid.1 hid.2
  have hlength : (List.range' m (m' - m)).length ≤ ids.length :=
    ((List.nodup_range' 1).subperm hmet).length_le
  rw [List.length_range'] at hlength
  exact Nat.sub_le_iff_le_add'.1 hlength

end Encountered

/-! ## Along a trail -/

namespace Progress

variable {s : Progress} (h : s.tables.Coherent) (report : Nat → Report)

include h

/-- The id of a leaf is old or the next one. -/
theorem encountered_internLeaf (key : LeafKey) (v : Value) :
    let r := s.internLeaf key v report
    Encountered s.tables.nextId [r.1] r.2.tables.nextId := by
  unfold internLeaf
  cases hid : s.tables.leafId? key with
  | some id => exact .of_lt (List.forall_mem_singleton.2 (h.handedOut_of_leafId? hid).2)
  | none => exact .next _

/-- The id of a shape is old or the next one. -/
theorem encountered_internShape (shape : Shape) :
    let r := s.internShape shape report
    Encountered s.tables.nextId [r.1] r.2.tables.nextId := by
  unfold internShape
  cases hid : s.tables.shapeId? shape with
  | some id => exact .of_lt (List.forall_mem_singleton.2 (h.handedOut_of_shapeId? hid).2)
  | none => exact .next _

end Progress

section Trails

variable {fe : Frontend} {reporter : Reporter}

/-- **Along every trail new ids are met in the order in which they are handed out.** -/
theorem Trail.encountered {s s' : Progress} {places : List PropertyKind} {Ts : List (Rose Nat)}
    (trail : Trail fe (.trees reporter) s places Ts s') (h : s.tables.Coherent)
    (hsorted : s.tables.WellSorted fe) :
    Encountered s.tables.nextId (Ts.flatMap Rose.ids) s'.tables.nextId := by
  induction trail with
  | nil s => exact .of_lt (by simp)
  | cons first rest ihfirst ihrest =>
    obtain ⟨h', hsorted', -⟩ := first.wellSorted h hsorted
    have hids := (ihfirst h hsorted).append (ihrest h' hsorted')
    rwa [← List.flatMap_append, List.singleton_append] at hids
  | absent s =>
    have hnull : nullId < s.tables.nextId := Nat.lt_of_lt_of_le (by decide) h.first_le
    rw [List.flatMap_singleton]
    exact Rose.ids_node nullId [] ▸ .of_lt (List.forall_mem_singleton.2 hnull)
  | @leaf key v s hkey =>
    rw [List.flatMap_singleton]
    exact Rose.ids_node _ [] ▸ Progress.encountered_internLeaf h _ key v
  | @list s s' items Ts below ih =>
    obtain ⟨h', -⟩ := below.wellSorted h hsorted
    rw [List.flatMap_singleton]
    exact Rose.ids_node _ Ts ▸ (ih h hsorted).append (Progress.encountered_internShape h' _ _)
  | @node s s' v ps Ts known below ih =>
    obtain ⟨h', -⟩ := below.wellSorted h hsorted
    rw [List.flatMap_singleton]
    exact Rose.ids_node _ Ts ▸ (ih h hsorted).append (Progress.encountered_internShape h' _ _)

end Trails

/-! ## Histories -/

namespace Canonicalizer

open Tables

/-- **One of some labelings handed an id out**: it was not among the ids before that
labeling and is among them afterwards. -/
def HandedOutIn (start : Canonicalizer) (calls : List Call) (id : Nat) : Prop :=
  ∃ before call after d, calls = before ++ call :: after ∧ start.History before d
    ∧ d.label call.root = some call.labeled
    ∧ d.tables.nextId ≤ id ∧ id < call.labeled.canonicalizer.tables.nextId

variable {fe : Frontend} {reporter : Reporter} {start : Canonicalizer} {calls : List Call}
  {c : Canonicalizer}

/-- **Whatever is handed out is handed out in some labeling.** -/
theorem History.handedOutIn (h : start.History calls c) {id : Nat}
    (hstart : start.tables.nextId ≤ id) (hid : id < c.tables.nextId) :
    HandedOutIn start calls id := by
  induction h with
  | nil => exact absurd hid (Nat.not_lt.2 hstart)
  | @snoc calls c root labeled before last ih =>
    by_cases hold : id < c.tables.nextId
    · obtain ⟨earlier, call, after, d, rfl, hd, hcall, hrange⟩ := ih hold
      exact ⟨earlier, call, after ++ [⟨root, labeled⟩], d, by simp, hd, hcall, hrange⟩
    · exact ⟨calls, ⟨root, labeled⟩, [], c, rfl, before, last, Nat.not_lt.1 hold, hid⟩

/-- **After any history a labeling meets its new ids in order.** -/
theorem History.encountered (h : (create fe reporter).History calls c) {root : Value}
    {labeled : Labeled} (hlabel : c.label root = some labeled) {T : Rose Nat}
    (hT : labeled.result = .ok T) :
    Encountered c.tables.nextId T.ids labeled.canonicalizer.tables.nextId := by
  obtain ⟨⟨result, s⟩, hending, rfl⟩ := Option.map_eq_some_iff.1 hlabel
  obtain rfl : result = .ok T := hT
  have hsorted := h.wellSorted coherent_empty (wellSorted_empty fe)
  have trail : Trail _ _ _ [.child] [T] s := Trailed.label hending
  rw [h.frontend_eq] at trail
  have hids := trail.encountered (h.coherent coherent_empty) hsorted
  rwa [List.flatMap_singleton] at hids

/-- **A labeling hands out no more ids than the labeled tree has nodes.** -/
theorem History.nextId_le (h : (create fe reporter).History calls c) {root : Value}
    {labeled : Labeled} (hlabel : c.label root = some labeled) {T : Rose Nat}
    (hT : labeled.result = .ok T) :
    labeled.canonicalizer.tables.nextId ≤ c.tables.nextId + T.size := by
  rw [← T.length_postorder, ← List.length_map Rose.value]
  exact (h.encountered hlabel hT).le_add

/-- **Ids are handed out in the order of first encounters.** Of the ids that are met on a
walk over a labeled tree, children first, those that are new are met in the order in
which they are handed out, if repetitions are left out: there is no gap, and every new
id is met. The old ones, apart from that of what is absent, were handed out by earlier
labelings. The walk over the nodes that the tree is handed out as meets the same ids in
the same order, and so does the list of these ids as words, if they are words. -/
theorem History.ids_in_order (h : (create fe reporter).History calls c) {root : Value}
    {labeled : Labeled} (hlabel : c.label root = some labeled) {T : Rose Nat}
    (hT : labeled.result = .ok T) :
    let next := c.tables.nextId
    let next' := labeled.canonicalizer.tables.nextId
    next ≤ next'
    ∧ firstEncounters next T.ids = List.range' next (next' - next)
    ∧ (∀ id, next ≤ id → id < next' → id ∈ T.ids)
    ∧ (∀ id ∈ T.ids, firstId ≤ id → id < next → HandedOutIn (create fe reporter) calls id)
    ∧ ∀ f : Forest, let (r, g) := f.plantIds T
      (g.postorder r).map g.label = T.ids.map toString
      ∧ (next' ≤ 2 ^ 63 → (g.postOrderIds r).1 = .ok (T.ids.map Int.ofNat)) := by
  have hids := h.encountered hlabel hT
  refine ⟨hids.le, hids.firstEncounters_eq, fun id hle hlt => hids.mem_of_le hle hlt,
    fun id _ hfirst hlt => h.handedOutIn hfirst hlt, fun f => ⟨?_, fun hword => ?_⟩⟩
  · exact (Forest.holds_plant Forest.idName f T).2.map_label_postorder
  · exact f.postOrderIds_plantIds fun id hid => Nat.lt_of_lt_of_le (hids.lt id hid) hword

/-- A block of names, one of which has been labeled before, after a labeling that failed. -/
theorem History.ids_in_order_block :
    ∃ a b d c T, (create Dialect.blocks.frontend {}).History
        [⟨.name 6 "x", a⟩, ⟨.block 3 [.name 4 "y", .int 5], b⟩] c
      ∧ c.label (.block 0 [.name 1 "x", .null, .name 2 "x"]) = some d ∧ d.result = .ok T
      ∧ firstEncounters c.tables.nextId T.ids
          = List.range' c.tables.nextId (d.canonicalizer.tables.nextId - c.tables.nextId) := by
  have h : (create Dialect.blocks.frontend {}).History [] _ := .nil
  obtain ⟨a, h, -⟩ := h.exists_snoc coherent_empty (form_name 6 "x")
  obtain ⟨b, h, -⟩ := h.exists_snoc coherent_empty form_number
  obtain ⟨d, hd, hencodes⟩ := h.exists_label coherent_empty form_names
  obtain ⟨T, hT, -⟩ := hencodes.exists_ok
  exact ⟨a, b, d, _, T, h, hd, hT, (h.ids_in_order hd hT).2.1⟩

end Canonicalizer

end HashConsing
