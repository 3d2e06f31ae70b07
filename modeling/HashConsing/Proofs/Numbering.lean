import HashConsing.Proofs.LeafTexts
import HashConsing.Proofs.Pieces
import HashConsing.Proofs.Renaming
import HashConsing.Source

/-!
# Fresh numberings

Two canonicalizers that have not labeled anything number trees of the same form in the
same way. The ids of the one are the ids of the other up to a renaming; but both meet
their ids in the order in which they were handed out, so the renaming takes the numbers
from the first one on to themselves, and there is nothing to rename
(`Canonicalizer.History.same_numbering`).

The tables need not be equal: a leaf may be remembered by another value with the same
key. Where all leaves are plain this is not to be seen (`Tables.classifier_eq`), and
the trees are rendered alike.
-/

namespace HashConsing

/-! ## Renaming and first encounters -/

namespace Rose

/-- The ids of a tree with other values. -/
theorem ids_map (f : Nat → Nat) : ∀ T : Rose Nat, (T.map f).ids = T.ids.map f
  | node id Ts => by
    have hTs : (Ts.map (map f)).flatMap ids = (Ts.flatMap ids).map f := by
      rw [List.flatMap_map, List.map_flatMap]
      exact List.flatMap_congr fun T _ => ids_map f T
    rw [map_node, ids_node, ids_node, hTs, List.map_append, List.map_singleton]

/-- A tree is the same with other values that are the same. -/
theorem map_eq_self {f : Nat → Nat} : ∀ {T : Rose Nat}, (∀ id ∈ T.ids, f id = id) → T.map f = T
  | node id Ts, h => by
    rw [ids_node] at h
    have hTs : Ts.map (map f) = Ts := by
      refine (List.map_congr_left fun T hT => ?_).trans (List.map_id Ts)
      refine map_eq_self fun id' hid' => h id' (List.mem_append_left _ ?_)
      exact List.mem_flatMap_of_mem hT hid'
    rw [map_node, hTs, h id (List.mem_append_right _ (List.mem_singleton.2 rfl))]

end Rose

/-- Repetitions are left out before or after a renaming. -/
theorem eraseDups_map {f : Nat → Nat} (hf : Function.Injective f) :
    ∀ ids : List Nat, (ids.map f).eraseDups = ids.eraseDups.map f
  | [] => rfl
  | id :: ids => by
    have hothers : (ids.map f).filter (fun b => !b == f id)
        = (ids.filter fun b => !b == id).map f := by
      rw [List.filter_map]
      refine congrArg (List.map f) (List.filter_congr fun b _ => ?_)
      rw [Function.comp_apply, Bool.eq_iff_iff]
      simp [hf.eq_iff]
    rw [List.map_cons, List.eraseDups_cons, List.eraseDups_cons, List.map_cons, hothers,
      eraseDups_map hf]
termination_by ids => ids.length
decreasing_by exact Nat.lt_succ_of_le (List.length_filter_le _ _)

section Encounters

variable {f : Nat → Nat} (hf : Function.Injective f) {bound : Nat} (hold : ∀ id < bound, f id = id)

include hf hold

/-- A renaming that keeps the ids below a bound renames no id across the bound. -/
theorem bound_le_iff (id : Nat) : bound ≤ f id ↔ bound ≤ id := by
  rw [← Nat.not_lt, ← Nat.not_lt, not_iff_not]
  constructor
  · intro hlt
    rwa [hf (hold _ hlt)] at hlt
  · intro hlt
    rwa [hold id hlt]

/-- **First encounters are renamed** with the ids that are met, if the ids below the
bound are kept. -/
theorem firstEncounters_map (ids : List Nat) :
    firstEncounters bound (ids.map f) = (firstEncounters bound ids).map f := by
  unfold firstEncounters
  rw [List.filter_map, ← eraseDups_map hf]
  refine congrArg (fun new => (new.map f).eraseDups) (List.filter_congr fun id _ => ?_)
  rw [Function.comp_apply, Bool.eq_iff_iff]
  simp [bound_le_iff hf hold]

/-- **Where ids are met in order before and after a renaming**, nothing is renamed. -/
theorem eq_of_firstEncounters {ids : List Nat} {n : Nat}
    (hids : firstEncounters bound ids = List.range' bound n)
    (hrenamed : firstEncounters bound (ids.map f) = List.range' bound n) :
    ∀ id < bound + n, f id = id := by
  rw [firstEncounters_map hf hold, hids] at hrenamed
  have hnew : ∀ id ∈ List.range' bound n, f id = id :=
    List.map_inj_left.1 (hrenamed.trans (List.map_id _).symm)
  intro id hid
  by_cases hlt : id < bound
  · exact hold id hlt
  · exact hnew id (List.mem_range'_1.2 ⟨Nat.not_lt.1 hlt, hid⟩)

end Encounters

/-! ## The same form, the same numbers -/

namespace Canonicalizer

open Tables

namespace History

variable {fe : Frontend} {reporter reporter' : Reporter} {a b : Value} {first second : Labeled}
  {F : Form} {T U : Rose Nat}

/-- **Fresh canonicalizers number trees of the same form in the same way.** The labeled
trees are equal, the next ids are equal, and an id stands for the same in both, up to
leaves with the same key. -/
theorem same_numbering (ha : fe.form a = some (.ok F)) (hb : fe.form b = some (.ok F))
    (hfirst : (create fe reporter).label a = some first) (hT : first.result = .ok T)
    (hsecond : (create fe reporter').label b = some second) (hU : second.result = .ok U) :
    T = U ∧ first.canonicalizer.tables.nextId = second.canonicalizer.tables.nextId
      ∧ ∃ σ : Nat → Nat, ∀ id : Nat, Option.Rel (Representation.RenamedTo σ)
          first.canonicalizer.tables.representations[id]?
          second.canonicalizer.tables.representations[id]? := by
  have h : (create fe reporter).History [⟨a, first⟩] first.canonicalizer := .snoc .nil hfirst
  have h' : (create fe reporter').History [⟨b, second⟩] second.canonicalizer := .snoc .nil hsecond
  have hexact : first.canonicalizer.tables.HaveExactly (fe.formsIn [a]) :=
    h.haveExactly (List.forall_mem_singleton.2 ⟨T, hT⟩)
  have hexact' : second.canonicalizer.tables.HaveExactly (fe.formsIn [b]) :=
    h'.haveExactly (List.forall_mem_singleton.2 ⟨U, hU⟩)
  have hforms : fe.formsIn [b] = fe.formsIn [a] := by
    simp only [Frontend.formsIn, List.mem_singleton, exists_eq_left, ha, hb]
  rw [hforms] at hexact'
  obtain ⟨σ, hσ, htrees⟩ := hexact.exists_renaming (fe.closed_formsIn [a]) hexact'
  have hFT := h.treeOf?_of_form coherent_empty List.mem_cons_self ha hT
  have hFU := h'.treeOf?_of_form coherent_empty List.mem_cons_self hb hU
  have hoccurs : F ∈ fe.formsIn [a] := ⟨a, List.mem_cons_self, F, [], ha, rfl⟩
  obtain rfl : U = T.map σ := Option.some.inj (hFU.symm.trans (htrees F hoccurs T hFT))
  have hreserved : ∀ id, id < firstId → σ id = id := by
    intro id hid
    obtain ⟨m, rfl⟩ := Marker.exists_id_of_lt hid
    cases m with
    | absent => exact hσ.nullId_eq
    | listShape => exact hσ.listId_eq
  -- Both trees meet the ids from the first one on in order, so none is renamed.
  have hmet : Encountered firstId T.ids first.canonicalizer.tables.nextId :=
    History.nil.encountered hfirst hT
  have hmet' : Encountered firstId (T.map σ).ids second.canonicalizer.tables.nextId :=
    History.nil.encountered hsecond hU
  have hrenamed := hmet'.firstEncounters_eq
  rw [Rose.ids_map, ← hσ.nextId_eq] at hrenamed
  have hsame : ∀ id < first.canonicalizer.tables.nextId, σ id = id := by
    have hall := eq_of_firstEncounters σ.injective hreserved hmet.firstEncounters_eq hrenamed
    rwa [Nat.add_sub_cancel' hmet.le] at hall
  refine ⟨?_, hσ.nextId_eq, σ, fun id => ?_⟩
  · exact (Rose.map_eq_self fun id hid => hsame id (hmet.lt id hid)).symm
  · by_cases hid : id < first.canonicalizer.tables.nextId
    · have hrel := hσ.representations id
      rwa [hsame id hid] at hrel
    · have hle : first.canonicalizer.tables.nextId ≤ id := Nat.not_lt.1 hid
      rw [Array.getElem?_eq_none, Array.getElem?_eq_none]
      · exact .none
      · rwa [hexact'.coherent.size_representations, ← hσ.nextId_eq]
      · rwa [hexact.coherent.size_representations]

end History

end Canonicalizer

/-! ## The same classifiers -/

/-- **What ids stand for looks alike** to a classifier. -/
structure Representation.LooksLike (r r' : Representation) : Prop where
  isLeaf : r.isLeaf = r'.isLeaf
  leafText : ∀ v w, r = .leaf v → r' = .leaf w → v.leafText = w.leafText

namespace Tables

/-- **Ids that stand for the same up to leaves with the same key look alike**, if each of
these keys is that of a plain value. -/
theorem looksLike_of_renamedTo {t u : Tables} {σ : Nat → Nat}
    (h : ∀ id : Nat, Option.Rel (Representation.RenamedTo σ) t.representations[id]?
      u.representations[id]?)
    (hplain : ∀ (id : Nat) v, t.representations[id]? = some (.leaf v) →
      ∃ w : Value, w.Plain ∧ w.leafKey = v.leafKey) (id : Nat) :
    Option.Rel Representation.LooksLike t.representations[id]? u.representations[id]? := by
  have hid := h id
  have hleaf := hplain id
  generalize t.representations[id]? = r, u.representations[id]? = r' at hid hleaf ⊢
  cases hid with
  | none => exact .none
  | some hr =>
    cases hr with
    | marker m => exact .some ⟨rfl, by rintro _ _ ⟨⟩⟩
    | leaf hkey =>
      obtain ⟨w, hw, hkey'⟩ := hleaf _ rfl
      refine .some ⟨rfl, ?_⟩
      rintro _ _ ⟨⟩ ⟨⟩
      rw [← hw.leafText_eq hkey', hw.leafText_eq (hkey'.trans hkey)]
    | shape s => exact .some ⟨rfl, by rintro _ _ ⟨⟩⟩

section Classifiers

variable {t u : Tables} (hnext : t.nextId = u.nextId)
  (h : ∀ id : Nat, Option.Rel Representation.LooksLike t.representations[id]?
    u.representations[id]?)

include hnext h

/-- An id is unknown to both tables, or what it stands for looks alike. -/
theorem representation_looksLike (id : Value) :
    (∃ failure, t.representation id = .error failure ∧ u.representation id = .error failure)
      ∨ ∃ r r', t.representation id = .ok r ∧ u.representation id = .ok r' ∧ r.LooksLike r' := by
  have hunknown : t.unknownId id = u.unknownId id := by
    unfold unknownId
    rw [hnext]
  have hallocated : t.allocated id = u.allocated id := by
    unfold allocated
    rw [hnext, hunknown]
  unfold representation
  rw [hallocated, hunknown]
  cases u.allocated id with
  | error failure => exact .inl ⟨failure, rfl, rfl⟩
  | ok n =>
    have hn := h n
    simp only [bind, Except.bind]
    generalize t.representations[n]? = r, u.representations[n]? = r' at hn ⊢
    cases hn with
    | none => exact .inl ⟨_, rfl, rfl⟩
    | some hr => exact .inr ⟨_, _, rfl, rfl, hr⟩

/-- **Tables whose ids look alike classify ids in the same way.** -/
theorem classifier_eq : t.classifier = u.classifier := by
  have hisLeaf : ∀ id, t.isLeaf id = u.isLeaf id := by
    intro id
    unfold isLeaf
    rcases representation_looksLike hnext h id with ⟨failure, ht, hu⟩ | ⟨r, r', ht, hu, hr⟩
    · rw [ht, hu]
    · rw [ht, hu]
      exact congrArg Except.ok hr.isLeaf
  have hleafText : ∀ id, t.leafText id = u.leafText id := by
    intro id
    unfold leafText
    rcases representation_looksLike hnext h id with ⟨failure, ht, hu⟩ | ⟨r, r', ht, hu, hr⟩
    · rw [ht, hu]
    · rw [ht, hu]
      -- Only leaves have a text, and then both are leaves.
      have hboth := hr.isLeaf
      cases r <;> cases r' <;> simp [Representation.isLeaf] at hboth
      case leaf.leaf v w => exact hr.leafText v w rfl rfl
      all_goals rfl
  unfold classifier
  simp only [hisLeaf, hleafText]

end Classifiers

end Tables

end HashConsing
