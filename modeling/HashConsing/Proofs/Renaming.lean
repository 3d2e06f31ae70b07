import HashConsing.Proofs.Encounters
import Mathlib.Algebra.Group.End
import Mathlib.Data.Set.Card
import Mathlib.Order.Interval.Set.Nat

/-!
# Ids up to renaming

Which id a form gets depends on what was labeled before it, but nothing else does. After
labelings that have all succeeded the tables have exactly the forms that occur in the
trees that were labeled, one id each: `Canonicalizer.History.haveExactly`. What occurs in
these trees has got an id, and an id was handed out only for something that is met in the
labeled tree.

So the number of ids is the number of these forms (`Tables.HaveExactly.nextId_eq`), and
tables that have the same forms are the same up to a permutation of ids, which takes the
id of a form in the one to its id in the other (`Tables.HaveExactly.exists_renaming`).
-/

namespace HashConsing

/-! ## Forms that occur -/

/-- With a form there are the forms below it. -/
def Form.Closed (S : Set Form) : Prop := ∀ F ∈ S, ∀ G ∈ F.children, G ∈ S

/-- **The forms that occur in some trees**, at any position. -/
def Frontend.formsIn (fe : Frontend) (roots : List Value) : Set Form :=
  {G | ∃ root ∈ roots, ∃ F path, fe.form root = some (.ok F) ∧ F.at? path = some G}

theorem Frontend.closed_formsIn (fe : Frontend) (roots : List Value) :
    Form.Closed (fe.formsIn roots) := by
  rintro G ⟨root, hroot, F, path, hF, hG⟩ G' hG'
  obtain ⟨i, hi⟩ := List.getElem?_of_mem hG'
  refine ⟨root, hroot, F, path ++ [i], hF, ?_⟩
  rw [Form.at?_append, hG, Option.bind_some, Form.at?, hi]
  rfl

/-- The order of the trees and repetitions do not matter for what occurs in them. -/
theorem Frontend.formsIn_congr (fe : Frontend) {roots roots' : List Value}
    (h : ∀ root, root ∈ roots ↔ root ∈ roots') : fe.formsIn roots = fe.formsIn roots' := by
  unfold Frontend.formsIn
  simp only [h]

/-! ## Tables with the same forms -/

namespace Tables

variable {t u : Tables} {S : Set Form}

/-- The id of a form. -/
def formId (t : Tables) (F : Form) : Nat := ((t.treeOf? F).map Rose.value).getD nullId

theorem formId_eq {F : Form} {T : Rose Nat} (h : t.treeOf? F = some T) : t.formId F = T.value := by
  rw [formId, h]
  rfl

/-- **The tables have exactly some forms**: there are ids for all of them, and every id
was handed out for one of them. -/
structure HaveExactly (t : Tables) (S : Set Form) : Prop where
  coherent : t.Coherent
  exists_tree : ∀ F ∈ S, ∃ T, t.treeOf? F = some T
  exists_form : ∀ id, firstId ≤ id → id < t.nextId →
    ∃ F ∈ S, ∃ T, t.treeOf? F = some T ∧ T.value = id

namespace HaveExactly

variable (ht : t.HaveExactly S)

include ht

/-- **Forms and ids that were handed out are one to one**, apart from what is absent. -/
theorem bijOn_formId : Set.BijOn t.formId (S \ {.absent}) (Set.Ico firstId t.nextId) := by
  refine ⟨?_, ?_, ?_⟩
  · rintro F ⟨hF, hpresent⟩
    obtain ⟨T, hT⟩ := ht.exists_tree F hF
    rw [formId_eq hT]
    refine (ht.coherent.handedOutBefore_value hT).resolve_left fun hnull => hpresent ?_
    exact ht.coherent.form_unique (U := absentTree) hT rfl hnull
  · rintro F ⟨hF, -⟩ G ⟨hG, -⟩ hid
    obtain ⟨T, hT⟩ := ht.exists_tree F hF
    obtain ⟨U, hU⟩ := ht.exists_tree G hG
    rw [formId_eq hT, formId_eq hU] at hid
    exact ht.coherent.form_unique hT hU hid
  · rintro id ⟨hfirst, hnext⟩
    obtain ⟨F, hF, T, hT, rfl⟩ := ht.exists_form id hfirst hnext
    refine ⟨F, ⟨hF, ?_⟩, formId_eq hT⟩
    rintro rfl
    cases hT
    exact absurd hfirst (by decide)

theorem finite : (S \ {.absent}).Finite :=
  ht.bijOn_formId.finite_iff_finite.2 (Set.finite_Ico _ _)

/-- **There are as many ids as forms.** -/
theorem nextId_eq : t.nextId = firstId + (S \ {.absent}).ncard := by
  rw [ht.bijOn_formId.ncard_eq, Set.ncard_eq_toFinset_card', Set.toFinset_Ico, Nat.card_Ico,
    Nat.add_sub_cancel' ht.coherent.first_le]

end HaveExactly

end Tables

/-! ## Renaming -/

/-- **A tree with other values.** -/
def Rose.map {α β : Type} (f : α → β) : Rose α → Rose β
  | node a ts => node (f a) (ts.map (map f))

theorem Rose.map_node {α β : Type} (f : α → β) (a : α) (ts : List (Rose α)) :
    (node a ts).map f = node (f a) (ts.map (Rose.map f)) := by
  rw [map]

theorem Rose.value_map {α β : Type} (f : α → β) (T : Rose α) : (T.map f).value = f T.value := by
  obtain ⟨a, ts⟩ := T
  rw [map_node]
  rfl

/-- The values below the root of a tree with other values. -/
theorem Rose.map_value_children_map {α β : Type} (f : α → β) (T : Rose α) :
    (T.map f).children.map value = (T.children.map value).map f := by
  obtain ⟨a, ts⟩ := T
  rw [map_node, children, children, List.map_map, List.map_map]
  exact List.map_congr_left fun t _ => value_map f t

/-- A shape over other ids. -/
def Shape.rename (σ : Nat → Nat) : Shape → Shape
  | list cs => list (cs.map σ)
  | node kind cs => node kind (cs.map σ)

theorem Shape.rename_injective {σ : Nat → Nat} (hσ : Function.Injective σ) :
    Function.Injective (Shape.rename σ) := by
  intro s s' h
  cases s <;> cases s' <;> simp_all [Shape.rename, (List.map_injective_iff.2 hσ).eq_iff]

/-- **What ids stand for is the same up to a renaming**: the same mark, leaves with the
same key, or the same shape over the renamed ids. -/
inductive Representation.RenamedTo (σ : Nat → Nat) : Representation → Representation → Prop where
  | marker (m : Marker) : RenamedTo σ (.marker m) (.marker m)
  | leaf {v w : Value} (hkey : v.leafKey = w.leafKey) : RenamedTo σ (.leaf v) (.leaf w)
  | shape (s : Shape) : RenamedTo σ (.shape s) (.shape (s.rename σ))

namespace Tables

/-- **Tables are the same up to a renaming of ids**, which leaves the reserved ids alone:
there are as many ids, what an id stands for and its kind name are those of the renamed
id, and so are the keys and shapes that ids are looked up by. -/
structure RenamedTo (σ : Equiv.Perm Nat) (t u : Tables) : Prop where
  nullId_eq : σ nullId = nullId
  listId_eq : σ listId = listId
  nextId_eq : t.nextId = u.nextId
  representations : ∀ id,
    Option.Rel (Representation.RenamedTo σ) t.representations[id]? u.representations[σ id]?
  kindNames : ∀ id, t.kindNames[id]? = u.kindNames[σ id]?
  leafId?_iff : ∀ key id, t.leafId? key = some id ↔ u.leafId? key = some (σ id)
  shapeId?_iff : ∀ s id, t.shapeId? s = some id ↔ u.shapeId? (s.rename σ) = some (σ id)

section Renaming

variable {t u : Tables} {S : Set Form} {σ : Nat → Nat}

/-- Ids that stand for the same form, over renamed ids of the forms below, stand for the
same up to the renaming. -/
theorem StandsFor.renamedTo {F : Form} {cs : List Nat} {id id' : Nat} (ht : t.StandsFor F cs id)
    (hu : u.StandsFor F (cs.map σ) id') :
    Option.Rel (Representation.RenamedTo σ) t.representations[id]? u.representations[id']? := by
  cases F with
  | absent =>
    rw [ht.2, hu.2]
    exact .some (.marker _)
  | leaf key =>
    obtain ⟨-, v, hv, hkey⟩ := ht
    obtain ⟨-, w, hw, hkey'⟩ := hu
    rw [hv, hw]
    exact .some (.leaf (hkey.trans hkey'.symm))
  | list items =>
    rw [show t.representations[id]? = _ from ht, show u.representations[id']? = _ from hu]
    exact .some (.shape (.list cs))
  | node kind properties =>
    rw [show t.representations[id]? = _ from ht, show u.representations[id']? = _ from hu]
    exact .some (.shape (.node kind cs))

variable (t u S σ) in
/-- **The ids of some forms are renamed.** -/
def RenamesIds : Prop :=
  ∀ F ∈ S, ∀ T U, t.treeOf? F = some T → u.treeOf? F = some U → U.value = σ T.value

mutual

/-- **If the ids of forms are renamed, so are their labeled trees.** -/
theorem RenamesIds.treeOf? (h : t.RenamesIds u S σ) (hS : Form.Closed S) :
    ∀ {T U : Rose Nat} {F : Form}, F ∈ S →
    t.treeOf? F = some T → u.treeOf? F = some U → U = T.map σ
  | .node id Ts, .node id' Us, F, hF, hT, hU => by
    obtain rfl : id' = σ id := h F hF _ _ hT hU
    have hbelow : Us = Ts.map (Rose.map σ) :=
      h.treesOf? hS (hS F hF) (children_of_treeOf? hT) (children_of_treeOf? hU)
    rw [Rose.map_node, hbelow]

theorem RenamesIds.treesOf? (h : t.RenamesIds u S σ) (hS : Form.Closed S) :
    ∀ {Ts Us : List (Rose Nat)} {Fs : List Form}, (∀ F ∈ Fs, F ∈ S) →
    List.Forall₂ (fun T F => t.treeOf? F = some T) Ts Fs →
    List.Forall₂ (fun U F => u.treeOf? F = some U) Us Fs → Us = Ts.map (Rose.map σ)
  | [], _, _, _, .nil, hUs => List.forall₂_nil_right_iff.1 hUs
  | T :: Ts, _, _, hFs, .cons hT hTs, hall => by
    obtain ⟨hF, hFs⟩ := List.forall_mem_cons.1 hFs
    obtain ⟨U, Us, hU, hUs, rfl⟩ := List.forall₂_cons_right_iff.1 hall
    have hrest : Us = Ts.map (Rose.map σ) := h.treesOf? hS hFs hTs hUs
    rw [List.map_cons, h.treeOf? hS hF hT hU, hrest]

end

/-- **Coherent tables are the same up to a renaming** if what the ids stand for is. -/
theorem Coherent.renamedTo {σ : Equiv.Perm Nat} (ht : t.Coherent) (hu : u.Coherent)
    (hnull : σ nullId = nullId) (hlist : σ listId = listId) (hnext : t.nextId = u.nextId)
    (h : ∀ id, Option.Rel (Representation.RenamedTo σ) t.representations[id]?
      u.representations[σ id]?) : t.RenamedTo σ u where
  nullId_eq := hnull
  listId_eq := hlist
  nextId_eq := hnext
  representations := h
  kindNames id := by
    rw [ht.kindName_eq, hu.kindName_eq]
    have hid := h id
    generalize t.representations[id]? = r, u.representations[σ id]? = r' at hid ⊢
    cases hid with
    | none => rfl
    | some hid =>
      cases hid with
      | marker m => rfl
      | leaf hkey => rfl
      | shape s => cases s <;> rfl
  leafId?_iff key id := by
    rw [ht.leafId?_iff, hu.leafId?_iff]
    have hid := h id
    generalize t.representations[id]? = r, u.representations[σ id]? = r' at hid ⊢
    cases hid with
    | none => simp
    | some hid => cases hid <;> simp_all
  shapeId?_iff s id := by
    rw [ht.shapeId?_iff, hu.shapeId?_iff]
    have hid := h id
    generalize t.representations[id]? = r, u.representations[σ id]? = r' at hid ⊢
    cases hid with
    | none => simp
    | some hid => cases hid <;> simp [(Shape.rename_injective σ.injective).eq_iff]

end Renaming

/-- Numberings of the same things with the same numbers differ by a permutation, which
leaves other numbers alone. -/
theorem exists_perm_of_bijOn {α : Type} {f g : α → Nat} {S : Set α} {I : Set Nat}
    (hf : Set.BijOn f S I) (hg : Set.BijOn g S I) :
    ∃ σ : Equiv.Perm Nat, (∀ n ∉ I, σ n = n) ∧ ∀ a ∈ S, σ (f a) = g a := by
  classical
  let e : Equiv.Perm I := (hf.equiv f).symm.trans (hg.equiv g)
  refine ⟨.ofSubtype e, fun n hn => Equiv.Perm.ofSubtype_apply_of_not_mem e hn, fun a ha => ?_⟩
  have hback : (hf.equiv f).symm ⟨f a, hf.mapsTo ha⟩ = ⟨a, ha⟩ :=
    (Equiv.symm_apply_eq _).2 rfl
  rw [Equiv.Perm.ofSubtype_apply_of_mem e (hf.mapsTo ha)]
  exact congrArg (fun b => (hg.equiv g b).1) hback

/-- **Tables with the same forms are the same up to a renaming**, which renames the
labeled trees of these forms as well. -/
theorem HaveExactly.exists_renaming {t u : Tables} {S : Set Form} (hS : Form.Closed S)
    (ht : t.HaveExactly S) (hu : u.HaveExactly S) :
    ∃ σ : Equiv.Perm Nat, t.RenamedTo σ u ∧
      ∀ F ∈ S, ∀ T, t.treeOf? F = some T → u.treeOf? F = some (T.map σ) := by
  have hnext : t.nextId = u.nextId := ht.nextId_eq.trans hu.nextId_eq.symm
  have hbij := hu.bijOn_formId
  rw [← hnext] at hbij
  obtain ⟨σ, hfix, hform⟩ := exists_perm_of_bijOn ht.bijOn_formId hbij
  have hreserved : ∀ id < firstId, σ id = id := fun id hid =>
    hfix id fun hmem => absurd hmem.1 (Nat.not_le.2 hid)
  have hids : t.RenamesIds u S σ := by
    intro F hF T U hT hU
    by_cases habsent : F = .absent
    · subst habsent
      cases hT
      cases hU
      exact (hreserved nullId (by decide)).symm
    · rw [← formId_eq hT, ← formId_eq hU, hform F ⟨hF, habsent⟩]
  have htrees : ∀ F ∈ S, ∀ T, t.treeOf? F = some T → u.treeOf? F = some (T.map σ) := by
    intro F hF T hT
    obtain ⟨U, hU⟩ := hu.exists_tree F hF
    rw [hU, hids.treeOf? hS hF hT hU]
  refine ⟨σ, ht.coherent.renamedTo hu.coherent (hreserved _ (by decide)) (hreserved _ (by decide))
    hnext fun id => ?_, htrees⟩
  -- An id is reserved, was handed out for a form, or has not been handed out.
  by_cases hfirst : firstId ≤ id
  · by_cases hlt : id < t.nextId
    · obtain ⟨F, hF, T, hT, rfl⟩ := ht.exists_form id hfirst hlt
      have hstands := hu.coherent.standsFor (htrees F hF T hT)
      rw [Rose.map_value_children_map, Rose.value_map] at hstands
      exact (ht.coherent.standsFor hT).renamedTo hstands
    · have hge : t.nextId ≤ id := Nat.not_lt.1 hlt
      rw [hfix id fun hmem => hlt hmem.2, Array.getElem?_eq_none, Array.getElem?_eq_none]
      · exact .none
      · rwa [hu.coherent.size_representations, ← hnext]
      · rwa [ht.coherent.size_representations]
  · have hlt : id < firstId := Nat.not_le.1 hfirst
    obtain ⟨m, rfl⟩ := Marker.exists_id_of_lt hlt
    rw [hreserved _ hlt, ht.coherent.marker_iff.2 rfl, hu.coherent.marker_iff.2 rfl]
    exact .some (.marker m)

end Tables

/-! ## Histories -/

namespace Canonicalizer

open Tables

namespace History

variable {start : Canonicalizer} {calls : List Call} {c : Canonicalizer}

/-- A labeling of a history, and the history before it. -/
theorem exists_call (h : start.History calls c) {call : Call} (hcall : call ∈ calls) :
    ∃ before d, start.History before d ∧ d.label call.root = some call.labeled := by
  induction h with
  | nil => cases hcall
  | @snoc calls c root labeled before last ih =>
    rcases List.mem_append.1 hcall with hold | hnew
    · exact ih hold
    · obtain rfl := List.mem_singleton.1 hnew
      exact ⟨calls, c, before, last⟩

/-- **Whatever has a form is labeled with success.** -/
theorem exists_ok (hs : start.tables.Coherent) (h : start.History calls c) {call : Call}
    (hcall : call ∈ calls) {F : Form} (hF : start.frontend.form call.root = some (.ok F)) :
    ∃ T, call.labeled.result = .ok T := by
  obtain ⟨before, d, hd, hlabel⟩ := h.exists_call hcall
  obtain ⟨labeled, hlabeled, hencodes⟩ := hd.exists_label hs hF
  obtain rfl := Option.some.inj (hlabel.symm.trans hlabeled)
  obtain ⟨T, hT, -⟩ := hencodes.exists_ok
  exact ⟨T, hT⟩

/-- Histories of trees that have forms have succeeded throughout. -/
theorem all_ok (hs : start.tables.Coherent) (h : start.History calls c)
    (hforms : ∀ root ∈ calls.map Call.root, ∃ F, start.frontend.form root = some (.ok F)) :
    ∀ call ∈ calls, ∃ T, call.labeled.result = .ok T := by
  intro call hcall
  obtain ⟨F, hF⟩ := hforms call.root (List.mem_map_of_mem hcall)
  exact h.exists_ok hs hcall hF

/-- Trees that were labeled with success have forms. -/
theorem all_forms (hs : start.tables.Coherent) (h : start.History calls c)
    (hok : ∀ call ∈ calls, ∃ T, call.labeled.result = .ok T) :
    ∀ root ∈ calls.map Call.root, ∃ F, start.frontend.form root = some (.ok F) := by
  intro root hroot
  obtain ⟨call, hcall, rfl⟩ := List.mem_map.1 hroot
  obtain ⟨T, hT⟩ := hok call hcall
  obtain ⟨F, hF, -⟩ := h.treeOf? hs hcall hT
  exact ⟨F, hF⟩

/-- Trees that have forms can be labeled one after the other. -/
theorem exists_of_forms (hs : start.tables.Coherent) {roots : List Value}
    (hroots : ∀ root ∈ roots, ∃ F, start.frontend.form root = some (.ok F)) :
    ∃ calls c, start.History calls c ∧ calls.map Call.root = roots := by
  induction roots using List.reverseRecOn with
  | nil => exact ⟨[], start, .nil, rfl⟩
  | append_singleton roots root ih =>
    obtain ⟨calls, c, h, hcalls⟩ := ih fun r hr => hroots r (List.mem_append_left _ hr)
    obtain ⟨F, hF⟩ := hroots root (List.mem_append_right _ List.mem_cons_self)
    obtain ⟨labeled, h, -⟩ := h.exists_snoc hs hF
    exact ⟨_, _, h, by rw [List.map_append, hcalls, List.map_singleton]⟩

variable {fe : Frontend} {reporter : Reporter}

/-- **After labelings that have all succeeded the tables have exactly the forms that
occur.** -/
theorem haveExactly (h : (create fe reporter).History calls c)
    (hok : ∀ call ∈ calls, ∃ T, call.labeled.result = .ok T) :
    c.tables.HaveExactly (fe.formsIn (calls.map Call.root)) where
  coherent := h.coherent coherent_empty
  exists_tree := by
    rintro G ⟨root, hroot, F, path, hF, hG⟩
    obtain ⟨call, hcall, rfl⟩ := List.mem_map.1 hroot
    obtain ⟨T, hT⟩ := hok call hcall
    have hFT := h.treeOf?_of_form coherent_empty hcall hF hT
    obtain ⟨U, -, hU⟩ := exists_tree_at? hFT hG
    exact ⟨U, hU⟩
  exists_form id hfirst hnext := by
    -- The id was handed out in one of the labelings, so it is met in the tree it gave.
    obtain ⟨before, call, after, d, rfl, hd, hlabel, hle, hlt⟩ := h.handedOutIn hfirst hnext
    have hcall : call ∈ before ++ call :: after :=
      List.mem_append_right _ List.mem_cons_self
    obtain ⟨T, hT⟩ := hok call hcall
    have hid : id ∈ T.ids := (hd.encountered hlabel hT).mem_of_le hle hlt
    obtain ⟨path, U, hU, rfl⟩ := Rose.exists_at?_of_mem_ids hid
    obtain ⟨F, hF, hFT⟩ := h.treeOf? coherent_empty hcall hT
    obtain ⟨G, hG, hGU⟩ := at?_of_treeOf? hFT hU
    exact ⟨G, ⟨call.root, List.mem_map_of_mem hcall, F, path, hF, hG⟩, U, hGU, rfl⟩

/-- **Labelings of the same trees come to the same up to a renaming**, in whatever order
and however often the trees are labeled. -/
theorem exists_renaming (h : (create fe reporter).History calls c)
    (hok : ∀ call ∈ calls, ∃ T, call.labeled.result = .ok T) {reporter' : Reporter}
    {calls' : List Call} {c' : Canonicalizer} (h' : (create fe reporter').History calls' c')
    (hok' : ∀ call' ∈ calls', ∃ T, call'.labeled.result = .ok T)
    (hroots : ∀ root, root ∈ calls'.map Call.root ↔ root ∈ calls.map Call.root) :
    ∃ σ : Equiv.Perm Nat, c.tables.RenamedTo σ c'.tables
      ∧ ∀ call ∈ calls, ∀ call' ∈ calls', call'.root = call.root →
        ∀ T, call.labeled.result = .ok T → call'.labeled.result = .ok (T.map σ) := by
  have hexact' := h'.haveExactly hok'
  rw [fe.formsIn_congr hroots] at hexact'
  obtain ⟨σ, hσ, htrees⟩ := (h.haveExactly hok).exists_renaming (fe.closed_formsIn _) hexact'
  refine ⟨σ, hσ, fun call hcall call' hcall' hroot T hT => ?_⟩
  obtain ⟨F, hF, hFT⟩ := h.treeOf? coherent_empty hcall hT
  obtain ⟨T', hT'⟩ := hok' call' hcall'
  have hFT' := h'.treeOf?_of_form coherent_empty hcall' (hroot ▸ hF) hT'
  have hoccurs : F ∈ fe.formsIn (calls.map Call.root) :=
    ⟨call.root, List.mem_map_of_mem hcall, F, [], hF, rfl⟩
  rw [hT', Option.some.inj (hFT'.symm.trans (htrees F hoccurs T hFT))]

/-- **Ids are as few as can be and depend on the order of labelings only up to
renaming.** If some trees have all been labeled with success, the ids that were handed
out are as many as the forms that occur in the trees, apart from what is absent. The same
trees can be labeled in any other order, and any number of times each: all labelings
succeed, the next id is the same in the end, and a permutation of ids that leaves the
reserved ids alone takes what the one tables know to what the others know, and every
labeled tree to that of the same tree. -/
theorem same_up_to_renaming (h : (create fe reporter).History calls c)
    (hok : ∀ call ∈ calls, ∃ T, call.labeled.result = .ok T) :
    (fe.formsIn (calls.map Call.root) \ {.absent}).Finite
    ∧ c.tables.nextId = firstId + (fe.formsIn (calls.map Call.root) \ {.absent}).ncard
    ∧ ∀ (reporter' : Reporter) (roots : List Value),
      (∀ root, root ∈ roots ↔ root ∈ calls.map Call.root) →
      (∃ calls' c', (create fe reporter').History calls' c' ∧ calls'.map Call.root = roots)
      ∧ ∀ calls' c', (create fe reporter').History calls' c' → calls'.map Call.root = roots →
        (∀ call' ∈ calls', ∃ T, call'.labeled.result = .ok T)
        ∧ c'.tables.nextId = c.tables.nextId
        ∧ ∃ σ : Equiv.Perm Nat, c.tables.RenamedTo σ c'.tables
          ∧ ∀ call ∈ calls, ∀ call' ∈ calls', call'.root = call.root →
            ∀ T, call.labeled.result = .ok T → call'.labeled.result = .ok (T.map σ) := by
  have hexact := h.haveExactly hok
  refine ⟨hexact.finite, hexact.nextId_eq, fun reporter' roots hroots => ?_⟩
  have hforms : ∀ root ∈ roots, ∃ F, fe.form root = some (.ok F) := by
    intro root hroot
    obtain ⟨call, hcall, rfl⟩ := List.mem_map.1 ((hroots root).1 hroot)
    obtain ⟨T, hT⟩ := hok call hcall
    obtain ⟨F, hF, -⟩ := h.treeOf? coherent_empty hcall hT
    exact ⟨F, hF⟩
  refine ⟨exists_of_forms coherent_empty hforms, ?_⟩
  rintro calls' c' h' rfl
  have hok' : ∀ call' ∈ calls', ∃ T, call'.labeled.result = .ok T := by
    intro call' hcall'
    obtain ⟨F, hF⟩ := hforms _ (List.mem_map_of_mem hcall')
    exact h'.exists_ok coherent_empty hcall' hF
  obtain ⟨σ, hσ, htrees⟩ := h.exists_renaming hok h' hok' hroots
  exact ⟨hok', hσ.nextId_eq.symm, σ, hσ, htrees⟩

/-- A name and then a block, and the block, the name and the block again. -/
theorem same_up_to_renaming_blocks :
    let name : Value := .name 4 "y"
    let block : Value := .block 0 [.name 1 "x", .null, .name 2 "x"]
    ∃ calls c calls' c', (create Dialect.blocks.frontend {}).History calls c
      ∧ (create Dialect.blocks.frontend {}).History calls' c'
      ∧ calls.map Call.root = [name, block] ∧ calls'.map Call.root = [block, name, block]
      ∧ (∀ call ∈ calls, ∃ T, call.labeled.result = .ok T)
      ∧ c.tables.nextId
          = firstId + (Dialect.blocks.frontend.formsIn [name, block] \ {.absent}).ncard
      ∧ c'.tables.nextId = c.tables.nextId
      ∧ ∃ σ : Equiv.Perm Nat, c.tables.RenamedTo σ c'.tables := by
  intro name block
  have hforms : ∀ root ∈ [name, block], ∃ F, Dialect.blocks.frontend.form root = some (.ok F) := by
    simp only [List.forall_mem_cons, List.not_mem_nil, false_implies, implies_true, and_true]
    exact ⟨⟨_, form_name 4 "y"⟩, _, form_names⟩
  obtain ⟨calls, c, h, hroots⟩ : ∃ calls c, (create Dialect.blocks.frontend {}).History calls c
      ∧ calls.map Call.root = [name, block] := exists_of_forms coherent_empty hforms
  have hok : ∀ call ∈ calls, ∃ T, call.labeled.result = .ok T := by
    intro call hcall
    obtain ⟨F, hF⟩ := hforms call.root (hroots ▸ List.mem_map_of_mem hcall)
    exact h.exists_ok coherent_empty hcall hF
  obtain ⟨-, hnext, hsame⟩ := h.same_up_to_renaming hok
  obtain ⟨⟨calls', c', h', hroots'⟩, hall⟩ := hsame {} [block, name, block] (by simp [hroots])
  obtain ⟨-, hnext', σ, hσ, -⟩ := hall calls' c' h' hroots'
  rw [hroots] at hnext
  exact ⟨calls, c, calls', c', h, h', hroots, hroots', hok, hnext, hnext', σ, hσ⟩

end History

end Canonicalizer

end HashConsing
