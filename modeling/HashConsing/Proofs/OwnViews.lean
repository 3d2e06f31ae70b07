import HashConsing.Proofs.Answers
import HashConsing.Proofs.LeftAlone
import HashConsing.Proofs.OwnRenderings

/-!
# Numbers read off own trees

A tree that was handed out can be read as numbers: the ids of its nodes, children first, and the
size of what a label stands for. While the tree is left alone these numbers say the same as the
tables, whatever has been labeled in the meantime. Each id stands for something in the tables, and
the mask of leaves has it for a leaf exactly where a leaf was labeled (`Forest.Entry`).

The size of a label is that of the first node with the label. Any other node would do as well, also
one in another tree, since equal ids are the roots of equal trees
(`Canonicalizer.History.eq_of_label`). Put together, this is `Canonicalizer.History.own_views`.
-/

namespace HashConsing

/-! ## Entries -/

namespace Forest

variable {f : Forest} {r : Ref}

/-- **What is at a position below a node** is what stands there in its tree. -/
theorem Unfolds.at?_eq {path : List Nat} : ∀ {r : Ref} {t : Rose Ref}, f.Unfolds r t →
    f.at? r path = (t.at? path).map Rose.value := by
  induction path with
  | nil => exact fun h => congrArg some h.root.symm
  | cons i path ih =>
    intro r t h
    rw [Forest.at?, Rose.at?, ← h.map_value_children, List.getElem?_map]
    cases hchild : t.children[i]? with
    | none => rfl
    | some u => exact ih (h.child (List.mem_of_getElem? hchild))

/-- **A number is read off a node** in the tree of a root: it is the id of the node, and it has been
handed out, unless it says that nothing is there. The tables have it for the id of a leaf exactly if
the node is where leaves are. -/
structure Entry (f : Forest) (t : Tables) (root : Ref) (leafAt : List Nat → Prop) (q : Ref)
    (id : Nat) : Prop where
  id_eq : f.id q = .ok (id : Int)
  handedOut : HandedOutBefore t.nextId id
  exists_at? : ∃ path, f.at? root path = some q
  leaf : ∀ path, f.at? root path = some q →
    ∃ leaf, t.leafMask[id]? = some leaf ∧ (leaf = true ↔ leafAt path)

/-- **A tree was handed out at a node, and has been left alone since.** -/
def LeftAlone (g : Forest) (T : Rose Nat) (r : Ref) : Prop :=
  ∃ f : Forest, (f.plantIds T).1 = r ∧ (f.plantIds T).2.Spares r g

/-- What has been left alone is as it was handed out. -/
theorem LeftAlone.exists_intact {T : Rose Nat} (h : f.LeftAlone T r) :
    ∃ t, t.value = r ∧ f.Intact T t := by
  obtain ⟨before, rfl, hspares⟩ := h
  obtain ⟨t, hroot, hintact⟩ := exists_intact_plantIds before T
  exact ⟨t, hroot, hintact.spared (hroot.symm ▸ hspares)⟩

end Forest

namespace Tables.Coherent

open Forest

variable {t : Tables} {T : Rose Nat} {F : Form} (h : t.Coherent) (hF : t.treeOf? F = some T)

include h hF

/-- **The mask of leaves tells the leaves of own trees.** -/
theorem leafMask_value : t.leafMask[T.value]? = some F.isLeaf := by
  have hnamed : t.Names (.int T.value) T.value := ⟨.inl rfl, h.value_lt hF⟩
  obtain ⟨r, hr⟩ := h.exists_representation.2 hnamed.2
  have hleaf := (isLeaf_eq hnamed hr).symm.trans (h.isLeaf_value hF)
  rw [leafMask_eq hr, Except.ok.inj hleaf]

variable {f : Forest} {u : Rose Ref} (hwords : t.nextId ≤ 2 ^ 63) (hu : f.Intact T u)

include hwords hu

/-- **Every number that is written on a node of an own tree is read off it.** -/
theorem entry {path : List Nat} {v : Rose Ref} (hv : u.at? path = some v) {V : Rose Nat}
    (hlabel : f.label v.value = V.label) :
    f.Entry t u.value (fun path => ∃ key, F.at? path = some (.leaf key)) v.value V.value := by
  -- The node may be at other positions, too, but it has one label.
  have hat : ∀ {path : List Nat} {w : Rose Ref}, u.at? path = some w → w.value = v.value →
      ∃ U G, U.value = V.value ∧ F.at? path = some G ∧ t.treeOf? G = some U := by
    intro path w hw hsame
    obtain ⟨U, hU, hintact⟩ := hu.exists_tree hw
    obtain ⟨G, hG, hGU⟩ := at?_of_treeOf? hF hU
    have hlabels : U.label = V.label := by
      rw [← hlabel, ← hsame]
      exact hintact.label_eq.symm
    exact ⟨U, G, Rose.label_inj.1 hlabels, hG, hGU⟩
  obtain ⟨U, G, hvalue, -, hGU⟩ := hat hv rfl
  have hhanded : HandedOutBefore t.nextId V.value := hvalue ▸ h.handedOutBefore_value hGU
  have hlt : V.value < 2 ^ 63 := Nat.lt_of_lt_of_le (hvalue ▸ h.value_lt hGU) hwords
  have hpath : f.at? u.value path = some v.value := by
    rw [hu.unfolds.at?_eq, hv, Option.map_some]
  refine ⟨id_of_label hlabel hlt, hhanded, ⟨path, hpath⟩, fun path hpath => ?_⟩
  rw [hu.unfolds.at?_eq] at hpath
  obtain ⟨w, hw, hsame⟩ := Option.map_eq_some_iff.1 hpath
  obtain ⟨W, H, hvalue, hH, hHW⟩ := hat hw hsame
  refine ⟨H.isLeaf, hvalue ▸ h.leafMask_value hHW, ?_⟩
  rw [Form.isLeaf_iff, hH]
  exact exists_congr fun key => (Option.some_inj).symm

/-- **The ids of an own tree are read off its nodes**, one for each. -/
theorem entries : List.Forall₂
    (f.Entry t u.value fun path => ∃ key, F.at? path = some (.leaf key))
    (f.postorder u.value) T.ids := by
  rw [hu.unfolds.postorder_eq, Rose.ids, List.forall₂_map_left_iff, List.forall₂_map_right_iff]
  have hpositions : ∀ v ∈ u.postorder, ∃ path, u.at? path = some v :=
    fun v hv => Rose.exists_at?_of_mem_postorder hv
  refine ((List.forall₂_and_left _ _).2 ⟨hpositions, hu.postorder⟩).imp ?_
  rintro v U ⟨⟨path, hv⟩, hintact⟩
  exact h.entry hF hwords hu hv hintact.label_eq

end Tables.Coherent

/-! ## Own trees in numbers -/

namespace Canonicalizer

open Tables Forest

namespace History

variable {fe : Frontend} {reporter : Reporter} {calls : List Call} {c : Canonicalizer}

/-- **Equal ids are the roots of equal trees**, whichever labelings gave them out. -/
theorem eq_of_label (h : (create fe reporter).History calls c) {call call' : Call}
    (hcall : call ∈ calls) (hcall' : call' ∈ calls) {U U' : Rose Nat} (hU : call.Gave U)
    (hU' : call'.Gave U') (hlabel : U.label = U'.label) : U = U' := by
  obtain ⟨G, hG⟩ := h.treeOf?_of_gave hcall hU
  obtain ⟨G', hG'⟩ := h.treeOf?_of_gave hcall' hU'
  obtain rfl := (h.coherent coherent_empty).form_unique hG hG' (Rose.label_inj.1 hlabel)
  exact Option.some.inj (hG.symm.trans hG')

/-- **Numbers read off own trees.** Take a tree that was labeled with success, handed out and left
alone since, in some later state of the canonicalizer in which ids are words.

The ids of the tree can be read off it, children first, and there are as many as the tree has nodes.
Each one is that of the node it was read off, stands for nothing but what is absent or was handed
out, and is a leaf in the mask exactly where a leaf was labeled. What a label has for a size is
nothing if no node has the label, and otherwise it is the size of every node with the label, in this
tree and in all others that were labeled, handed out and left alone. -/
theorem own_views (h : (create fe reporter).History calls c) (hwords : c.tables.nextId ≤ 2 ^ 63)
    {call : Call} (hcall : call ∈ calls) {T : Rose Nat} (hT : call.labeled.result = .ok T)
    {g : Forest} {r : Ref} (hr : g.LeftAlone T r) :
    (g.postOrderIds r).1 = .ok (T.ids.map Int.ofNat)
    ∧ T.ids.length = (g.size r).1
    ∧ List.Forall₂
      (g.Entry c.tables r fun path => ∃ v, fe.Reaches call.root path (.leaf v))
      (g.postorder r) T.ids
    ∧ ∀ label,
      ((g.sizeOfLabel r label).1 = 0 ↔ ∀ q, g.Reaches r q → g.label q ≠ label)
      ∧ ((∃ q, g.Reaches r q ∧ g.label q = label) →
        ∀ call' ∈ calls, ∀ T' r', call'.labeled.result = .ok T' → g.LeftAlone T' r' →
          ∀ q, g.Reaches r' q → g.label q = label →
            (g.size q).1 = (g.sizeOfLabel r label).1) := by
  have hc : c.tables.Coherent := h.coherent coherent_empty
  obtain ⟨F, hF, hFT⟩ := h.treeOf? coherent_empty hcall hT
  obtain ⟨t, rfl, ht⟩ := hr.exists_intact
  refine ⟨?_, ?_, ?_, fun label => ⟨ht.sizeOfLabel_eq_zero_iff, ?_⟩⟩
  · exact ht.postOrderIds fun id hid => Nat.lt_of_lt_of_le (hc.lt_of_mem_ids hFT hid) hwords
  · rw [Rose.ids, List.length_map, T.length_postorder, ht.size]
  · have hroot : F.at? [] = some F := rfl
    have hleaves : (fun path => ∃ v, fe.Reaches call.root path (.leaf v))
        = fun path => ∃ key, F.at? path = some (.leaf key) :=
      funext fun path => propext (exists_reaches_iff hF hroot)
    rw [hleaves]
    exact hc.entries hFT hwords ht
  · rintro ⟨q₀, hq₀, hlabel₀⟩ call' hcall' T' r' hT' hr' q hq hlabel
    obtain ⟨t', rfl, ht'⟩ := hr'.exists_intact
    obtain ⟨path', U', hU', hlabel', hsize'⟩ := ht'.exists_of_reaches hq
    rcases ht.sizeOfLabel_cases label with ⟨-, hnot⟩ | ⟨path, U, hU, hUlabel, hsize⟩
    · exact absurd hlabel₀ (hnot q₀ hq₀)
    · -- The first node with the label and the other one stand for the same tree.
      have hlabels : U.label = U'.label := hUlabel.trans (hlabel.symm.trans hlabel')
      have hsame : U = U' := h.eq_of_label hcall hcall' ⟨T, path, hT, hU⟩ ⟨T', path', hT', hU'⟩
        hlabels
      rw [hsize, hsize', hsame]

/-- A block is labeled and handed out twice, and the nodes are numbered the first time. The second
name in the block has the size that its label has anywhere. -/
theorem own_views_block :
    ∃ labeled T, (create Dialect.blocks.frontend {}).History
        [⟨.block 0 [.name 1 "x", .null, .name 2 "x"], labeled⟩] labeled.canonicalizer
      ∧ labeled.result = .ok T
      ∧ let first := Forest.empty.plantIds T
        let second := first.2.plantIds T
        let g := (second.2.number first.1 5).2
        (g.postOrderIds first.1).1 = .ok (T.ids.map Int.ofNat)
        ∧ ∃ q, g.at? second.1 [0, 2] = some q
          ∧ (g.size q).1 = (g.sizeOfLabel first.1 (g.label q)).1 := by
  obtain ⟨labeled, T, h, hT, hFT, hnext⟩ := exists_labeled {} form_names
  have hwords : labeled.canonicalizer.tables.nextId ≤ 2 ^ 63 := by
    refine Nat.le_trans hnext ?_
    simp only [firstId, Form.size, List.map_cons, List.map_nil, List.sum_cons, List.sum_nil]
    decide
  refine ⟨labeled, T, h, hT, ?_⟩
  intro first second g
  -- Neither tree is harmed when the nodes of the first one are numbered.
  have hspares : first.2.Spares first.1 second.2 := Spares.refl.plantIds T
  obtain ⟨t, hroot, ht⟩ := exists_intact_plantIds .empty T
  have hacyclic : second.2.Acyclic first.1 :=
    acyclic_iff.2 ⟨t, hroot ▸ (ht.spared (hroot ▸ hspares)).unfolds⟩
  have hnumber : ∀ {f : Forest} {r : Ref}, f.Spares r second.2 → f.Spares r g := fun hbefore =>
    hbefore.use (.number first.1 5) (List.forall_mem_singleton.2 hacyclic) (by rintro _ _ ⟨⟩)
  have hr : g.LeftAlone T first.1 := ⟨.empty, rfl, hnumber hspares⟩
  have hr' : g.LeftAlone T second.1 := ⟨first.2, rfl, hnumber .refl⟩
  obtain ⟨hids, -, -, hsizes⟩ := h.own_views hwords List.mem_cons_self hT hr
  -- The second name in the block is found below both roots.
  obtain ⟨U, hU, -⟩ : ∃ U, T.at? [0, 2] = some U ∧ _ := exists_tree_at? hFT rfl
  obtain ⟨t, hroot, ht⟩ := hr.exists_intact
  obtain ⟨t', hroot', ht'⟩ := hr'.exists_intact
  obtain ⟨u, hu, hintact⟩ := ht.exists_node hU
  obtain ⟨u', hu', hintact'⟩ := ht'.exists_node hU
  have hat : g.at? second.1 [0, 2] = some u'.value := by
    rw [← hroot', ht'.unfolds.at?_eq, hu', Option.map_some]
  have hlabel : g.label u.value = g.label u'.value :=
    hintact.label_eq.trans hintact'.label_eq.symm
  refine ⟨hids, u'.value, hat, ?_⟩
  exact (hsizes _).2 ⟨u.value, hroot ▸ ht.unfolds.reaches hu, hlabel⟩ _ List.mem_cons_self T _ hT
    hr' _ (hroot' ▸ ht'.unfolds.reaches hu') rfl

end History

end Canonicalizer

end HashConsing
