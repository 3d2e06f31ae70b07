import HashConsing.Labeling.Nodes
import HashConsing.Proofs.Simulation
import HashConsing.Proofs.Trail
import HashConsing.Proofs.Uses

/-!
# Labeling with nodes and without

Labeling with nodes is labeling: it simulates labeling without them, with the same progress
(`forgetting`), so forgetting the nodes turns one into the other (`labelNodes_forget`). And the
nodes that are made are those that planting makes for what has been labeled (`Planted`): along a
trail the trees are planted one after the other, each over those that were planted last. So a tree
is handed out as if it had been planted in the end (`plantIds_of_labelNodes`).
-/

namespace HashConsing

open Forest

/-! ## Forgetting the nodes -/

/-- **Forgets the nodes** that were made on the way to an ending. -/
def Ending.forget (ending : Ending Making Made) : Ending Progress (Rose Nat) :=
  (ending.1.map Made.tree, ending.2.progress)

/-- Trees that are labeled together with nodes are those without. -/
theorem map_tree_eq {below : List Made} {Ts : List (Rose Nat)}
    (h : List.Forall₂ (fun m T => m.tree = T) below Ts) : below.map Made.tree = Ts := by
  rw [← List.forall₂_eq_eq_eq, List.forall₂_map_left_iff]
  exact h

/-- **Labeling with nodes and without**: what corresponds has the same progress, and trees are the
same. -/
def forgetting (reporter : Reporter) :
    Simulation (Builder.nodes reporter) (Builder.trees reporter) where
  states x := x.1.progress = x.2
  later _ _ := True
  results _ m T := m.tree = T
  later_refl _ := trivial
  later_trans _ _ := trivial
  results_later _ h := h
  absent := by
    rintro ⟨s, progress⟩ hs
    obtain rfl : s.progress = progress := hs
    exact ⟨rfl, trivial, rfl⟩
  leaf := by
    rintro ⟨s, progress⟩ v key hs _
    obtain rfl : s.progress = progress := hs
    exact ⟨rfl, trivial, rfl⟩
  list := by
    rintro ⟨s, progress⟩ items below Ts hs hbelow
    obtain rfl : s.progress = progress := hs
    obtain rfl := map_tree_eq hbelow
    exact ⟨rfl, trivial, rfl⟩
  node := by
    rintro ⟨s, progress⟩ v kind below Ts hs hbelow
    obtain rfl : s.progress = progress := hs
    obtain rfl := map_tree_eq hbelow
    exact ⟨rfl, trivial, rfl⟩

section Forgetting

variable {fe : Frontend} {reporter : Reporter} {root : Value} {s : Making}

/-- Endings that correspond are the same without the nodes. -/
theorem eq_forget {x : Making × Progress} {e : Ending Making Made}
    {e' : Ending Progress (Rose Nat)}
    (h : (forgetting reporter).Endings (forgetting reporter).results x e e') : e' = e.forget := by
  obtain ⟨outcome, s⟩ := e
  obtain ⟨outcome', s'⟩ := e'
  obtain rfl : s.progress = s' := h.states
  cases outcome with
  | error failure =>
    obtain ⟨_, rfl, rfl⟩ := h.outcome.exists_error
    rfl
  | ok m =>
    obtain ⟨_, rfl, rfl⟩ := h.outcome.exists_ok
    rfl

/-- **Labeling with nodes is labeling**, once the nodes are forgotten. -/
theorem labelNodes_forget (fe : Frontend) (reporter : Reporter) (root : Value) (s : Making) :
    (labelNodes fe reporter root s).map Ending.forget = label fe reporter root s.progress := by
  have hstates : (forgetting reporter).states (s, s.progress) := rfl
  have hforget : ∀ e, buildNode fe (.nodes reporter) root s = some e →
      buildNode fe (.trees reporter) root s.progress = some e.forget := by
    intro e he
    obtain ⟨e', he', hends⟩ := (forgetting reporter).buildNode hstates he
    rw [he', eq_forget hends]
  rw [labelNodes, label, Builder.build_eq_buildNode, Builder.build_eq_buildNode]
  refine Option.ext fun ending => ⟨fun h => ?_, fun h => ?_⟩
  · obtain ⟨e, he, rfl⟩ := Option.map_eq_some_iff.1 h
    exact hforget e he
  · obtain ⟨e, he, -⟩ := (forgetting reporter).symm.buildNode (x := (s.progress, s)) hstates h
    rw [he, Option.map_some, ← hforget e he]
    exact h

/-- A tree that has a form is labeled with nodes. -/
theorem exists_labelNodes (reporter : Reporter) (hs : s.progress.tables.Coherent) {F : Form}
    (hF : fe.form root = some (.ok F)) :
    ∃ m t, labelNodes fe reporter root s = some (.ok m, t) := by
  obtain ⟨⟨result, progress⟩, hlabel, hencodes⟩ := exists_label reporter hs hF
  obtain ⟨T, rfl, -⟩ := hencodes.exists_ok
  rw [← labelNodes_forget] at hlabel
  obtain ⟨⟨failure | m, t⟩, h, hforget⟩ := Option.map_eq_some_iff.1 hlabel
  · cases hforget
  · exact ⟨m, t, h⟩

end Forgetting

/-! ## What is made -/

/-- **Trees are planted one after the other**, with the nodes that were made for them. The last
one comes first. -/
def Planted (start : Forest) (ms : List Made) (f : Forest) : Prop :=
  (ms.reverse.flatMap fun m => m.tree.postorder).foldl (plantNode idName) ([], start)
    = (ms.map Made.node, f)

namespace Planted

variable {start : Forest}

theorem nil (f : Forest) : Planted f [] f := rfl

/-- **The next node is planted over those that were planted last.** -/
theorem make {s : Making} (below : List Made) {rest : List Made}
    (h : Planted start (below.reverse ++ rest) s.forest) (labeled : Rose Nat × Progress)
    (hlabeled : labeled.1.children = below.map Made.tree) :
    Planted start ((s.make labeled below).1 :: rest) (s.make labeled below).2.forest := by
  obtain ⟨⟨id, ts⟩, progress⟩ := labeled
  obtain rfl : ts = below.map Made.tree := hlabeled
  have hwalk : ((s.make (.node id (below.map Made.tree), progress) below).1 :: rest).reverse.flatMap
        (fun m => m.tree.postorder)
      = (below.reverse ++ rest).reverse.flatMap (fun m => m.tree.postorder)
        ++ [.node id (below.map Made.tree)] := by
    rw [List.reverse_cons, List.reverse_append, List.reverse_reverse, List.flatMap_append,
      List.flatMap_append, List.flatMap_singleton, List.append_assoc]
    show _ ++ Rose.postorder (.node id (below.map Made.tree)) = _
    rw [Rose.postorder_node, List.flatMap_map]
  have hstack : (below.reverse ++ rest).map Made.node
      = (below.map Made.node).reverse ++ rest.map Made.node := by
    rw [List.map_append, List.map_reverse]
  have harity : (below.map Made.tree).length = (below.map Made.node).reverse.length := by
    rw [List.length_map, List.length_reverse, List.length_map]
  unfold Planted at h ⊢
  rw [hwalk, List.foldl_append, h, List.foldl_cons, List.foldl_nil, hstack]
  simp only [plantNode, Rose.children, Rose.value, harity, List.take_left, List.drop_left,
    List.reverse_reverse]
  rfl

/-- A tree that is planted alone. -/
theorem plantIds_eq {m : Made} {f : Forest} (h : Planted start [m] f) :
    start.plantIds m.tree = (m.node, f) := by
  have hfold : m.tree.postorder.foldl (plantNode idName) ([], start) = ([m.node], f) := by
    have hplanted : _ = ([m.node], f) := h
    rwa [List.reverse_singleton, List.flatMap_singleton] at hplanted
  unfold plantIds plant
  rw [hfold]
  rfl

end Planted

/-- **Along a trail what is labeled is planted**, over what has been planted before. -/
theorem Trail.planted {fe : Frontend} {reporter : Reporter} {s t : Making}
    {places : List PropertyKind} {ms : List Made}
    (trail : Trail fe (.nodes reporter) s places ms t) {start : Forest} {rest : List Made}
    (h : Planted start rest s.forest) : Planted start (ms.reverse ++ rest) t.forest := by
  induction trail generalizing rest with
  | nil => exact h
  | cons _ _ ihfirst ihrest =>
    rw [List.reverse_cons, List.append_assoc]
    exact ihrest (ihfirst h)
  | absent => exact h.make [] _ rfl
  | leaf => exact h.make [] _ rfl
  | list _ ih => exact (ih h).make _ _ rfl
  | node _ _ ih => exact (ih h).make _ _ rfl

section Planting

variable {fe : Frontend} {reporter : Reporter} {root : Value} {s t : Making}

/-- **Labeling with nodes plants what it labels**, whether it fails or not. -/
theorem planted_of_labelNodes {ending : Ending Making Made}
    (h : labelNodes fe reporter root s = some ending) :
    ∃ ms, Planted s.forest ms ending.2.forest ∧ ∀ m, ending.1 = .ok m → ms = [m] := by
  rw [labelNodes, Builder.build_eq_buildNode] at h
  have htrailed := Trailed.buildNode h
  obtain ⟨failure | m, t⟩ := ending
  · obtain ⟨_, ms, trail⟩ := htrailed
    exact ⟨ms.reverse ++ [], trail.planted (.nil s.forest), by simp⟩
  · have trail : Trail fe (.nodes reporter) s [.child] [m] t := htrailed
    refine ⟨[m], trail.planted (.nil s.forest), ?_⟩
    rintro _ ⟨⟩
    rfl

/-- **A tree is handed out as if it had been planted in the end**: labeling with nodes gives the
tree that labeling gives, and the nodes that planting makes for it. -/
theorem plantIds_of_labelNodes {m : Made} (h : labelNodes fe reporter root s = some (.ok m, t)) :
    label fe reporter root s.progress = some (.ok m.tree, t.progress)
      ∧ s.forest.plantIds m.tree = (m.node, t.forest) := by
  constructor
  · rw [← labelNodes_forget, h]
    rfl
  · obtain ⟨ms, hplanted, hresult⟩ := planted_of_labelNodes h
    obtain rfl := hresult m rfl
    exact hplanted.plantIds_eq

end Planting

/-! ## What is left alone -/

/-- Planting on nodes that are there is making nodes. -/
theorem Forest.later_foldl_plantNode {α : Type} (name : α → String × Option Int)
    (ts : List (Rose α)) {stack : List Ref} {f : Forest} (hstack : ∀ r ∈ stack, r < f.cells.size) :
    f.Later (ts.foldl (plantNode name) (stack, f)).2 := by
  induction ts generalizing stack f with
  | nil => exact .refl
  | cons t ts ih =>
    have htaken : ∀ c ∈ (stack.take t.children.length).reverse, c < f.cells.size := fun c hc =>
      hstack c (List.mem_of_mem_take (List.mem_reverse.1 hc))
    have hmade := Later.refl.use (.make (name t.value).1 _ (name t.value).2) htaken
    have hsize := f.size_cells_make (name t.value).1 (stack.take t.children.length).reverse
      (name t.value).2
    refine hmade.trans (ih (List.forall_mem_cons.2 ⟨?_, fun r hr => ?_⟩))
    · exact hsize ▸ Nat.lt_succ_self f.cells.size
    · exact hsize ▸ Nat.lt_succ_of_lt (hstack r (List.mem_of_mem_drop hr))

/-- **Labeling with nodes only makes nodes**, over nodes that it has made, whether it fails or
not. -/
theorem later_of_labelNodes {fe : Frontend} {reporter : Reporter} {root : Value} {s : Making}
    {ending : Ending Making Made} (h : labelNodes fe reporter root s = some ending) :
    s.forest.Later ending.2.forest := by
  obtain ⟨ms, hplanted, -⟩ := planted_of_labelNodes h
  have hforest : _ = ending.2.forest := congrArg Prod.snd hplanted
  rw [← hforest]
  exact later_foldl_plantNode idName _ (List.forall_mem_nil _)

/-- A planted tree is what has been made for it, each node once. -/
theorem Forest.Built.perm_preorder_plant {α : Type} {f : Forest} (hf : f.Built)
    (name : α → String × Option Int) (t : Rose α) :
    ((f.plant name t).2.preorder (f.plant name t).1).Perm
      (List.range' f.cells.size ((f.plant name t).2.cells.size - f.cells.size)) := by
  obtain ⟨r, g, hfold, -, -, hcells, -, hwalk⟩ := postorder_foldl_plantNode name t [] hf
  unfold plant
  rw [hfold]
  show (g.preorder r).Perm (List.range' f.cells.size (g.cells.size - f.cells.size))
  rw [hcells, Nat.add_sub_cancel_left, ← hwalk]
  exact g.preorder_perm_postorder r

/-- **A tree that is handed out is all that has been made**, each node once. -/
theorem perm_preorder_of_labelNodes {fe : Frontend} {reporter : Reporter} {root : Value}
    {s t : Making} {m : Made} (h : labelNodes fe reporter root s = some (.ok m, t))
    (hs : s.forest.Built) :
    (t.forest.preorder m.node).Perm
      (List.range' s.forest.cells.size (t.forest.cells.size - s.forest.cells.size)) := by
  have hperm := hs.perm_preorder_plant idName m.tree
  rw [← plantIds, (plantIds_of_labelNodes h).2] at hperm
  exact hperm

/-- What is below its root is what has been made. -/
theorem reaches_iff_of_labelNodes {fe : Frontend} {reporter : Reporter} {root : Value}
    {s t : Making} {m : Made} (h : labelNodes fe reporter root s = some (.ok m, t))
    (hs : s.forest.Built) {r : Ref} :
    t.forest.Reaches m.node r ↔ s.forest.cells.size ≤ r ∧ r < t.forest.cells.size := by
  have hlater := later_of_labelNodes h
  have hsize : s.forest.cells.size ≤ t.forest.cells.size := hlater.size_cells_le
  rw [← ((hlater.built hs).sound.descending.acyclic m.node).mem_preorder_iff,
    (perm_preorder_of_labelNodes h hs).mem_iff, List.mem_range'_1, Nat.add_sub_cancel' hsize]

end HashConsing
