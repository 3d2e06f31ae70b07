import HashConsing.Proofs.Numerals
import HashConsing.Proofs.Planting
import Mathlib.Algebra.Order.BigOperators.Group.List

/-!
# Walks over trees in forests

A node of a forest that holds a tree is walked over as the tree is: the nodes below it,
children first, hold the subtrees, children first (`Forest.Holds.postorder`).

So the labels that are met on a walk over a labeled tree that is handed out are the texts
of its ids, in the order of the tree (`Forest.Holds.map_label_postorder`).
-/

namespace HashConsing

/-! ## Walks side by side -/

namespace Branching

variable {α β : Type}

theorem weight_lt_of_mem {b : Branching α} {a c : α} (h : c ∈ b.children a) :
    b.weight c < b.weight a :=
  (List.le_sum_of_mem (List.mem_map_of_mem h)).trans_lt (b.sum_weight_lt a)

/-- **Positions that correspond are walked over in the same way**, if the children of
positions that correspond do. -/
theorem forall₂_postorder (b : Branching α) (b' : Branching β) {R : α → β → Prop}
    (hR : ∀ a a', R a a' → List.Forall₂ R (b.children a) (b'.children a')) {a : α} {a' : β}
    (h : R a a') : List.Forall₂ R (b.postorder a) (b'.postorder a') := by
  have hwalks : ∀ c ∈ b.children a, ∀ c', R c c' →
      List.Forall₂ R (b.postorder c) (b'.postorder c') := fun c hc c' hcc' =>
    forall₂_postorder b b' hR hcc'
  have hchildren : List.Forall₂ (fun c c' => List.Forall₂ R (b.postorder c) (b'.postorder c'))
      (b.children a) (b'.children a') :=
    ((List.forall₂_and_left _ _).2 ⟨hwalks, hR a a' h⟩).imp fun c c' hc => hc.1 c' hc.2
  rw [postorder_eq, postorder_eq]
  exact List.rel_append (List.rel_flatMap hchildren fun _ _ hc => hc) (.cons h .nil)
termination_by b.weight a
decreasing_by exact weight_lt_of_mem hc

end Branching

/-! ## Trees -/

namespace Rose

variable {α : Type}

/-- A walk comes to every node once. -/
theorem length_postorder : ∀ t : Rose α, t.postorder.length = t.size
  | node a ts => by
    have hts : ts.map (fun t => t.postorder.length) = ts.map size :=
      List.map_congr_left fun t ht => length_postorder t
    rw [postorder_node, List.length_append, List.length_flatMap, hts, size_node,
      List.length_singleton, Nat.add_comm]

/-- **The ids of a labeled tree, children first.** -/
def ids (T : Rose Nat) : List Nat := T.postorder.map value

theorem ids_node (id : Nat) (Ts : List (Rose Nat)) :
    (node id Ts).ids = Ts.flatMap ids ++ [id] := by
  rw [ids, postorder_node, List.map_append, List.map_flatMap]
  rfl

/-- A walk comes to nothing but what is at the positions of a tree. -/
theorem exists_at?_of_mem_postorder : ∀ {t u : Rose α}, u ∈ t.postorder →
    ∃ path, t.at? path = some u
  | node a ts, u, h => by
    rw [postorder_node, List.mem_append, List.mem_flatMap, List.mem_singleton] at h
    rcases h with ⟨t, ht, hu⟩ | rfl
    · obtain ⟨i, hi⟩ := List.getElem?_of_mem ht
      obtain ⟨path, hpath⟩ := exists_at?_of_mem_postorder hu
      refine ⟨i :: path, ?_⟩
      rw [at?, children, hi]
      exact hpath
    · exact ⟨[], rfl⟩

/-- Every id of a labeled tree is at one of its positions. -/
theorem exists_at?_of_mem_ids {T : Rose Nat} {id : Nat} (h : id ∈ T.ids) :
    ∃ path U, T.at? path = some U ∧ U.value = id := by
  obtain ⟨U, hU, hvalue⟩ := List.mem_map.1 h
  obtain ⟨path, hpath⟩ := exists_at?_of_mem_postorder hU
  exact ⟨path, U, hpath, hvalue⟩

end Rose

namespace Forest

section Holds

variable {α : Type} {name : α → String × Option Int} {f : Forest}

/-- A walk that goes down from a node that holds a tree goes to all its children. -/
theorem HoldsAt.map_fst_children {p : Ref × Nat} {t : Rose α} (h : f.HoldsAt name p t) :
    (f.branching.children p).map Prod.fst = f.children p.1 := by
  obtain ⟨r, depth⟩ := p
  cases depth with
  | zero =>
    have hnone : t.children = [] := List.forall₂_nil_left_iff.1 h.children
    have hchildren := h.2.children
    rw [hnone] at hchildren
    exact (List.forall₂_nil_right_iff.1 hchildren).symm
  | succ depth =>
    show ((f.children r).map (·, depth)).map Prod.fst = f.children r
    rw [List.map_map]
    exact List.map_id _

theorem HoldsAt.postorder {p : Ref × Nat} {t : Rose α} (h : f.HoldsAt name p t) :
    List.Forall₂ (f.HoldsAt name) (f.branching.postorder p) t.postorder :=
  Branching.forall₂_postorder _ Rose.branching (fun _ _ h => h.children) h

/-- **A node that holds a tree is walked over as the tree is.** -/
theorem Holds.postorder {r : Ref} {t : Rose α} (h : f.Holds name r t) :
    List.Forall₂ (f.Holds name) (f.postorder r) t.postorder := by
  have hat : f.HoldsAt name (f.position r) t := ⟨Nat.le_of_lt h.lt_size, h⟩
  rw [Forest.postorder, List.forall₂_map_left_iff]
  exact hat.postorder.imp fun _ _ hp => hp.2

/-- The labels met on a walk over a labeled tree are the texts of its ids. -/
theorem Holds.map_label_postorder {r : Ref} {T : Rose Nat} (h : f.Holds idName r T) :
    (f.postorder r).map f.label = T.ids.map toString := by
  have hlabels : List.Forall₂ (fun n U => f.label n = toString U.value)
      (f.postorder r) T.postorder :=
    h.postorder.imp fun _ _ hn => congrArg Prod.fst hn.name_eq
  rw [Rose.ids, List.map_map, ← List.forall₂_eq_eq_eq, List.forall₂_map_left_iff,
    List.forall₂_map_right_iff]
  exact hlabels

end Holds

end Forest

end HashConsing
