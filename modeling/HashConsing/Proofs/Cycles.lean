import HashConsing.Proofs.Construction
import HashConsing.Proofs.Unfolding
import Mathlib.Data.Fintype.EquivFin
import Mathlib.Logic.Relation
import Mathlib.Order.WellFounded

/-!
# What is below a node

A node reaches what is below it: its children, theirs, and so on. As nodes may be given other
children at any time, a node may come to be below itself; `Forest.Acyclic` says that this is the
case nowhere below a node.

Since there are finitely many nodes, going down from an acyclic node comes to an end. So the
acyclic nodes are those that unfold to a tree (`Forest.acyclic_iff`), and nodes that are built by
construction only are acyclic (`Forest.Descending.acyclic`).
-/

namespace HashConsing

namespace Forest

variable (f : Forest)

/-- **A node is reached from another one** by going down along children. -/
def Reaches : Ref → Ref → Prop := Relation.ReflTransGen fun a b => b ∈ f.children a

/-- **No node below a node is below itself.** -/
def Acyclic (r : Ref) : Prop := ∀ q, f.Reaches r q → ∀ c ∈ f.children q, ¬ f.Reaches c q

variable {f} {q r : Ref}

/-- A node that is not there has nothing below it. -/
theorem children_of_size_le (h : f.cells.size ≤ r) : f.children r = [] := by
  rw [children, Array.getElem?_eq_none h]
  rfl

/-- A node with something below it is there. -/
theorem lt_size_of_mem_children {c : Ref} (h : c ∈ f.children r) : r < f.cells.size := by
  refine Nat.lt_of_not_le fun hle => ?_
  rw [children_of_size_le hle] at h
  cases h

theorem Reaches.child {c : Ref} (h : f.Reaches r q) (hc : c ∈ f.children q) : f.Reaches r c :=
  h.tail hc

namespace Acyclic

/-- What is below an acyclic node is acyclic. -/
theorem of_reaches (h : f.Acyclic r) (hq : f.Reaches r q) : f.Acyclic q :=
  fun p hp => h p (hq.trans hp)

theorem child {c : Ref} (h : f.Acyclic r) (hc : c ∈ f.children r) : f.Acyclic c :=
  h.of_reaches (.single hc)

/-- **Going down from an acyclic node comes to an end.** -/
@[elab_as_elim]
theorem induction {P : Ref → Prop} {r : Ref} (h : f.Acyclic r)
    (step : ∀ q, f.Acyclic q → (∀ c ∈ f.children q, P c) → P q) : P r := by
  -- Among the nodes below, being below is a strict order, and there are finitely many.
  let below (a b : {q : Fin f.cells.size // f.Acyclic q}) : Prop :=
    ∃ c ∈ f.children b.1, f.Reaches c a.1
  have htrans : IsTrans _ below := ⟨by
    rintro a b d ⟨c, hc, hca⟩ ⟨c', hc', hcb⟩
    exact ⟨c', hc', (hcb.child hc).trans hca⟩⟩
  have hirrefl : Std.Irrefl below := ⟨fun a ⟨c, hc, hca⟩ => a.2 a.1 .refl c hc hca⟩
  have hwf : WellFounded below := Finite.wellFounded_of_trans_of_irrefl below
  have hall : ∀ a : {q : Fin f.cells.size // f.Acyclic q}, P a.1 := by
    intro a
    induction a using hwf.induction with
    | h a ih =>
      refine step a.1 a.2 fun c hc => ?_
      by_cases hlt : c < f.cells.size
      · exact ih ⟨⟨c, hlt⟩, a.2.child hc⟩ ⟨c, hc, .refl⟩
      · refine step c (a.2.child hc) fun d hd => ?_
        exact absurd (lt_size_of_mem_children hd) hlt
  by_cases hlt : r < f.cells.size
  · exact hall ⟨⟨r, hlt⟩, h⟩
  · exact step r h fun c hc => absurd (lt_size_of_mem_children hc) hlt

/-- An acyclic node unfolds to a tree. -/
theorem exists_unfolds (h : f.Acyclic r) : ∃ t, f.Unfolds r t := by
  refine h.induction fun q _ ih => ?_
  choose! below hbelow using ih
  refine ⟨.node q ((f.children q).map below), Unfolds.node ?_ ?_⟩
  · rw [List.map_map]
    conv_rhs => rw [← List.map_id (f.children q)]
    exact List.map_congr_left fun c hc => (hbelow c hc).root
  · intro t ht
    obtain ⟨c, hc, rfl⟩ := List.mem_map.1 ht
    exact (hbelow c hc).root.symm ▸ hbelow c hc

end Acyclic

/-- Where nodes are made after their children, a node reaches only what was made before. -/
theorem Descending.le_of_reaches (h : f.Descending) (hq : f.Reaches r q) : q ≤ r := by
  induction hq with
  | refl => exact Nat.le_refl r
  | tail _ hc ih => exact Nat.le_trans (Nat.le_of_lt (h _ _ hc)) ih

/-- **Nodes that are made after their children are acyclic.** -/
theorem Descending.acyclic (h : f.Descending) (r : Ref) : f.Acyclic r :=
  fun q _ c hc hback => absurd (h.le_of_reaches hback) (Nat.not_le.2 (h q c hc))

/-- What a node reaches stands somewhere in the tree it unfolds to. -/
theorem Unfolds.exists_at?_of_reaches {t : Rose Ref} (h : f.Unfolds r t) (hq : f.Reaches r q) :
    ∃ path u, t.at? path = some u ∧ u.value = q := by
  induction hq using Relation.ReflTransGen.head_induction_on generalizing t with
  | refl => exact ⟨[], t, rfl, h.root⟩
  | head hc _ ih =>
    rw [← h.map_value_children] at hc
    obtain ⟨u, hu, rfl⟩ := List.mem_map.1 hc
    obtain ⟨i, hi⟩ := List.getElem?_of_mem hu
    obtain ⟨path, v, hv, hvalue⟩ := ih (h.child hu)
    exact ⟨i :: path, v, Rose.at?_cons_eq_some.2 ⟨u, hi, hv⟩, hvalue⟩

/-- **The acyclic nodes are those that unfold to a tree.** -/
theorem acyclic_iff : f.Acyclic r ↔ ∃ t, f.Unfolds r t := by
  refine ⟨Acyclic.exists_unfolds, fun ⟨t, ht⟩ q hq c hc hback => ?_⟩
  obtain ⟨path, u, hu, rfl⟩ := ht.exists_at?_of_reaches hq
  have hunfolds := ht.at? hu
  rw [← hunfolds.map_value_children] at hc
  obtain ⟨v, hv, rfl⟩ := List.mem_map.1 hc
  -- The node would unfold to a tree that is part of a smaller one.
  obtain ⟨path', w, hw, hvalue⟩ := (hunfolds.child hv).exists_at?_of_reaches hback
  have hsame : w = u := (hvalue ▸ (hunfolds.child hv).at? hw).unique hunfolds
  exact absurd (hsame ▸ Rose.size_le_of_at? hw) (Nat.not_le.2 (Rose.size_lt_of_mem hv))

end Forest

end HashConsing
