import HashConsing.Proofs.Captions
import HashConsing.Proofs.Walking
import Mathlib.Data.List.Perm.Subperm

/-!
# Nodes as trees

A node of a forest is a tree if going down from it along children comes to an end. `Forest.Unfolds`
says which tree that is: a tree of references, in which a node stands once for every way down to
it. This is all that is asked of a tree that somebody has put together; it need not have been
planted, nodes may be shared, and a child may have been made after its parent. A node below itself
unfolds to no tree.

Walks in a forest are bounded by the number of nodes. That is enough for every tree
(`Unfolds.length_le`): a node cannot be met twice on the way down, since it unfolds to one tree
only, and no tree is part of itself. So a rendering shows the whole tree
(`Unfolds.render_eq_printed`), and equality looks at the whole tree (`same_iff_of_unfolds`).
-/

namespace HashConsing

namespace Forest

variable (f : Forest)

/-- **A node unfolds to a tree of nodes**: it is the root, and everywhere in the tree the nodes
below one are its children in the forest. -/
structure Unfolds (r : Ref) (t : Rose Ref) : Prop where
  root : t.value = r
  children : ∀ path u, t.at? path = some u → u.children.map Rose.value = f.children u.value

variable {f}

namespace Unfolds

variable {r : Ref} {t u : Rose Ref}

theorem map_value_children (h : f.Unfolds r t) : t.children.map Rose.value = f.children r :=
  h.root ▸ h.children [] t rfl

/-- A node with trees over its children unfolds to the tree made of them. -/
theorem node {ts : List (Rose Ref)} (hvalues : ts.map Rose.value = f.children r)
    (hbelow : ∀ t ∈ ts, f.Unfolds t.value t) : f.Unfolds r (.node r ts) where
  root := rfl
  children := Rose.forall_at?_iff.2 ⟨hvalues, fun t ht => (hbelow t ht).children⟩

/-- The trees below are those of the nodes below. -/
theorem child (h : f.Unfolds r t) (hu : u ∈ t.children) : f.Unfolds u.value u where
  root := rfl
  children path v hv := by
    obtain ⟨i, hi⟩ := List.getElem?_of_mem hu
    exact h.children (i :: path) v (Rose.at?_cons_eq_some.2 ⟨u, hi, hv⟩)

theorem at? (h : f.Unfolds r t) {path : List Nat} (hu : t.at? path = some u) :
    f.Unfolds u.value u := by
  induction path generalizing r t with
  | nil =>
    cases hu
    exact ⟨rfl, h.children⟩
  | cons i path ih =>
    obtain ⟨v, hv, hu⟩ := Rose.at?_cons_eq_some.1 hu
    exact ih (h.child (List.mem_of_getElem? hv)) hu

mutual

/-- **A node unfolds to one tree.** -/
theorem unique : ∀ {r : Ref} {t u : Rose Ref}, f.Unfolds r t → f.Unfolds r u → t = u
  | _, .node a ts, .node b us, ht, hu => by
    have hvalues : ts.map Rose.value = us.map Rose.value :=
      ht.map_value_children.trans hu.map_value_children.symm
    have hroot : a = b := ht.root.trans hu.root.symm
    have htrees : ts = us := unique_each (fun t => ht.child) (fun u => hu.child) hvalues
    rw [hroot, htrees]

theorem unique_each : ∀ {ts us : List (Rose Ref)}, (∀ t ∈ ts, f.Unfolds t.value t) →
    (∀ u ∈ us, f.Unfolds u.value u) → ts.map Rose.value = us.map Rose.value → ts = us
  | [], us, _, _, h => (List.map_eq_nil_iff.1 h.symm).symm
  | t :: ts, [], _, _, h => nomatch h
  | t :: ts, u :: us, hts, hus, h => by
    obtain ⟨ht, hts⟩ := List.forall_mem_cons.1 hts
    obtain ⟨hu, hus⟩ := List.forall_mem_cons.1 hus
    obtain ⟨hvalue, hvalues⟩ := List.cons.inj h
    rw [unique ht (hvalue ▸ hu), unique_each hts hus hvalues]

end

/-! ## How deep a tree is -/

/-- The nodes on a way down are different, and all but the last are in the forest. -/
theorem exists_refs (h : f.Unfolds r t) {path : List Nat} (hu : t.at? path = some u) :
    ∃ rs : List Ref, rs.length = path.length ∧ rs.Nodup ∧ ∀ s ∈ rs, s < f.cells.size
      ∧ ∃ path' v, t.at? path' = some v ∧ v.value = s := by
  induction path generalizing r t with
  | nil => exact ⟨[], rfl, .nil, fun _ hs => nomatch hs⟩
  | cons i path ih =>
    obtain ⟨v, hv, hu⟩ := Rose.at?_cons_eq_some.1 hu
    have hmem : v ∈ t.children := List.mem_of_getElem? hv
    obtain ⟨rs, hlength, hnodup, hrs⟩ := ih (h.child hmem) hu
    refine ⟨r :: rs, congrArg (· + 1) hlength, List.nodup_cons.2 ⟨fun hr => ?_, hnodup⟩, ?_⟩
    · -- The node would unfold to a tree that is smaller than its own.
      obtain ⟨-, path', w, hw, rfl⟩ := hrs r hr
      obtain rfl : w = t := ((h.child hmem).at? hw).unique h
      exact absurd (Rose.size_le_of_at? hw) (Nat.not_le.2 (Rose.size_lt_of_mem hmem))
    · rintro s (_ | ⟨_, hs⟩)
      · refine ⟨?_, [], t, rfl, h.root⟩
        refine Nat.lt_of_not_le fun hle => ?_
        have hnone : f.children r = [] := by
          rw [Forest.children, Array.getElem?_eq_none hle]
          rfl
        have hmap := h.map_value_children
        rw [hnone] at hmap
        rw [List.map_eq_nil_iff.1 hmap] at hmem
        cases hmem
      · obtain ⟨hlt, path', w, hw, hvalue⟩ := hrs s hs
        exact ⟨hlt, i :: path', w, Rose.at?_cons_eq_some.2 ⟨v, hv, hw⟩, hvalue⟩

/-- **A tree is no deeper than there are nodes.** -/
theorem length_le (h : f.Unfolds r t) {path : List Nat} (hu : t.at? path = some u) :
    path.length ≤ f.cells.size := by
  obtain ⟨rs, hlength, hnodup, hrs⟩ := h.exists_refs hu
  have hsubset : rs ⊆ List.range f.cells.size := fun s hs => List.mem_range.2 (hrs s hs).1
  have hle : rs.length ≤ (List.range f.cells.size).length := (hnodup.subperm hsubset).length_le
  rwa [List.length_range, hlength] at hle

end Unfolds

/-! ## Walks -/

variable (f) in
/-- **Where a walk stands when it has come down to a node of a tree**: it goes down far enough
for all of the tree below the node. -/
structure UnfoldsAt (p : Ref × Nat) (t : Rose Ref) : Prop where
  unfolds : f.Unfolds p.1 t
  length_le : ∀ path u, t.at? path = some u → path.length ≤ p.2

namespace UnfoldsAt

variable {p : Ref × Nat} {t : Rose Ref}

/-- A walk goes on down to the trees below. -/
theorem children (h : f.UnfoldsAt p t) :
    List.Forall₂ f.UnfoldsAt (f.branching.children p) t.children := by
  obtain ⟨r, depth⟩ := p
  have hvalues : t.children.map Rose.value = f.children r := h.unfolds.map_value_children
  cases depth with
  | zero =>
    have hnone : t.children = [] := by
      refine List.eq_nil_iff_forall_not_mem.2 fun u hu => ?_
      obtain ⟨i, hi⟩ := List.getElem?_of_mem hu
      exact absurd (h.length_le [i] u (Rose.at?_cons_eq_some.2 ⟨u, hi, rfl⟩))
        (Nat.not_succ_le_zero 0)
    rw [hnone]
    exact .nil
  | succ depth =>
    show List.Forall₂ _ ((f.children r).map (·, depth)) t.children
    rw [← hvalues, List.map_map, List.forall₂_map_left_iff]
    refine List.forall₂_same.2 fun u hu => ⟨h.unfolds.child hu, fun path v hv => ?_⟩
    obtain ⟨i, hi⟩ := List.getElem?_of_mem hu
    exact Nat.le_of_succ_le_succ
      (h.length_le (i :: path) v (Rose.at?_cons_eq_some.2 ⟨u, hi, hv⟩))

end UnfoldsAt

/-- A walk over a tree starts far up enough. -/
theorem Unfolds.unfoldsAt {r : Ref} {t : Rose Ref} (h : f.Unfolds r t) :
    f.UnfoldsAt (f.position r) t :=
  ⟨h, fun _ _ => h.length_le⟩

/-- **The rendering of a tree prints the captions of its labels.** -/
theorem Unfolds.render_eq_printed {r : Ref} {t : Rose Ref} (h : f.Unfolds r t) (c : Classifier)
    (indent : String) :
    f.render c indent r = (do
      return Rose.printed indent 0 (← c.caption false (t.map f.label))) := by
  have hR : f.branching.LabelTrees (fun p => f.label p.1)
      fun p L => ∃ u, f.UnfoldsAt p u ∧ L = u.map f.label := by
    constructor
    · rintro p _ ⟨u, hu, rfl⟩
      rw [Rose.value_map, hu.unfolds.root]
    · rintro p _ ⟨⟨a, us⟩, hu, rfl⟩
      rw [Rose.map_node]
      exact List.forall₂_map_right_iff.2 (hu.children.imp fun q v hv => ⟨v, hv, rfl⟩)
  exact Branching.render_eq_printed c indent hR ⟨t, h.unfoldsAt, rfl⟩

/-! ## Comparing -/

variable (f) in
/-- What a comparison looks at on a node: its label and its number. -/
def face (r : Ref) : String × Option Int := (f.label r, f.postOrderId r)

/-- **A comparison of nodes is a comparison of the trees they unfold to**, by their faces. -/
theorem sameFrom_iff_of_unfolds (pending : List ((Ref × Nat) × Ref))
    {trees : List (Rose Ref × Rose Ref)}
    (h : List.Forall₂ (fun entry pair => f.UnfoldsAt entry.1 pair.1 ∧ f.Unfolds entry.2 pair.2)
      pending trees) :
    f.sameFrom pending = true ↔ ∀ pair ∈ trees, pair.1.map f.face = pair.2.map f.face := by
  fun_induction sameFrom f pending generalizing trees with
  | case1 =>
    cases h
    simp
  | case2 p rest ih =>
    obtain ⟨⟨t, u⟩, trees, ⟨ht, hu⟩, hrest, rfl⟩ := List.forall₂_cons_left_iff.1 h
    -- One node unfolds to one tree, so there is no need to look below.
    rw [ih hrest, List.forall_mem_cons]
    exact (and_iff_right (congrArg _ (ht.unfolds.unique hu))).symm
  | case3 p r rest hne hsame ih =>
    obtain ⟨⟨t, u⟩, trees, ⟨ht, hu⟩, hrest, rfl⟩ := List.forall₂_cons_left_iff.1 h
    obtain ⟨hlabel, hnumber, hlength⟩ := hsame
    have hface : f.face t.value = f.face u.value := by
      rw [ht.unfolds.root, hu.root]
      exact Prod.ext hlabel hnumber
    have hchildren : t.children.length = u.children.length := by
      have hvalues := congrArg List.length ht.unfolds.map_value_children
      have hvalues' := congrArg List.length hu.map_value_children
      rw [List.length_map] at hvalues hvalues'
      rw [hvalues, hvalues', hlength]
    have hbelow : List.Forall₂ (fun s v => f.Unfolds s v) (f.children r) u.children := by
      rw [← hu.map_value_children, List.forall₂_map_left_iff]
      exact List.forall₂_same.2 fun v hv => hu.child hv
    have hpairs := forall₂_zip ht.children hbelow
    rw [ih (List.rel_append (List.forall₂_reverse_iff.2 hpairs) hrest), List.forall_mem_cons,
      Rose.map_eq_map_iff_zip hface hchildren]
    simp only [List.mem_append, List.mem_reverse, or_imp, forall_and]
  | case4 p r rest hne hdiffer =>
    obtain ⟨⟨t, u⟩, trees, ⟨ht, hu⟩, hrest, rfl⟩ := List.forall₂_cons_left_iff.1 h
    refine iff_of_false Bool.false_ne_true fun hall => hdiffer ?_
    have heq : t.map f.face = u.map f.face := hall _ List.mem_cons_self
    have hface : f.face t.value = f.face u.value :=
      (Rose.value_map f.face t).symm.trans (heq ▸ Rose.value_map f.face u)
    have hlength : (t.children.map (Rose.map f.face)).length
        = (u.children.map (Rose.map f.face)).length := by
      rw [← Rose.children_map, heq, Rose.children_map]
    rw [ht.unfolds.root, hu.root] at hface
    obtain ⟨hlabel, hnumber⟩ := Prod.mk.inj hface
    refine ⟨hlabel, hnumber, ?_⟩
    rw [← ht.unfolds.map_value_children, ← hu.map_value_children, List.length_map, List.length_map]
    simpa only [List.length_map] using hlength

/-- **Equality of trees is equality of labels and numbers** all the way down. -/
theorem same_iff_of_unfolds {r s : Ref} {t u : Rose Ref} (ht : f.Unfolds r t)
    (hu : f.Unfolds s u) : f.same r s = true
      ↔ t.map f.label = u.map f.label ∧ t.map f.postOrderId = u.map f.postOrderId := by
  have h : List.Forall₂ (fun entry pair => f.UnfoldsAt entry.1 pair.1 ∧ f.Unfolds entry.2 pair.2)
      [(f.position r, s)] [(t, u)] := .cons ⟨ht.unfoldsAt, hu⟩ .nil
  unfold same
  rw [sameFrom_iff_of_unfolds _ h, List.forall_mem_singleton]
  exact Rose.map_pair_eq_iff f.label f.postOrderId

end Forest

end HashConsing
