import HashConsing.Proofs.Cycles

/-!
# Flat forms

The flat form of a tree lists its nodes, parents first, each with its label, its number and how
many children it has. As the numbers of children are listed too, one can see where each subtree
ends, and a tree can be read back from its flat form (`Rose.flat_append_inj`).

So two acyclic nodes are equal if and only if they have the same flat form (`same_iff_flat`):
neither the order in which a comparison looks at the nodes, nor that it passes over a pair of
nodes that is one node, nor that it looks at no more children than both nodes have ever hides a
difference. What else is known of a node, its parent and its size, does not matter, and subtrees
can be replaced by equal ones anywhere.
-/

namespace HashConsing

/-! ## Trees -/

/-- **Positions that correspond are walked over in the same way**, parents first. -/
theorem Branching.forall₂_preorder {α β : Type} (b : Branching α) (b' : Branching β)
    {R : α → β → Prop} (hR : ∀ a a', R a a' → List.Forall₂ R (b.children a) (b'.children a'))
    {a : α} {a' : β} (h : R a a') : List.Forall₂ R (b.preorder a) (b'.preorder a') := by
  have hwalks : ∀ c ∈ b.children a, ∀ c', R c c' →
      List.Forall₂ R (b.preorder c) (b'.preorder c') := fun c hc c' hcc' =>
    forall₂_preorder b b' hR hcc'
  have hchildren : List.Forall₂ (fun c c' => List.Forall₂ R (b.preorder c) (b'.preorder c'))
      (b.children a) (b'.children a') :=
    ((List.forall₂_and_left _ _).2 ⟨hwalks, hR a a' h⟩).imp fun c c' hc => hc.1 c' hc.2
  rw [preorder_eq, preorder_eq]
  exact .cons h (List.rel_flatMap hchildren fun _ _ hc => hc)
termination_by b.weight a
decreasing_by exact weight_lt_of_mem hc

namespace Rose

variable {α β : Type}

theorem preorder_node (a : α) (ts : List (Rose α)) :
    (node a ts).preorder = node a ts :: ts.flatMap preorder :=
  branching.preorder_eq (node a ts)

/-- **The flat form of a tree**: its values with the numbers of children, parents first. -/
def flat (t : Rose α) : List (α × Nat) := t.preorder.map fun u => (u.value, u.children.length)

theorem flat_node (a : α) (ts : List (Rose α)) :
    (node a ts).flat = (a, ts.length) :: ts.flatMap flat := by
  rw [flat, preorder_node, List.map_cons, List.map_flatMap]
  rfl

mutual

/-- **A tree is read back from its flat form**, whatever follows. -/
theorem flat_append_inj : ∀ {t u : Rose α} {xs ys : List (α × Nat)},
    t.flat ++ xs = u.flat ++ ys → t = u ∧ xs = ys
  | node a ts, node b us, xs, ys, h => by
    rw [flat_node, flat_node, List.cons_append, List.cons_append, List.cons.injEq] at h
    obtain ⟨hroot, hbelow⟩ := h
    obtain ⟨rfl, hlength⟩ := Prod.mk.inj hroot
    obtain ⟨rfl, hrest⟩ := flatMap_flat_append_inj hlength hbelow
    exact ⟨rfl, hrest⟩

/-- So are several trees, if it is known how many they are. -/
theorem flatMap_flat_append_inj : ∀ {ts us : List (Rose α)} {xs ys : List (α × Nat)},
    ts.length = us.length → ts.flatMap flat ++ xs = us.flatMap flat ++ ys → ts = us ∧ xs = ys
  | [], [], xs, ys, _, h => ⟨rfl, h⟩
  | t :: ts, u :: us, xs, ys, hlength, h => by
    rw [List.flatMap_cons, List.flatMap_cons, List.append_assoc, List.append_assoc] at h
    obtain ⟨rfl, hrest⟩ := flat_append_inj h
    obtain ⟨rfl, hrest'⟩ := flatMap_flat_append_inj (Nat.succ.inj hlength) hrest
    exact ⟨rfl, hrest'⟩

end

/-- **Trees are equal if their flat forms are.** -/
theorem flat_injective : Function.Injective (flat : Rose α → List (α × Nat)) := by
  intro t u h
  exact (flat_append_inj (congrArg (· ++ []) h)).1

/-- The flat form of an image has the images of the values. -/
theorem flat_map (f : α → β) : ∀ t : Rose α,
    (t.map f).flat = t.flat.map fun entry => (f entry.1, entry.2)
  | node a ts => by
    have hts : ∀ t ∈ ts, (t.map f).flat = t.flat.map fun entry => (f entry.1, entry.2) :=
      fun t _ => flat_map f t
    rw [map_node, flat_node, flat_node, List.map_cons, List.length_map, List.flatMap_map,
      List.map_flatMap]
    exact congrArg _ (List.flatMap_congr hts)

/-- An image has as many nodes as the tree. -/
theorem size_map (f : α → β) : ∀ t : Rose α, (t.map f).size = t.size
  | node a ts => by
    have hts : ∀ t ∈ ts, (t.map f).size = t.size := fun t _ => size_map f t
    rw [map_node, size_node, size_node, List.map_map]
    exact congrArg (fun sizes => 1 + List.sum sizes) (List.map_congr_left hts)

end Rose

namespace Forest

variable {f g : Forest} {r s : Ref}

/-! ## Flat forms of nodes -/

/-- An entry of a flat form, as it is listed. -/
def listed (entry : (String × Option Int) × Nat) : String × Nat × Option Int :=
  (entry.1.1, entry.2, entry.1.2)

theorem listed_injective : Function.Injective listed := by
  rintro ⟨⟨label, number⟩, arity⟩ ⟨⟨label', number'⟩, arity'⟩ h
  cases h
  rfl

namespace Unfolds

variable {t u : Rose Ref}

theorem length_children (h : f.Unfolds r t) : (f.children r).length = t.children.length := by
  rw [← h.map_value_children, List.length_map]

/-- The nodes below a node, parents first, unfold to the trees of its tree, parents first. -/
theorem preorder (h : f.Unfolds r t) : List.Forall₂ f.Unfolds (f.preorder r) t.preorder := by
  rw [Forest.preorder, List.forall₂_map_left_iff]
  exact (Branching.forall₂_preorder f.branching Rose.branching (fun _ _ hp => hp.children)
    h.unfoldsAt).imp fun p u hp => hp.unfolds

theorem preorder_eq (h : f.Unfolds r t) : f.preorder r = t.preorder.map Rose.value := by
  rw [← List.forall₂_eq_eq_eq, List.forall₂_map_right_iff]
  exact h.preorder.imp fun n u hu => hu.root.symm

/-- **The flat form of a node is that of the tree it unfolds to**, with labels and numbers for
values. -/
theorem flat_eq (h : f.Unfolds r t) : f.flat r = (t.map f.face).flat.map listed := by
  rw [Rose.flat_map, Rose.flat, List.map_map, List.map_map, flat, ← List.forall₂_eq_eq_eq,
    List.forall₂_map_left_iff, List.forall₂_map_right_iff]
  refine h.preorder.imp fun n u hu => ?_
  rw [hu.length_children, ← hu.root]
  rfl

/-- **Nodes are equal if and only if they have the same flat form.** -/
theorem same_iff_flat_eq (ht : f.Unfolds r t) (hu : f.Unfolds s u) :
    f.same r s = true ↔ f.flat r = f.flat s := by
  rw [same_iff_of_unfolds ht hu, ← Rose.map_pair_eq_iff, ht.flat_eq, hu.flat_eq]
  exact ⟨fun h => congrArg (fun v => v.flat.map listed) h,
    fun h => Rose.flat_injective (List.map_injective_iff.2 listed_injective h)⟩

end Unfolds

/-- **The nodes below a node, parents first**, are the node and those below its children. -/
theorem Acyclic.preorder_eq (h : f.Acyclic r) :
    f.preorder r = r :: (f.children r).flatMap f.preorder := by
  obtain ⟨⟨a, ts⟩, ht⟩ := h.exists_unfolds
  obtain rfl : a = r := ht.root
  have hbelow : ∀ t ∈ ts, f.preorder t.value = t.preorder.map Rose.value :=
    fun t hmem => (ht.child hmem).preorder_eq
  rw [ht.preorder_eq, Rose.preorder_node, List.map_cons, List.map_flatMap, ← ht.map_value_children,
    List.flatMap_map]
  exact congrArg _ (List.flatMap_congr hbelow).symm

/-- **What is below an acyclic node is what it reaches.** -/
theorem Acyclic.mem_preorder_iff (h : f.Acyclic r) {q : Ref} :
    q ∈ f.preorder r ↔ f.Reaches r q := by
  constructor
  · refine h.induction fun r hr ih hq => ?_
    rw [hr.preorder_eq, List.mem_cons, List.mem_flatMap] at hq
    rcases hq with rfl | ⟨c, hc, hq⟩
    · exact .refl
    · exact (ih c hc hq).head hc
  · intro hq
    induction hq using Relation.ReflTransGen.head_induction_on with
    | refl =>
      rw [h.preorder_eq]
      exact List.mem_cons_self
    | @head r c hc _ ih =>
      rw [h.preorder_eq]
      exact List.mem_cons_of_mem _ (List.mem_flatMap.2 ⟨c, hc, ih (h.child hc)⟩)

/-- **The flat form of a node** is its own entry, and then the flat forms of its children. -/
theorem Acyclic.flat_eq (h : f.Acyclic r) :
    f.flat r = (f.label r, (f.children r).length, f.postOrderId r)
      :: (f.children r).flatMap f.flat := by
  rw [flat, h.preorder_eq, List.map_cons, List.map_flatMap]
  rfl

/-! ## The comparison -/

namespace UnfoldsAt

variable {p : Ref × Nat} {t : Rose Ref}

/-- A walk that goes down far enough goes on to all children. -/
theorem map_fst_children (h : f.UnfoldsAt p t) :
    (f.branching.children p).map Prod.fst = f.children p.1 := by
  rw [← h.unfolds.map_value_children, ← List.forall₂_eq_eq_eq, List.forall₂_map_left_iff,
    List.forall₂_map_right_iff]
  exact h.children.imp fun q u hq => hq.unfolds.root.symm

/-- It goes down far enough for each of them. -/
theorem exists_of_mem (h : f.UnfoldsAt p t) {q : Ref × Nat} (hq : q ∈ f.branching.children p) :
    ∃ u, f.UnfoldsAt q u := by
  obtain ⟨i, hi, rfl⟩ := List.getElem_of_mem hq
  exact ⟨_, h.children.get hi (h.children.length_eq ▸ hi)⟩

end UnfoldsAt

/-- **Compares the pairs of nodes on a stack**, and what is below them, however far down. -/
def compareFrom (f : Forest) (pending : List (Ref × Ref)) : Option Bool :=
  match pending with
  | [] => some true
  | (r, s) :: rest =>
    if r = s then f |>.compareFrom rest
    else if f.label r = f.label s ∧ f.postOrderId r = f.postOrderId s
        ∧ (f.children r).length = (f.children s).length then
      f |>.compareFrom (((f.children r).zip (f.children s)).reverse ++ rest)
    else some false
partial_fixpoint

/-- A comparison that goes down far enough for all trees it meets goes down as far as it
takes. -/
theorem compareFrom_eq {pending : List ((Ref × Nat) × Ref)}
    (h : ∀ entry ∈ pending, ∃ t, f.UnfoldsAt entry.1 t) :
    f.compareFrom (pending.map fun entry => (entry.1.1, entry.2))
      = some (f.sameFrom pending) := by
  fun_induction sameFrom f pending with
  | case1 => rw [List.map_nil, compareFrom]
  | case2 p rest ih =>
    rw [List.map_cons, compareFrom, if_pos rfl]
    exact ih (List.forall_mem_cons.1 h).2
  | case3 p r rest hne hsame ih =>
    obtain ⟨⟨t, ht⟩, hrest⟩ := List.forall_mem_cons.1 h
    have hpairs : (((f.branching.children p).zip (f.children r)).reverse ++ rest).map
          (fun entry => (entry.1.1, entry.2))
        = ((f.children p.1).zip (f.children r)).reverse
          ++ rest.map fun entry => (entry.1.1, entry.2) := by
      rw [List.map_append, List.map_reverse, ← ht.map_fst_children, List.zip_map_left]
      rfl
    rw [List.map_cons, compareFrom, if_neg hne, if_pos hsame, ← hpairs]
    refine ih fun entry hentry => ?_
    rcases List.mem_append.1 hentry with hmem | hmem
    · exact ht.exists_of_mem (List.of_mem_zip (List.mem_reverse.1 hmem)).1
    · exact hrest entry hmem
  | case4 p r rest hne hdiffer =>
    rw [List.map_cons, compareFrom, if_neg hne, if_neg hdiffer]

/-! ## Replacing subtrees -/

variable (f g) in
/-- **Subtrees are replaced by equal ones**: nodes keep their labels and numbers, and have
children that are equal to those they had. Parents and sizes may be any. -/
structure Exchanged : Prop where
  label : ∀ q, g.label q = f.label q
  postOrderId : ∀ q, g.postOrderId q = f.postOrderId q
  children : ∀ q, f.Acyclic q →
    List.Forall₂ (fun c d => f.same c d = true ∧ f.Acyclic d) (f.children q) (g.children q)

namespace Exchanged

/-- What a comparison looks at on a node stays. -/
theorem face_eq (h : f.Exchanged g) : g.face = f.face :=
  funext fun q => Prod.ext (h.label q) (h.postOrderId q)

/-- Nodes that unfold to trees, one each, do so together. -/
theorem exists_unfolds_each {ts : List (Rose Ref)} {ds : List Ref}
    (h : List.Forall₂ (fun t d => ∃ u, g.Unfolds d u ∧ u.map f.face = t.map f.face) ts ds) :
    ∃ us : List (Rose Ref), us.map Rose.value = ds
      ∧ us.map (Rose.map f.face) = ts.map (Rose.map f.face) ∧ ∀ u ∈ us, g.Unfolds u.value u := by
  induction h with
  | nil => exact ⟨[], rfl, rfl, List.forall_mem_nil _⟩
  | cons htd _ ih =>
    obtain ⟨u, hu, hmap⟩ := htd
    obtain ⟨us, hvalues, hmaps, hunfolds⟩ := ih
    refine ⟨u :: us, ?_, ?_, List.forall_mem_cons.2 ⟨hu.root.symm ▸ hu, hunfolds⟩⟩
    · rw [List.map_cons, hu.root, hvalues]
    · rw [List.map_cons, List.map_cons, hmap, hmaps]

/-- **A node unfolds to a tree with the same labels and numbers.** -/
theorem exists_unfolds (h : f.Exchanged g) {r : Ref} {t : Rose Ref} (ht : f.Unfolds r t) :
    ∃ u, g.Unfolds r u ∧ u.map f.face = t.map f.face := by
  have hbelow : ∀ v ∈ t.children, ∀ d, f.same v.value d = true ∧ f.Acyclic d →
      ∃ u, g.Unfolds d u ∧ u.map f.face = v.map f.face := by
    rintro v hv d ⟨hsame, hd⟩
    obtain ⟨w, hw⟩ := hd.exists_unfolds
    have hfaces : w.map f.face = v.map f.face :=
      ((Rose.map_pair_eq_iff _ _).2 ((same_iff_of_unfolds (ht.child hv) hw).1 hsame)).symm
    have hsize : w.size < t.size := by
      rw [← Rose.size_map f.face, hfaces, Rose.size_map]
      exact Rose.size_lt_of_mem hv
    obtain ⟨u, hu, hmap⟩ := h.exists_unfolds hw
    exact ⟨u, hu, hmap.trans hfaces⟩
  have hchildren : List.Forall₂ (fun v d => ∃ u, g.Unfolds d u ∧ u.map f.face = v.map f.face)
      t.children (g.children r) := by
    have hexchanged := h.children r (acyclic_iff.2 ⟨t, ht⟩)
    rw [← ht.map_value_children, List.forall₂_map_left_iff] at hexchanged
    exact ((List.forall₂_and_left _ _).2 ⟨hbelow, hexchanged⟩).imp fun v d hd => hd.1 d hd.2
  obtain ⟨us, hvalues, hmaps, hunfolds⟩ := exists_unfolds_each hchildren
  refine ⟨.node r us, Unfolds.node hvalues hunfolds, ?_⟩
  obtain ⟨a, ts⟩ := t
  obtain rfl : a = r := ht.root
  rw [Rose.map_node, Rose.map_node]
  exact congrArg _ hmaps
termination_by t.size

/-- Replacing does not make a node come to be below itself. -/
theorem acyclic (h : f.Exchanged g) (hr : f.Acyclic r) : g.Acyclic r := by
  obtain ⟨t, ht⟩ := hr.exists_unfolds
  obtain ⟨u, hu, -⟩ := h.exists_unfolds ht
  exact acyclic_iff.2 ⟨u, hu⟩

/-- **The flat form of a node stays.** -/
theorem flat_eq (h : f.Exchanged g) (hr : f.Acyclic r) : g.flat r = f.flat r := by
  obtain ⟨t, ht⟩ := hr.exists_unfolds
  obtain ⟨u, hu, hmap⟩ := h.exists_unfolds ht
  rw [hu.flat_eq, ht.flat_eq, h.face_eq, hmap]

end Exchanged

/-- A node is equal to itself. -/
theorem same_self (f : Forest) (r : Ref) : f.same r r = true := by
  have hroot : (f.position r).1 = r := rfl
  rw [same, sameFrom, if_pos hroot, sameFrom]

/-- A node that is given other children has these. -/
theorem children_setChildren (f : Forest) (p q : Ref) (cs : List Ref) :
    (f.setChildren p cs).children q
      = if p = q ∧ q < f.cells.size then cs else f.children q := by
  rw [children, setChildren, getElem?_modify]
  by_cases hpq : p = q
  · by_cases hq : q < f.cells.size
    · rw [if_pos hpq, if_pos ⟨hpq, hq⟩, Array.getElem?_eq_getElem hq]
      rfl
    · rw [if_pos hpq, if_neg fun h => hq h.2, children_of_size_le (Nat.le_of_not_lt hq),
        Array.getElem?_eq_none (Nat.le_of_not_lt hq)]
      rfl
  · rw [if_neg hpq, if_neg fun h => hpq h.1]
    rfl

/-- **Giving a node an equal subtree in place of one it had.** -/
theorem exchanged_setChildren {p c d : Ref} {i : Nat} (hc : (f.children p)[i]? = some c)
    (hd : f.Acyclic d) (hsame : f.same c d = true) :
    f.Exchanged (f.setChildren p ((f.children p).set i d)) where
  label q := f.label_modify p q fun _ => rfl
  postOrderId q := f.bind_getElem?_modify p q fun _ => rfl
  children q hq := by
    have hself : ∀ e ∈ f.children q, f.same e e = true ∧ f.Acyclic e := fun e he =>
      ⟨f.same_self e, hq.child he⟩
    rw [children_setChildren]
    split
    next hpq =>
      obtain ⟨rfl, -⟩ := hpq
      refine List.forall₂_iff_get.2 ⟨List.length_set.symm, fun j hj hj' => ?_⟩
      rw [List.get_eq_getElem, List.get_eq_getElem, List.getElem_set]
      split
      next hij =>
        subst hij
        obtain rfl : c = (f.children p)[i] :=
          Option.some.inj (hc.symm.trans (List.getElem?_eq_getElem hj))
        exact ⟨hsame, hd⟩
      next => exact hself _ (List.getElem_mem hj)
    next => exact List.forall₂_same.2 hself

/-- **Equality of trees is equality of flat forms.** The flat form of an acyclic node is its own
entry followed by the flat forms of its children. Any two acyclic nodes of a forest are equal if
and only if they have the same flat form, and comparing them comes to an end without a bound on
how far it goes down. So equality of acyclic nodes is an equivalence; and if subtrees are
replaced by equal ones, in place of one child of one node or anywhere, acyclic nodes stay acyclic
and those that were equal are the same as before, whatever parents and sizes the nodes have. -/
theorem same_iff_flat (f : Forest) :
    (∀ r, f.Acyclic r → f.flat r = (f.label r, (f.children r).length, f.postOrderId r)
        :: (f.children r).flatMap f.flat)
      ∧ (∀ r s, f.Acyclic r → f.Acyclic s → (f.same r s = true ↔ f.flat r = f.flat s)
        ∧ f.compareFrom [(r, s)] = some (f.same r s))
      ∧ Equivalence (fun r s : {r // f.Acyclic r} => f.same r s = true)
      ∧ (∀ g, f.Exchanged g → ∀ r s, f.Acyclic r → f.Acyclic s →
        g.Acyclic r ∧ g.Acyclic s ∧ g.same r s = f.same r s)
      ∧ ∀ p i c d, (f.children p)[i]? = some c → f.Acyclic d → f.same c d = true →
        f.Exchanged (f.setChildren p ((f.children p).set i d)) := by
  have hflat : ∀ (f : Forest) r s, f.Acyclic r → f.Acyclic s →
      (f.same r s = true ↔ f.flat r = f.flat s) := by
    intro f r s hr hs
    obtain ⟨t, ht⟩ := hr.exists_unfolds
    obtain ⟨u, hu⟩ := hs.exists_unfolds
    exact ht.same_iff_flat_eq hu
  refine ⟨fun r hr => hr.flat_eq, fun r s hr hs => ⟨hflat f r s hr hs, ?_⟩, ?_, ?_,
    fun p i c d => exchanged_setChildren⟩
  · obtain ⟨t, ht⟩ := hr.exists_unfolds
    have hstack : ∀ entry ∈ [(f.position r, s)], ∃ t, f.UnfoldsAt entry.1 t :=
      List.forall_mem_singleton.2 ⟨t, ht.unfoldsAt⟩
    exact compareFrom_eq hstack
  · constructor
    · exact fun r => (hflat f r r r.2 r.2).2 rfl
    · exact fun {r s} h => (hflat f s r s.2 r.2).2 ((hflat f r s r.2 s.2).1 h).symm
    · exact fun {r s t} h h' => (hflat f r t r.2 t.2).2
        (((hflat f r s r.2 s.2).1 h).trans ((hflat f s t s.2 t.2).1 h'))
  · intro g hg r s hr hs
    refine ⟨hg.acyclic hr, hg.acyclic hs, ?_⟩
    rw [Bool.eq_iff_iff, hflat g r s (hg.acyclic hr) (hg.acyclic hs), hflat f r s hr hs,
      hg.flat_eq hr, hg.flat_eq hs]

/-- A node over a node that was made after it, and a copy of it. In place of its child it may get
that of the copy, which is then shared. -/
theorem same_iff_flat_shared :
    let made := (((empty.make "3" [] none).2.make "2" [] none).2.make "2" [] none).2
    let f := (made.make "3" [2] none).2.setChildren 0 [1]
    f.Acyclic 0 ∧ f.Acyclic 3 ∧ f.flat 0 = [("3", 1, none), ("2", 0, none)]
      ∧ f.compareFrom [(0, 3)] = some true ∧ (f.setChildren 0 [2]).same 0 3 = true := by
  intro made f
  have hleaf : ∀ r, f.children r = [] → f.Acyclic r := fun r hr =>
    acyclic_iff.2 ⟨.node r [], Unfolds.node hr.symm (List.forall_mem_nil _)⟩
  have hover : ∀ r c, f.children r = [c] → f.children c = [] → f.Acyclic r := fun r c hr hc =>
    acyclic_iff.2 ⟨.node r [.node c []], Unfolds.node hr.symm
      (List.forall_mem_singleton.2 (Unfolds.node hc.symm (List.forall_mem_nil _)))⟩
  have h0 : f.Acyclic 0 := hover 0 1 rfl rfl
  have h3 : f.Acyclic 3 := hover 3 2 rfl rfl
  obtain ⟨hflat, hsame, -, hexchanged, hset⟩ := same_iff_flat f
  have hflat1 : f.flat 1 = [("2", 0, none)] := hflat 1 (hleaf 1 rfl)
  have hflat2 : f.flat 2 = [("2", 0, none)] := hflat 2 (hleaf 2 rfl)
  have hflat0 : f.flat 0 = [("3", 1, none), ("2", 0, none)] :=
    (hflat 0 h0).trans (congrArg (List.cons _) ((List.flatMap_singleton _ _).trans hflat1))
  have hflat3 : f.flat 3 = [("3", 1, none), ("2", 0, none)] :=
    (hflat 3 h3).trans (congrArg (List.cons _) ((List.flatMap_singleton _ _).trans hflat2))
  have h03 : f.same 0 3 = true := (hsame 0 3 h0 h3).1.2 (hflat0.trans hflat3.symm)
  have h12 : f.same 1 2 = true :=
    (hsame 1 2 (hleaf 1 rfl) (hleaf 2 rfl)).1.2 (hflat1.trans hflat2.symm)
  refine ⟨h0, h3, hflat0, (hsame 0 3 h0 h3).2.trans (congrArg some h03), ?_⟩
  exact (hexchanged _ (hset 0 0 1 2 rfl (hleaf 2 rfl) h12) 0 3 h0 h3).2.2.trans h03

end Forest

end HashConsing
