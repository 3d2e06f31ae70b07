import HashConsing.Proofs.Construction

/-!
# Numbers in the order of a walk

The nodes of a tree are numbered on a walk, children first. A node that the walk comes to
several times keeps its last number, so what a node is numbered with is read off the last
place it has in the walk (`Forest.cells_numberFrom`), whatever number it had before.

If each node has one place only, numbers and nodes determine each other: a search for a number
finds the one node that has it, and what is below a node has the numbers that end in the one of
the node, without gaps. The latter holds because what is below a node stands together in the
walk.
-/

namespace HashConsing

/-! ## The two walks -/

/-- **The two walks come to the same positions**, each as often. -/
theorem Branching.preorder_perm_postorder {α : Type} (b : Branching α) (a : α) :
    (b.preorder a).Perm (b.postorder a) := by
  have hchildren : ∀ c ∈ b.children a, (b.preorder c).Perm (b.postorder c) := fun c hc =>
    preorder_perm_postorder b c
  rw [preorder_eq, postorder_eq]
  exact (List.Perm.cons a (List.Perm.flatMap_left _ hchildren)).trans
    (List.perm_append_singleton _ _).symm
termination_by b.weight a
decreasing_by exact weight_lt_of_mem hc

/-! ## The last place in a list -/

/-- **The last index of an entry of a list**, none if it is no entry. -/
def lastIndex? (q : Ref) : List Ref → Option Nat
  | [] => none
  | n :: ns => ((lastIndex? q ns).map (· + 1)).or (if n = q then some 0 else none)

theorem lastIndex?_eq_none_iff {q : Ref} {ns : List Ref} : lastIndex? q ns = none ↔ q ∉ ns := by
  induction ns with
  | nil => simp [lastIndex?]
  | cons n ns ih =>
    rw [lastIndex?, Option.or_eq_none_iff, Option.map_eq_none_iff, ih, List.mem_cons, not_or,
      and_comm, eq_comm (a := q)]
    by_cases hnq : n = q <;> simp [hnq]

/-- **After its last index an entry does not occur.** -/
theorem lastIndex?_eq_some {q : Ref} {ns : List Ref} {k : Nat} (hk : ns[k]? = some q)
    (hlast : ∀ j, k < j → ns[j]? ≠ some q) : lastIndex? q ns = some k := by
  induction ns generalizing k with
  | nil => cases hk
  | cons n ns ih =>
    cases k with
    | zero =>
      have hnot : q ∉ ns := by
        intro hq
        obtain ⟨j, hj⟩ := List.getElem?_of_mem hq
        exact hlast (j + 1) (Nat.succ_pos j) hj
      cases hk
      simp [lastIndex?, lastIndex?_eq_none_iff.2 hnot]
    | succ k =>
      have hlast' : ∀ j, k < j → ns[j]? ≠ some q := fun j hj =>
        hlast (j + 1) (Nat.succ_lt_succ hj)
      simp [lastIndex?, ih hk hlast']

namespace Forest

variable {f g : Forest} {r : Ref}

theorem preorder_perm_postorder (f : Forest) (r : Ref) : (f.preorder r).Perm (f.postorder r) :=
  (f.branching.preorder_perm_postorder (f.position r)).map Prod.fst

/-- A search finds the first wanted node of the walk with parents first. -/
theorem map_snd_first? (f : Forest) (r : Ref) (wanted : Ref → Bool) :
    (f.first? r wanted).map Prod.snd = (f.preorder r).find? wanted := by
  rw [first?, Branching.first?_eq, preorder, List.find?_map, Option.map_map, Option.map_map]
  rfl

/-! ## Giving numbers -/

/-- **Numbers some nodes**, one after the other. The next number comes with the forest. -/
def numberFrom (qs : List Ref) (start : Int) (f : Forest) : Int × Forest :=
  qs.foldl (fun (n, f) q => (n + 1, f.setPostOrderId q (some n))) (start, f)

theorem number_eq (f : Forest) (r : Ref) (start : Int) :
    f.number r start = numberFrom (f.postorder r) start f := rfl

/-- As many numbers are used as there are nodes to number. -/
theorem numberFrom_fst (qs : List Ref) (start : Int) (f : Forest) :
    (numberFrom qs start f).1 = start + qs.length := by
  induction qs generalizing start f with
  | nil => exact (Int.add_zero start).symm
  | cons q qs ih =>
    rw [numberFrom, List.foldl_cons, ← numberFrom, ih, List.length_cons]
    omega

/-- The number of the last place of a node among those that are numbered. -/
def lastNumber? (qs : List Ref) (start : Int) (q : Ref) : Option Int :=
  (lastIndex? q qs).map fun k : Nat => start + (k : Int)

theorem lastNumber?_cons (n : Ref) (qs : List Ref) (start : Int) (q : Ref) :
    lastNumber? (n :: qs) start q
      = (lastNumber? qs (start + 1) q).or (if n = q then some start else none) := by
  have hnext : ∀ k : Nat, start + ((k + 1 : Nat) : Int) = start + 1 + (k : Int) := fun k => by
    omega
  unfold lastNumber?
  rw [lastIndex?]
  cases lastIndex? q qs with
  | some k => exact congrArg some (hnext k)
  | none => by_cases hnq : n = q <;> simp [hnq]

/-- A node that gets a number, or keeps its own if it gets none. -/
def renumbered (number : Option Int) (cell : Cell) : Cell :=
  { cell with postOrderId := number.or cell.postOrderId }

/-- Of two numbers a node keeps the later one. -/
theorem map_renumbered_map_renumbered (first second : Option Int) (cell : Option Cell) :
    (cell.map (renumbered first)).map (renumbered second)
      = cell.map (renumbered (second.or first)) := by
  rw [Option.map_map]
  refine congrArg (Option.map · cell) (funext fun c => ?_)
  simp only [Function.comp_apply, renumbered, Option.or_assoc]

/-- **Numbering gives each node the number of its last place**, and changes nothing else. -/
theorem cells_numberFrom (qs : List Ref) (start : Int) (f : Forest) (q : Ref) :
    (numberFrom qs start f).2.cells[q]?
      = f.cells[q]?.map (renumbered (lastNumber? qs start q)) := by
  induction qs generalizing start f with
  | nil => exact (congrFun Option.map_id f.cells[q]?).symm
  | cons n qs ih =>
    have hfirst : (f.setPostOrderId n (some start)).cells[q]?
        = f.cells[q]?.map (renumbered (if n = q then some start else none)) := by
      rw [setPostOrderId, getElem?_modify]
      by_cases hnq : n = q
      · rw [if_pos hnq, if_pos hnq]
        rfl
      · rw [if_neg hnq, if_neg hnq]
        exact (congrFun Option.map_id f.cells[q]?).symm
    rw [numberFrom, List.foldl_cons, ← numberFrom, ih, hfirst, map_renumbered_map_renumbered,
      lastNumber?_cons]

section Number

variable (f : Forest) (r : Ref) (start : Int)

theorem cells_number (q : Ref) : (f.number r start).2.cells[q]?
    = f.cells[q]?.map (renumbered (lastNumber? (f.postorder r) start q)) :=
  cells_numberFrom _ _ _ _

theorem size_cells_number : (f.number r start).2.cells.size = f.cells.size := by
  have hsizes : ∀ (qs : List Ref) (start : Int) (f : Forest),
      (numberFrom qs start f).2.cells.size = f.cells.size := by
    intro qs
    induction qs with
    | nil => exact fun _ _ => rfl
    | cons q qs ih =>
      intro start f
      rw [numberFrom, List.foldl_cons, ← numberFrom, ih]
      exact Array.size_modify
  exact hsizes _ _ _

/-- Numbering changes no children. -/
theorem children_number (q : Ref) : (f.number r start).2.children q = f.children q := by
  rw [children, cells_number, Option.map_map]
  rfl

variable {f r}

/-- **A node gets the number of its last place in the walk.** -/
theorem postOrderId_number {q : Ref} (hq : q < f.cells.size) {k : Nat}
    (hk : (f.postorder r)[k]? = some q) (hlast : ∀ j, k < j → (f.postorder r)[j]? ≠ some q) :
    (f.number r start).2.postOrderId q = some (start + k) := by
  rw [postOrderId, cells_number, lastNumber?, lastIndex?_eq_some hk hlast, Array.getElem?_eq_getElem hq]
  rfl

/-- **Numbering leaves no trace of earlier numbers.** -/
theorem number_number (hf : f.Descending) (hr : r < f.cells.size) (start' : Int) :
    ((f.number r start).2.number r start').2 = (f.number r start').2 := by
  have hwalk : (f.number r start).2.postorder r = f.postorder r :=
    hf.postorder_congr (fun q _ => f.children_number r start q) hr
      (f.size_cells_number r start ▸ hr)
  refine congrArg Forest.mk (Array.ext_getElem? fun q => ?_)
  rw [cells_number, cells_number, cells_number, hwalk, map_renumbered_map_renumbered]
  -- Whether a node is numbered does not depend on where the numbers start.
  have hlater : (lastNumber? (f.postorder r) start' q).or (lastNumber? (f.postorder r) start q)
      = lastNumber? (f.postorder r) start' q := by
    unfold lastNumber?
    cases lastIndex? q (f.postorder r) <;> rfl
  rw [hlater]

end Number

/-! ## Trees with each node once -/

variable (f g r) in
/-- **The nodes below a node are numbered without gaps** from a start on, and found again by
their numbers. -/
structure NumberedFrom (start : Int) : Prop where
  /-- Numbers go up along the walk. -/
  number : ∀ (k : Nat) q, (f.postorder r)[k]? = some q → g.postOrderId q = some (start + k)
  /-- A search for a number that was given finds the node that got it. -/
  find : ∀ (k : Nat) q, (f.postorder r)[k]? = some q →
    (g.findPostOrderId r (some (start + k))).map Prod.snd = some q
  /-- There is nothing to be found under any other number. -/
  find_outside : ∀ j : Int, j < start ∨ start + (f.size r).1 ≤ j →
    g.findPostOrderId r (some j) = none
  /-- There is nothing to be found under no number. -/
  find_none : g.findPostOrderId r none = none
  /-- The numbers below a node end with its own, and there are as many as the node has
  size. -/
  below : ∀ q ∈ f.postorder r, ∀ p, g.postOrderId q = some p →
    (g.postorder q).map g.postOrderId
      = (List.range (g.size q).1).map fun i : Nat => some (p - (g.size q).1 + 1 + i)

/-- A search by number finds the first node of the walk with parents first that has it. -/
theorem map_snd_findPostOrderId (g : Forest) (r : Ref) (number : Int) :
    (g.findPostOrderId r (some number)).map Prod.snd
      = (g.preorder r).find? fun q => g.postOrderId q == some number :=
  g.map_snd_first? r fun q => g.postOrderId q == some number

/-- **What is below a node has consecutive numbers**, since it stands together in the walk
that numbers go along. -/
theorem Descending.map_postOrderId_postorder (hf : f.Descending) (hr : r < f.cells.size)
    {start : Int}
    (hnumber : ∀ (k : Nat) q, (f.postorder r)[k]? = some q → g.postOrderId q = some (start + k))
    {q : Ref} (hq : q ∈ f.postorder r) {p : Int} (hp : g.postOrderId q = some p) :
    (f.postorder q).map g.postOrderId
      = (List.range (f.postorder q).length).map fun i : Nat =>
          some (p - (f.postorder q).length + 1 + i) := by
  obtain ⟨before, after, hwalk⟩ := hf.postorder_infix hr hq
  have hlt : q < f.cells.size := Nat.lt_of_le_of_lt (hf.le_of_mem_postorder hr hq) hr
  have hplace : ∀ i m, (f.postorder q)[i]? = some m →
      (f.postorder r)[before.length + i]? = some m := by
    intro i m hi
    have hilt := (List.getElem?_eq_some_iff.1 hi).1
    rw [← hwalk, List.append_assoc, List.getElem?_append_right (Nat.le_add_right _ _),
      Nat.add_sub_cancel_left, List.getElem?_append_left hilt, hi]
  -- The node itself comes last.
  have hlast : (f.postorder q)[(f.postorder q).length - 1]? = some q := by
    rw [hf.postorder_eq hlt, List.length_append, List.length_singleton, Nat.add_sub_cancel]
    exact List.getElem?_concat_length
  have hpos : 0 < (f.postorder q).length := by
    rw [hf.postorder_eq hlt, List.length_append, List.length_singleton]
    exact Nat.succ_pos _
  have hp : p = start + ((before.length + ((f.postorder q).length - 1) : Nat) : Int) :=
    Option.some.inj (hp.symm.trans (hnumber _ q (hplace _ q hlast)))
  refine List.ext_getElem (by simp) fun i hi hi' => ?_
  have hilt : i < (f.postorder q).length := by simpa using hi
  rw [List.getElem_map, List.getElem_map, List.getElem_range,
    hnumber _ _ (hplace i _ (List.getElem?_eq_getElem hilt)), hp]
  congr 1
  omega

/-- **Numbering a tree that has each of its nodes once.** -/
theorem Built.numberedFrom (h : f.Built) (hr : r < f.cells.size) (hnodup : (f.postorder r).Nodup)
    (start : Int) : f.NumberedFrom (f.number r start).2 r start := by
  have hf := h.sound.descending
  have hwalk : ∀ q ∈ f.postorder r, (f.number r start).2.postorder q = f.postorder q :=
    fun q hq =>
      have hlt : q < f.cells.size := Nat.lt_of_le_of_lt (hf.le_of_mem_postorder hr hq) hr
      hf.postorder_congr (fun c _ => f.children_number r start c) hlt
        (f.size_cells_number r start ▸ hlt)
  have hroot : r ∈ f.postorder r := by
    rw [hf.postorder_eq hr]
    exact List.mem_append_right _ List.mem_cons_self
  have hnumber : ∀ (k : Nat) q, (f.postorder r)[k]? = some q →
      (f.number r start).2.postOrderId q = some (start + k) := by
    intro k q hk
    have hlt : q < f.cells.size :=
      Nat.lt_of_le_of_lt (hf.le_of_mem_postorder hr (List.mem_of_getElem? hk)) hr
    refine postOrderId_number start hlt hk fun j hj hj' => ?_
    have hkj := (List.getElem?_inj (List.getElem?_eq_some_iff.1 hk).1 hnodup).1 (hk.trans hj'.symm)
    omega
  -- A number determines the place in the walk, and so the node.
  have hplace : ∀ q ∈ (f.number r start).2.preorder r, ∃ k : Nat, (f.postorder r)[k]? = some q
      ∧ (f.number r start).2.postOrderId q = some (start + k) := by
    intro q hq
    have hmem : q ∈ f.postorder r :=
      hwalk r hroot ▸ ((f.number r start).2.preorder_perm_postorder r).mem_iff.1 hq
    obtain ⟨k, hk⟩ := List.getElem?_of_mem hmem
    exact ⟨k, hk, hnumber k q hk⟩
  constructor
  case number => exact hnumber
  case find =>
    intro k q hk
    rw [map_snd_findPostOrderId]
    have hmem : q ∈ (f.number r start).2.preorder r := by
      rw [((f.number r start).2.preorder_perm_postorder r).mem_iff, hwalk r hroot]
      exact List.mem_of_getElem? hk
    cases hfind : ((f.number r start).2.preorder r).find? fun m =>
        (f.number r start).2.postOrderId m == some (start + k) with
    | none =>
      have hnone := List.find?_eq_none.1 hfind q hmem
      rw [hnumber k q hk] at hnone
      simp at hnone
    | some m =>
      obtain ⟨k', hk', hm⟩ := hplace m (List.mem_of_find?_eq_some hfind)
      have hm' := List.find?_some hfind
      rw [hm, beq_iff_eq, Option.some.injEq] at hm'
      obtain rfl : k' = k := by omega
      exact hk'.symm.trans hk
  case find_outside =>
    intro j hj
    rw [← Option.map_eq_none_iff (f := Prod.snd), map_snd_findPostOrderId, List.find?_eq_none]
    intro q hq
    obtain ⟨k, hk, hnumber⟩ := hplace q hq
    have hlt := (List.getElem?_eq_some_iff.1 hk).1
    rw [← (hf.size_spec h.sound.sizesRight hr).1] at hlt
    rw [hnumber, beq_iff_eq, Option.some.injEq]
    omega
  case find_none => rfl
  case below =>
    intro q hq p hp
    have hlt : q < (f.number r start).2.cells.size := by
      rw [size_cells_number]
      exact Nat.lt_of_le_of_lt (hf.le_of_mem_postorder hr hq) hr
    have hsound := (h.number r start).sound
    rw [(hsound.descending.size_spec hsound.sizesRight hlt).1, hwalk q hq]
    exact hf.map_postOrderId_postorder hr hnumber hq hp

/-- **Numbering the nodes of a tree.** In a forest that is built by construction only, the next
number is as far from the start as the tree has size, every node gets the number of its last
place in the walk, and numbering again with another start is as if the nodes had not been
numbered before. If the tree has each of its nodes once, as labeled trees do that are handed
out, numbers have no gaps, and nodes are found by them. -/
theorem Built.number_spec (h : f.Built) (hr : r < f.cells.size) (start : Int) :
    (f.size r).1 = (f.postorder r).length ∧
      (f.number r start).1 = start + (f.size r).1 ∧
      (∀ (k : Nat) q, (f.postorder r)[k]? = some q →
        (∀ j, k < j → (f.postorder r)[j]? ≠ some q) →
          (f.number r start).2.postOrderId q = some (start + k)) ∧
      (∀ start', ((f.number r start).2.number r start').2 = (f.number r start').2) ∧
      ((f.postorder r).Nodup → f.NumberedFrom (f.number r start).2 r start) ∧
      ∀ T : Rose Nat, (f.plantIds T).2.Built ∧ (f.plantIds T).1 < (f.plantIds T).2.cells.size ∧
        ((f.plantIds T).2.postorder (f.plantIds T).1).Nodup := by
  have hf := h.sound.descending
  have hsize := (hf.size_spec h.sound.sizesRight hr).1
  refine ⟨hsize, ?_, ?_, ?_, fun hnodup => h.numberedFrom hr hnodup start, fun T => ?_⟩
  · rw [number_eq, numberFrom_fst, hsize]
  · intro k q hk hlast
    have hlt : q < f.cells.size :=
      Nat.lt_of_le_of_lt (hf.le_of_mem_postorder hr (List.mem_of_getElem? hk)) hr
    exact postOrderId_number start hlt hk hlast
  · exact fun start' => number_number start hf hr start'
  · obtain ⟨hbuilt, hroot, hwalk⟩ := h.postorder_plant idName T
    refine ⟨hbuilt, hroot, ?_⟩
    rw [plantIds, hwalk]
    exact List.nodup_range'

/-- A node over two nodes, numbered from a negative start on, and a node that has one node for
both of its children. -/
theorem number_spec_pair :
    let f := (((empty.make "3" [] none).2.make "4" [] (some 7)).2.make "5" [0, 1] none).2
    let shared := ((empty.make "3" [] none).2.make "5" [0, 0] none).2
    f.Built ∧ shared.Built ∧
      (f.number 2 (-2)).1 = -2 + (f.size 2).1 ∧
      ((f.number 2 (-2)).2.findPostOrderId 2 (some (-1))).map Prod.snd = some 1 ∧
      (shared.number 1 10).2.postOrderId 0 = some 11 := by
  intro f shared
  have hleaf : (empty.make "3" [] none).2.Built := Built.empty.make "3" (by simp) none
  have hleaves : ((empty.make "3" [] none).2.make "4" [] (some 7)).2.Built :=
    hleaf.make "4" (by simp) (some 7)
  have hf : f.Built := hleaves.make "5" (by decide) none
  have hshared : shared.Built := hleaf.make "5" (by decide) none
  have hwalk : f.postorder 2 = [0, 1, 2] := by
    have h := hf.sound.descending
    rw [h.postorder_eq (by decide), show f.children 2 = [0, 1] from rfl]
    simp only [List.flatMap_cons, List.flatMap_nil]
    rw [h.postorder_eq (r := 0) (by decide), h.postorder_eq (r := 1) (by decide)]
    rfl
  have hwalk' : shared.postorder 1 = [0, 0, 1] := by
    have h := hshared.sound.descending
    rw [h.postorder_eq (by decide), show shared.children 1 = [0, 0] from rfl]
    simp only [List.flatMap_cons, List.flatMap_nil]
    rw [h.postorder_eq (r := 0) (by decide)]
    rfl
  obtain ⟨-, hnext, -, -, honce, -⟩ := hf.number_spec (r := 2) (by decide) (-2)
  obtain ⟨-, -, hlast, -⟩ := hshared.number_spec (r := 1) (by decide) 10
  refine ⟨hf, hshared, hnext, (honce (by rw [hwalk]; decide)).find 1 1 (by rw [hwalk]; rfl), ?_⟩
  refine hlast 1 0 (by rw [hwalk']; rfl) fun j hj => ?_
  rw [hwalk']
  match j, hj with
  | 2, _ => decide
  | j + 3, _ => simp

end Forest

end HashConsing
