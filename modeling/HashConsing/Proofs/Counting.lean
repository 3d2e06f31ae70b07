import HashConsing.Proofs.Walking

/-!
# Counting the nodes of trees

The number of nodes of a tree is counted on a walk over the nodes that hold it, and
remembered at every node. The count is right if what is remembered already is right:
`Forest.Holds.size_eq`. Nothing is remembered of a tree that has just been planted
(`Forest.fresh_plant`), so the canonical ids of a labeled tree that is handed out are read
off its nodes in the order of the tree, each as often as it occurs:
`Forest.postOrderIds_plantIds`.
-/

namespace HashConsing

namespace Forest

/-! ## Changing nodes -/

section Changing

variable (f : Forest)

/-- What becomes of a node when one is changed. -/
theorem getElem?_modify (r q : Ref) (change : Cell → Cell) :
    (f.modify r change).cells[q]? = if r = q then f.cells[q]?.map change else f.cells[q]? := by
  unfold modify
  exact Array.getElem?_modify

/-- **What a change leaves alone on a node stays the same on every node**, -/
theorem map_getElem?_modify {α : Type} {get : Cell → α} (r q : Ref) {change : Cell → Cell}
    (hchange : ∀ cell, get (change cell) = get cell) :
    (f.modify r change).cells[q]?.map get = f.cells[q]?.map get := by
  rw [getElem?_modify]
  split
  · rw [Option.map_map]
    exact congrArg (Option.map · f.cells[q]?) (funext hchange)
  · rfl

/-- also what may be missing. -/
theorem bind_getElem?_modify {α : Type} {get : Cell → Option α} (r q : Ref) {change : Cell → Cell}
    (hchange : ∀ cell, get (change cell) = get cell) :
    (f.modify r change).cells[q]?.bind get = f.cells[q]?.bind get := by
  rw [getElem?_modify]
  split
  · rw [Option.bind_map]
    exact congrArg (Option.bind f.cells[q]?) (funext hchange)
  · rfl

theorem label_modify (r q : Ref) {change : Cell → Cell}
    (hchange : ∀ cell, (change cell).label = cell.label) :
    (f.modify r change).label q = f.label q :=
  congrArg (Option.getD · "") (f.map_getElem?_modify r q hchange)

theorem children_modify (r q : Ref) {change : Cell → Cell}
    (hchange : ∀ cell, (change cell).children = cell.children) :
    (f.modify r change).children q = f.children q :=
  congrArg (Option.getD · []) (f.map_getElem?_modify r q hchange)

theorem size?_modify (r q : Ref) {change : Cell → Cell}
    (hchange : ∀ cell, (change cell).size = cell.size) :
    (f.modify r change).size? q = f.size? q :=
  f.bind_getElem?_modify r q hchange

/-- Remembering a parent changes no children. -/
theorem children_setParent (r parent q : Ref) :
    (f.setParent r parent).children q = f.children q :=
  f.children_modify r q fun _ => rfl

/-- Remembering a parent changes no size that is remembered. -/
theorem size?_setParent (r parent q : Ref) : (f.setParent r parent).size? q = f.size? q :=
  f.size?_modify r q fun _ => rfl

/-- Remembering a size keeps what is written on the nodes. -/
theorem keeps_setSize (r : Ref) (n : Nat) : f.Keeps (f.setSize r n) := by
  intro q cell hq
  unfold setSize
  rw [getElem?_modify, hq]
  split
  · exact ⟨_, rfl, rfl, rfl, rfl⟩
  · exact ⟨cell, rfl, rfl, rfl, rfl⟩

/-- The size remembered of one node is that of no other. -/
theorem size?_setSize {r : Ref} (hr : r < f.cells.size) (n : Nat) (q : Ref) :
    (f.setSize r n).size? q = if r = q then some n else f.size? q := by
  unfold setSize size?
  rw [getElem?_modify]
  split
  next hrq =>
    rw [← hrq, Array.getElem?_eq_getElem hr]
    rfl
  next => rfl

end Changing

/-! ## Counting -/

section Counting

variable {α : Type} {name : α → String × Option Int} {f : Forest} {S : Ref → Prop}

/-- Nodes keep their children as long as they keep what is written on them. -/
theorem Keeps.children_eq {g : Forest} (h : f.Keeps g) {r : Ref} (hr : r < f.cells.size) :
    g.children r = f.children r := by
  have hcell := Array.getElem?_eq_getElem hr
  obtain ⟨cell, hg, -, hc, -⟩ := h r _ hcell
  unfold children
  rw [hg, hcell]
  exact hc

variable (f name S) in
/-- **What is remembered is right**: the sizes that some nodes remember are those of the
trees they hold. -/
def RemembersRight (g : Forest) : Prop :=
  ∀ r (t : Rose α), S r → f.Holds name r t → ∀ n, g.size? r = some n → n = t.size

variable (f name S) in
/-- **Further on in a count**: more sizes may be remembered, but what is written on the
nodes of the forest at the start is still there, and what is remembered is right. -/
structure Further (g h : Forest) : Prop where
  keeps : f.Keeps h
  right : f.RemembersRight name S h
  remembers : ∀ r n, g.size? r = some n → h.size? r = some n

theorem Further.trans {g h i : Forest} (hgh : f.Further name S g h) (hhi : f.Further name S h i) :
    f.Further name S g i :=
  ⟨hhi.keeps, hhi.right, fun r n hn => hhi.remembers r n (hgh.remembers r n hn)⟩

/-- **Counting a node** whose children have been counted. -/
theorem further_countNode (hname : Function.Injective name) {g : Forest} (hkeeps : f.Keeps g)
    (hright : f.RemembersRight name S g) {r : Ref} {t : Rose α} (hr : S r)
    (ht : f.Holds name r t)
    (hchildren : (f.children r).map g.size? = t.children.map fun u => some u.size) :
    f.Further name S g (g.countNode r) ∧ (g.countNode r).size? r = some t.size := by
  unfold countNode
  cases hsize : g.size? r with
  | some n =>
    obtain rfl := hright r t hr ht n hsize
    exact ⟨⟨hkeeps, hright, fun _ _ h => h⟩, hsize⟩
  | none =>
    have hlt : r < g.cells.size := (ht.keep hkeeps).lt_size
    have hcount : 1 + ((g.children r).map fun c => (g.size? c).getD 0).sum = t.size := by
      have hsizes : (f.children r).map (fun c => (g.size? c).getD 0)
          = t.children.map Rose.size := by
        simpa [Function.comp_def] using congrArg (List.map (Option.getD · 0)) hchildren
      obtain ⟨a, ts⟩ := t
      rw [hkeeps.children_eq ht.lt_size, hsizes, Rose.size_node]
      rfl
    rw [hcount]
    refine ⟨⟨hkeeps.trans (g.keeps_setSize r _), ?_, ?_⟩, ?_⟩
    · intro q u hq hu n hn
      rw [g.size?_setSize hlt] at hn
      by_cases hrq : r = q
      · subst hrq
        rw [if_pos rfl] at hn
        rw [hu.unique hname ht, Option.some.inj hn]
      · rw [if_neg hrq] at hn
        exact hright q u hq hu n hn
    · intro q n hn
      rw [g.size?_setSize hlt, if_neg, hn]
      rintro rfl
      rw [hsize] at hn
      cases hn
    · rw [g.size?_setSize hlt, if_pos rfl]

mutual

/-- **Counting a whole tree** on a walk over the nodes that hold it. -/
theorem further_count (hname : Function.Injective name)
    (hS : ∀ r, S r → ∀ c ∈ f.children r, S c) :
    ∀ (t : Rose α) (p : Ref × Nat) (g : Forest), f.HoldsAt name p t → S p.1 → f.Keeps g →
    f.RemembersRight name S g →
    let h := ((f.branching.postorder p).map Prod.fst).foldl countNode g
    f.Further name S g h ∧ h.size? p.1 = some t.size
  | .node a ts, p, g, hp, hr, hkeeps, hright => by
    have hbelow : (f.branching.children p).map Prod.fst = f.children p.1 := hp.map_fst_children
    have hchildren : ∀ q ∈ f.branching.children p, S q.1 := fun q hq =>
      hS _ hr _ (hbelow ▸ List.mem_map_of_mem hq)
    obtain ⟨hfurther, hsizes⟩ :=
      further_count_children hname hS ts _ g hp.children hchildren hkeeps hright
    rw [Branching.postorder_eq, List.map_append, List.foldl_append]
    refine (further_countNode hname hfurther.keeps hfurther.right hr hp.2 ?_).imp_left
      hfurther.trans
    rw [← hbelow, List.map_map]
    exact hsizes

/-- Counting some trees, from left to right. -/
theorem further_count_children (hname : Function.Injective name)
    (hS : ∀ r, S r → ∀ c ∈ f.children r, S c) :
    ∀ (ts : List (Rose α)) (ps : List (Ref × Nat)) (g : Forest),
    List.Forall₂ (f.HoldsAt name) ps ts → (∀ p ∈ ps, S p.1) → f.Keeps g →
    f.RemembersRight name S g →
    let h := ((ps.flatMap f.branching.postorder).map Prod.fst).foldl countNode g
    f.Further name S g h ∧ ps.map (fun p => h.size? p.1) = ts.map fun t => some t.size
  | [], _, g, .nil, _, hkeeps, hright => ⟨⟨hkeeps, hright, fun _ _ h => h⟩, rfl⟩
  | t :: ts, p :: ps, g, .cons hp hps, hr, hkeeps, hright => by
    obtain ⟨hr, hrs⟩ := List.forall_mem_cons.1 hr
    obtain ⟨hfirst, hsize⟩ := further_count hname hS t p g hp hr hkeeps hright
    obtain ⟨hrest, hsizes⟩ :=
      further_count_children hname hS ts ps _ hps hrs hfirst.keeps hfirst.right
    rw [List.flatMap_cons, List.map_append, List.foldl_append]
    refine ⟨hfirst.trans hrest, ?_⟩
    rw [List.map_cons, List.map_cons, hsizes, hrest.remembers _ _ hsize]

end

/-- **The size of a node that holds a tree is that of the tree**, if what is remembered
of it and of the nodes below is right. -/
theorem Holds.size_eq (hname : Function.Injective name)
    (hS : ∀ r, S r → ∀ c ∈ f.children r, S c) {r : Ref} {t : Rose α} (h : f.Holds name r t)
    (hr : S r) (hright : f.RemembersRight name S f) :
    (f.size r).1 = t.size ∧ f.Keeps (f.size r).2 := by
  unfold size
  cases hsize : f.size? r with
  | some n => exact ⟨hright r t hr h n hsize, .refl f⟩
  | none =>
    have hat : f.HoldsAt name (f.position r) t := ⟨Nat.le_of_lt h.lt_size, h⟩
    obtain ⟨hfurther, hcount⟩ :=
      further_count hname hS t (f.position r) f hat hr (.refl f) hright
    refine ⟨?_, hfurther.keeps⟩
    show (((f.postorder r).foldl countNode f).size? r).getD 0 = t.size
    rw [Forest.postorder]
    exact congrArg (Option.getD · 0) hcount

end Counting

/-! ## Reading ids -/

section Ids

variable {f : Forest}

/-- The id of a node is read off its label, -/
theorem id_of_label {r : Ref} {n : Nat} (hlabel : f.label r = toString n) (hn : n < 2 ^ 63) :
    f.id r = .ok n := by
  have hread : n < Text.integerBound := Nat.lt_of_lt_of_le hn (Text.le_integerBound (by decide))
  rw [Forest.id, hlabel, Text.readInteger_toString hread]

/-- also as a word. -/
theorem wordId_of_label {r : Ref} {n : Nat} (hlabel : f.label r = toString n) (hn : n < 2 ^ 63) :
    f.wordId r = .ok n := by
  have hleast : Int64.minValue.toInt ≤ n := Int.le_trans (by decide) (Int.natCast_nonneg n)
  have hgreatest : (n : Int) ≤ Int64.maxValue.toInt := Int.le_of_lt_add_one (Int.ofNat_lt.2 hn)
  rw [Forest.wordId, id_of_label hlabel hn]
  exact if_pos ⟨hleast, hgreatest⟩

/-- Words are read off some nodes if they are read off each of them. -/
theorem mapM_wordId {rs : List Ref} {Ts : List (Rose Nat)}
    (h : List.Forall₂ (fun r T => f.wordId r = .ok (T.value : Int)) rs Ts) :
    rs.mapM f.wordId = .ok (Ts.map fun T => (T.value : Int)) := by
  induction h with
  | nil => rfl
  | cons hr _ ih =>
    rw [List.mapM_cons, hr, ih]
    rfl

/-- **The ids of a labeled tree are read off nodes with its labels**, if there are as many. -/
theorem postOrderIds_of_labels {r : Ref} {T : Rose Nat} (hsize : (f.size r).1 = T.size)
    (hlabels : List.Forall₂ (fun n U => (f.size r).2.label n = U.label)
      ((f.size r).2.postorderTake T.size r) T.postorder)
    (hT : ∀ id ∈ T.ids, id < 2 ^ 63) : (f.postOrderIds r).1 = .ok (T.ids.map Int.ofNat) := by
  have hwords : List.Forall₂ (fun n U => (f.size r).2.wordId n = .ok (U.value : Int))
      ((f.size r).2.postorderTake T.size r) T.postorder := by
    have hvalues : ∀ U ∈ T.postorder, U.value < 2 ^ 63 := fun U hU =>
      hT _ (List.mem_map_of_mem hU)
    have hboth := (List.forall₂_and_left _ _).2 ⟨hvalues, hlabels.flip⟩
    exact hboth.flip.imp fun n U hn => wordId_of_label hn.2 hn.1
  unfold Forest.postOrderIds
  show ((((f.size r).2.postorderTake (f.size r).1 r).mapM (f.size r).2.wordId).bind _) = _
  rw [hsize, mapM_wordId hwords]
  show (if _ then _ else _) = _
  rw [if_neg]
  · rw [Rose.ids, List.map_map]
    rfl
  · rw [List.length_map, T.length_postorder]
    exact Nat.lt_irrefl _

/-- The beginning of a walk over a node that holds a tree is as long as the tree. -/
theorem Holds.postorderTake {r : Ref} {T : Rose Nat} (h : f.Holds idName r T) :
    List.Forall₂ (f.Holds idName) (f.postorderTake T.size r) T.postorder := by
  have hat : f.HoldsAt idName (r, (T.size + 1) * f.cells.size) T :=
    ⟨Nat.le_trans (Nat.le_of_lt h.lt_size) (Nat.le_mul_of_pos_left _ (Nat.succ_pos _)), h⟩
  have hwalk := hat.postorder
  unfold Forest.postorderTake
  rw [Branching.postorderTake_eq, List.forall₂_map_left_iff,
    List.take_of_length_le (by rw [hwalk.length_eq, T.length_postorder])]
  exact hwalk.imp fun _ _ hp => hp.2

/-- **The ids of a labeled tree are read off its nodes**, children first. -/
theorem Holds.postOrderIds {S : Ref → Prop} (hS : ∀ r, S r → ∀ c ∈ f.children r, S c) {r : Ref}
    {T : Rose Nat} (h : f.Holds idName r T) (hr : S r)
    (hright : f.RemembersRight idName S f) (hT : ∀ id ∈ T.ids, id < 2 ^ 63) :
    (f.postOrderIds r).1 = .ok (T.ids.map Int.ofNat) := by
  obtain ⟨hsize, hkeeps⟩ := h.size_eq idName_injective hS hr hright
  have hnodes := (h.keep hkeeps).postorderTake
  exact postOrderIds_of_labels hsize (hnodes.imp fun n U hn => congrArg Prod.fst hn.name_eq) hT

end Ids

/-! ## Trees that have just been planted -/

section Planting

variable {f : Forest} {bound : Nat}

variable (f bound) in
/-- **What has been made from some node on** hangs together, and no sizes are remembered
of it. -/
structure FreshFrom : Prop where
  le_size : bound ≤ f.cells.size
  children : ∀ r, bound ≤ r → ∀ c ∈ f.children r, bound ≤ c
  size? : ∀ r, bound ≤ r → f.size? r = none

/-- Nothing has been made from the next node on. -/
theorem freshFrom_size (f : Forest) : f.FreshFrom f.cells.size where
  le_size := Nat.le_refl _
  children r hr c hc := by
    rw [Forest.children, Array.getElem?_eq_none hr] at hc
    cases hc
  size? r hr := by
    rw [Forest.size?, Array.getElem?_eq_none hr]
    rfl

/-- Remembering parents keeps new nodes as they are. -/
theorem FreshFrom.foldl_setParent (h : f.FreshFrom bound) (rs : List Ref) (parent : Ref) :
    (rs.foldl (fun f r => f.setParent r parent) f).FreshFrom bound := by
  induction rs generalizing f with
  | nil => exact h
  | cons r rs ih =>
    refine ih ⟨?_, ?_, ?_⟩
    · unfold setParent modify
      rw [Array.size_modify]
      exact h.le_size
    · intro q hq c hc
      rw [children_setParent] at hc
      exact h.children q hq c hc
    · intro q hq
      rw [size?_setParent]
      exact h.size? q hq

/-- **A new node over new nodes** is new. -/
theorem FreshFrom.make (h : f.FreshFrom bound) (label : String) {children : List Ref}
    (hchildren : ∀ c ∈ children, bound ≤ c) (postOrderId : Option Int) :
    bound ≤ (f.make label children postOrderId).1
      ∧ (f.make label children postOrderId).2.FreshFrom bound := by
  refine ⟨h.le_size, FreshFrom.foldl_setParent ⟨?_, ?_, ?_⟩ children f.cells.size⟩
  · rw [Array.size_push]
    exact Nat.le_succ_of_le h.le_size
  · intro r hr c hc
    rw [Forest.children, Array.getElem?_push] at hc
    split at hc
    · exact hchildren c hc
    · exact h.children r hr c hc
  · intro r hr
    rw [Forest.size?, Array.getElem?_push]
    split
    · rfl
    · exact h.size? r hr

variable {α : Type} (name : α → String × Option Int)

/-- Planting nodes of subtrees on new nodes makes new nodes. -/
theorem FreshFrom.foldl_plantNode (ts : List (Rose α)) (stack : List Ref)
    (h : f.FreshFrom bound) (hstack : ∀ r ∈ stack, bound ≤ r) :
    let planted := ts.foldl (plantNode name) (stack, f)
    planted.2.FreshFrom bound ∧ ∀ r ∈ planted.1, bound ≤ r := by
  induction ts generalizing stack f with
  | nil => exact ⟨h, hstack⟩
  | cons t ts ih =>
    have htaken : ∀ c ∈ (stack.take t.children.length).reverse, bound ≤ c := fun c hc =>
      hstack c (List.mem_of_mem_take (List.mem_reverse.1 hc))
    obtain ⟨hr, hmade⟩ := h.make (name t.value).1 htaken (name t.value).2
    refine ih _ hmade (List.forall_mem_cons.2 ⟨hr, fun r hrest => ?_⟩)
    exact hstack r (List.mem_of_mem_drop hrest)

/-- **A tree is planted with new nodes**, of which nothing is remembered. -/
theorem fresh_plant (f : Forest) (t : Rose α) :
    (f.plant name t).2.FreshFrom f.cells.size ∧ f.cells.size ≤ (f.plant name t).1 := by
  obtain ⟨r, g, hfold, -⟩ := Forest.foldl_plantNode t [] f
  have hfresh := FreshFrom.foldl_plantNode name t.postorder [] f.freshFrom_size (by simp)
  unfold plant
  rw [hfold] at hfresh ⊢
  exact ⟨hfresh.1, hfresh.2 r List.mem_cons_self⟩

/-- **The ids of a labeled tree that has just been handed out** are read off its nodes,
children first. -/
theorem postOrderIds_plantIds (f : Forest) {T : Rose Nat} (hT : ∀ id ∈ T.ids, id < 2 ^ 63) :
    ((f.plantIds T).2.postOrderIds (f.plantIds T).1).1 = .ok (T.ids.map Int.ofNat) := by
  obtain ⟨hfresh, hr⟩ := fresh_plant idName f T
  refine (holds_plant idName f T).2.postOrderIds hfresh.children hr ?_ hT
  intro r t hr _ n hn
  rw [hfresh.size? r hr] at hn
  cases hn

end Planting

end Forest

end HashConsing
