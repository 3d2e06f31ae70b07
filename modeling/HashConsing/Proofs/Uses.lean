import HashConsing.Proofs.FlatForms
import HashConsing.Proofs.PostOrder

/-!
# What happens to nodes

Nodes are made over nodes there are, get labels and numbers, and are asked for their sizes, in any
order and any number of times. `Forest.Use` lists what can be done, and `Forest.Later` says which
forests come of it. One thing is left out: no node is given other children.

Most of it leaves the nodes hanging together as they did (`Forest.SameLinks`); only making a node
adds to that. So what is below a node stays for ever, and a size that has been counted once is
never out of date, whatever else has been counted, numbered or made in the meantime, above the
node, below it or beside it (`Forest.Later.size_exact`).
-/

namespace HashConsing

-- Sums of numbers start from the numeral zero, whatever other zeros are around.
attribute [local instance (high)] Zero.ofOfNat0

namespace Forest

variable {f g h : Forest} {r : Ref}

/-! ## How nodes hang together -/

variable (f g) in
/-- **The same nodes hang together in the same way**, with the same parents remembered. -/
structure SameLinks : Prop where
  size_cells : g.cells.size = f.cells.size
  children : ∀ q, g.children q = f.children q
  parentRef? : ∀ q, g.parentRef? q = f.parentRef? q

namespace SameLinks

theorem refl (f : Forest) : f.SameLinks f := ⟨rfl, fun _ => rfl, fun _ => rfl⟩

theorem trans (hfg : f.SameLinks g) (hgh : g.SameLinks h) : f.SameLinks h where
  size_cells := hgh.size_cells.trans hfg.size_cells
  children q := (hgh.children q).trans (hfg.children q)
  parentRef? q := (hgh.parentRef? q).trans (hfg.parentRef? q)

/-- Changing what is neither a child nor a parent. -/
theorem modify (f : Forest) (r : Ref) {change : Cell → Cell}
    (hchildren : ∀ cell, (change cell).children = cell.children)
    (hparent : ∀ cell, (change cell).parent = cell.parent) : f.SameLinks (f.modify r change) where
  size_cells := Array.size_modify
  children q := f.children_modify r q hchildren
  parentRef? q := f.bind_getElem?_modify r q hparent

theorem setLabel (f : Forest) (r : Ref) (label : String) : f.SameLinks (f.setLabel r label) :=
  modify f r (fun _ => rfl) fun _ => rfl

theorem setPostOrderId (f : Forest) (r : Ref) (number : Option Int) :
    f.SameLinks (f.setPostOrderId r number) :=
  modify f r (fun _ => rfl) fun _ => rfl

theorem countNode (f : Forest) (r : Ref) : f.SameLinks (f.countNode r) := by
  unfold Forest.countNode
  split
  · exact refl f
  · exact modify f r (fun _ => rfl) fun _ => rfl

theorem foldl_countNode (f : Forest) (qs : List Ref) :
    f.SameLinks (qs.foldl Forest.countNode f) := by
  induction qs generalizing f with
  | nil => exact refl f
  | cons q qs ih => exact (countNode f q).trans (ih _)

/-- Counting. -/
theorem size (f : Forest) (r : Ref) : f.SameLinks (f.size r).2 := by
  unfold Forest.size
  split
  · exact refl f
  · exact foldl_countNode f _

theorem sizeOfLabel (f : Forest) (r : Ref) (label : String) :
    f.SameLinks (f.sizeOfLabel r label).2 := by
  unfold Forest.sizeOfLabel
  split
  · exact refl f
  · exact size f _

/-- Numbering. -/
theorem number (f : Forest) (r : Ref) (start : Int) : f.SameLinks (f.number r start).2 := by
  unfold Forest.number
  generalize f.postorder r = qs
  induction qs generalizing f start with
  | nil => exact refl f
  | cons q qs ih => exact (setPostOrderId f q (some start)).trans (ih _ _)

end SameLinks

/-! ## Counting what has been counted -/

/-- **Counts a node whose children have been counted**, unless it has been itself. There is no
count if a child has not been counted. -/
def countNode? (f : Forest) (r : Ref) : Option Forest :=
  match f.size? r with
  | some _ => some f
  | none => ((f.children r).mapM f.size?).map fun sizes => f.setSize r (1 + sizes.sum)

/-- **The number of nodes in a tree**, if every node is counted after its children. -/
def sizeChecked (f : Forest) (r : Ref) : Option (Nat × Forest) :=
  match f.size? r with
  | some n => some (n, f)
  | none => do
    let g ← (f.postorder r).foldlM countNode? f
    return (← g.size? r, g)

/-- The sizes of nodes that have been counted. -/
theorem mapM_size? {cs : List Ref} (h : ∀ c ∈ cs, (f.size? c).isSome) :
    cs.mapM f.size? = some (cs.map fun c => (f.size? c).getD 0) := by
  induction cs with
  | nil => rfl
  | cons c cs ih =>
    obtain ⟨hc, hcs⟩ := List.forall_mem_cons.1 h
    obtain ⟨n, hn⟩ := Option.isSome_iff_exists.1 hc
    rw [List.mapM_cons, ih hcs, List.map_cons, hn]
    rfl

theorem countNode?_eq (h : ∀ c ∈ f.children r, (f.size? c).isSome) :
    f.countNode? r = some (f.countNode r) := by
  unfold countNode? countNode
  cases f.size? r with
  | some n => rfl
  | none =>
    rw [mapM_size? h]
    rfl

/-- What has been counted stays counted, -/
theorem isSome_size?_countNode (r : Ref) {q : Ref} (h : (f.size? q).isSome) :
    ((f.countNode r).size? q).isSome := by
  unfold countNode
  split
  next => exact h
  next hr =>
    have hq : q < f.cells.size := by
      refine Nat.lt_of_not_le fun hle => ?_
      rw [size?, Array.getElem?_eq_none hle] at h
      cases h
    by_cases hrq : r = q
    · rw [size?_setSize f (hrq ▸ hq), if_pos hrq]
      rfl
    · unfold setSize size?
      rw [getElem?_modify, if_neg hrq]
      exact h

theorem isSome_size?_foldl_countNode (qs : List Ref) {q : Ref} (h : (f.size? q).isSome) :
    ((qs.foldl countNode f).size? q).isSome := by
  induction qs generalizing f with
  | nil => exact h
  | cons r qs ih => exact ih (isSome_size?_countNode r h)

/-- and a node that is there has been counted once it is counted. -/
theorem isSome_size?_countNode_self (hr : r < f.cells.size) :
    ((f.countNode r).size? r).isSome := by
  unfold countNode
  cases hsize : f.size? r with
  | some n => exact Option.isSome_of_mem hsize
  | none =>
    show ((f.setSize r _).size? r).isSome
    rw [size?_setSize f hr, if_pos rfl]
    rfl

variable (g) in
/-- **Some nodes are counted one after the other** without a child that has not been counted. -/
def CountsThrough (qs : List Ref) : Prop :=
  qs.foldlM countNode? g = some (qs.foldl countNode g)

theorem CountsThrough.append {qs qs' : List Ref} (hqs : g.CountsThrough qs)
    (hqs' : (qs.foldl countNode g).CountsThrough qs') : g.CountsThrough (qs ++ qs') := by
  unfold CountsThrough at *
  rw [List.foldlM_append, hqs, List.foldl_append]
  exact hqs'

/-- **A walk with children first counts every node after its children.** -/
theorem Descending.countsThrough_postorder (hf : f.Descending) (hr : r < f.cells.size)
    (hg : f.SameLinks g) : g.CountsThrough (f.postorder r)
      ∧ (((f.postorder r).foldl countNode g).size? r).isSome := by
  induction r using Nat.strongRecOn generalizing g with
  | ind r ih =>
    have hbelow : ∀ cs : List Ref, (∀ c ∈ cs, c < r) → ∀ {g : Forest}, f.SameLinks g →
        g.CountsThrough (cs.flatMap f.postorder)
          ∧ ∀ c ∈ cs, (((cs.flatMap f.postorder).foldl countNode g).size? c).isSome := by
      intro cs
      induction cs with
      | nil => exact fun _ g _ => ⟨rfl, List.forall_mem_nil _⟩
      | cons c cs ihcs =>
        intro hcs g hg
        obtain ⟨hc, hcs⟩ := List.forall_mem_cons.1 hcs
        obtain ⟨hfirst, hcounted⟩ := ih c hc (Nat.lt_trans hc hr) hg
        obtain ⟨hrest, hcounteds⟩ := ihcs hcs (hg.trans (.foldl_countNode g (f.postorder c)))
        rw [List.flatMap_cons, List.foldl_append]
        exact ⟨hfirst.append hrest,
          List.forall_mem_cons.2 ⟨isSome_size?_foldl_countNode _ hcounted, hcounteds⟩⟩
    obtain ⟨hchildren, hcounted⟩ := hbelow (f.children r) (hf r) hg
    have hlinks := hg.trans (.foldl_countNode g ((f.children r).flatMap f.postorder))
    rw [hf.postorder_eq hr, List.foldl_append]
    refine ⟨hchildren.append ?_, isSome_size?_countNode_self (hlinks.size_cells ▸ hr)⟩
    rw [CountsThrough, List.foldlM_cons, countNode?_eq fun c hc => hcounted c (hlinks.children r ▸ hc)]
    rfl

/-- **Counting never meets a child that has not been counted.** -/
theorem Descending.sizeChecked_eq (hf : f.Descending) (hr : r < f.cells.size) :
    f.sizeChecked r = some (f.size r) := by
  unfold sizeChecked size
  cases f.size? r with
  | some n => rfl
  | none =>
    obtain ⟨hcounts, hcounted⟩ := hf.countsThrough_postorder hr (.refl f)
    obtain ⟨n, hn⟩ := Option.isSome_iff_exists.1 hcounted
    rw [CountsThrough] at hcounts
    simp only [hcounts, hn, Option.bind_eq_bind, Option.bind_some, Option.pure_def, Option.getD_some]

/-! ## Uses -/

/-- **What can be done with nodes**, short of giving them other children. -/
inductive Use where
  | make (label : String) (children : List Ref) (postOrderId : Option Int)
  | setLabel (r : Ref) (label : String)
  | setPostOrderId (r : Ref) (postOrderId : Option Int)
  | size (r : Ref)
  | sizeOfLabel (r : Ref) (label : String)
  | number (r : Ref) (start : Int)
  | postOrderIds (r : Ref)

namespace Use

/-- The nodes it is done with. -/
def nodes : Use → List Ref
  | make _ children _ => children
  | setLabel r _ => [r]
  | setPostOrderId r _ => [r]
  | size r => [r]
  | sizeOfLabel r _ => [r]
  | number r _ => [r]
  | postOrderIds r => [r]

/-- **What it makes of a forest.** -/
def apply (f : Forest) : Use → Forest
  | make label children postOrderId => (f.make label children postOrderId).2
  | setLabel r label => f.setLabel r label
  | setPostOrderId r postOrderId => f.setPostOrderId r postOrderId
  | size r => (f.size r).2
  | sizeOfLabel r label => (f.sizeOfLabel r label).2
  | number r start => (f.number r start).2
  | postOrderIds r => (f.postOrderIds r).2

/-- **Unless a node is made, the nodes hang together as they did.** -/
theorem sameLinks_apply (f : Forest) (u : Use) :
    (∃ label children postOrderId, u = make label children postOrderId)
      ∨ f.SameLinks (u.apply f) := by
  cases u with
  | make label children postOrderId => exact .inl ⟨_, _, _, rfl⟩
  | setLabel r label => exact .inr (.setLabel f r label)
  | setPostOrderId r postOrderId => exact .inr (.setPostOrderId f r postOrderId)
  | size r => exact .inr (.size f r)
  | sizeOfLabel r label => exact .inr (.sizeOfLabel f r label)
  | number r start => exact .inr (.number f r start)
  | postOrderIds r => exact .inr (.size f r)

end Use

/-- The children of the nodes, once one has been made. -/
theorem children_make (f : Forest) (label : String) (children : List Ref)
    (postOrderId : Option Int) (q : Ref) :
    (f.make label children postOrderId).2.children q
      = if q = f.cells.size then children else f.children q := by
  have hparents : ∀ (cs : List Ref) (g : Forest) (parent : Ref),
      (cs.foldl (fun g c => g.setParent c parent) g).children q = g.children q := by
    intro cs
    induction cs with
    | nil => exact fun _ _ => rfl
    | cons c cs ih => exact fun g parent => (ih _ parent).trans (g.children_setParent c parent q)
  refine (hparents children _ f.cells.size).trans ?_
  rw [Forest.children, Array.getElem?_push]
  split <;> rfl

/-- **The children of a node stay.** -/
theorem children_apply (u : Use) (hr : r < f.cells.size) :
    (u.apply f).children r = f.children r := by
  rcases u.sameLinks_apply f with ⟨label, children, postOrderId, rfl⟩ | hlinks
  · exact (f.children_make label children postOrderId r).trans (if_neg (Nat.ne_of_lt hr))
  · exact hlinks.children r

/-- No nodes are taken away. -/
theorem size_cells_le_apply (f : Forest) (u : Use) :
    f.cells.size ≤ (u.apply f).cells.size := by
  rcases u.sameLinks_apply f with ⟨label, children, postOrderId, rfl⟩ | hlinks
  · exact f.size_cells_make label children postOrderId ▸ Nat.le_succ _
  · exact Nat.le_of_eq hlinks.size_cells.symm

/-- **What is done with nodes there are keeps a forest built by construction only.** -/
theorem Built.apply (hf : f.Built) {u : Use} (hu : ∀ r ∈ u.nodes, r < f.cells.size) :
    (u.apply f).Built := by
  cases u with
  | make label children postOrderId => exact hf.make label hu postOrderId
  | setLabel r label => exact hf.setLabel r label
  | setPostOrderId r postOrderId => exact hf.setPostOrderId r postOrderId
  | size r => exact hf.size (hu r List.mem_cons_self)
  | number r start => exact hf.number r start
  | postOrderIds r => exact hf.size (hu r List.mem_cons_self)
  | sizeOfLabel r label =>
    have hr : r < f.cells.size := hu r List.mem_cons_self
    show (f.sizeOfLabel r label).2.Built
    unfold sizeOfLabel
    cases hfind : f.findLabel r label with
    | none => exact hf
    | some found =>
      have hmem : found.2 ∈ f.preorder r := by
        refine List.mem_of_find?_eq_some (p := fun n => f.label n == label) ?_
        rw [← map_snd_first?]
        exact congrArg (Option.map Prod.snd) hfind
      have hle := hf.sound.descending.le_of_mem_postorder hr
        ((f.preorder_perm_postorder r).mem_iff.1 hmem)
      exact hf.size (Nat.lt_of_le_of_lt hle hr)

variable (f) in
/-- **What a forest comes to** in the course of time, whatever is done with the nodes there are. -/
inductive Later : Forest → Prop where
  | refl : Later f
  | use {g : Forest} (before : Later g) (u : Use) (hu : ∀ r ∈ u.nodes, r < g.cells.size) :
      Later (u.apply g)

namespace Later

theorem trans (hfg : f.Later g) (hgh : g.Later h) : f.Later h := by
  induction hgh with
  | refl => exact hfg
  | use _ u hu ih => exact ih.use u hu

theorem built (h : f.Later g) (hf : f.Built) : g.Built := by
  induction h with
  | refl => exact hf
  | use _ u hu ih => exact ih.apply hu

theorem size_cells_le (h : f.Later g) : f.cells.size ≤ g.cells.size := by
  induction h with
  | refl => exact Nat.le_refl _
  | @use g _ u _ ih => exact Nat.le_trans ih (g.size_cells_le_apply u)

/-- **The children of a node stay for ever.** -/
theorem children_eq (h : f.Later g) (hr : r < f.cells.size) : g.children r = f.children r := by
  induction h with
  | refl => rfl
  | use before u _ ih =>
    exact (children_apply u (Nat.lt_of_lt_of_le hr before.size_cells_le)).trans ih

/-- **What is below a node stays for ever**, in the same order. -/
theorem preorder_eq (h : f.Later g) (hf : f.Built) (hr : r < f.cells.size) :
    g.preorder r = f.preorder r := by
  induction r using Nat.strongRecOn with
  | ind r ih =>
    have hbelow : ∀ c ∈ f.children r, g.preorder c = f.preorder c := fun c hc =>
      have hlt : c < r := hf.sound.descending r c hc
      ih c hlt (Nat.lt_trans hlt hr)
    rw [((h.built hf).sound.descending.acyclic r).preorder_eq,
      (hf.sound.descending.acyclic r).preorder_eq, h.children_eq hr, List.flatMap_congr hbelow]

theorem reaches_iff (h : f.Later g) (hf : f.Built) (hr : r < f.cells.size) {q : Ref} :
    g.Reaches r q ↔ f.Reaches r q := by
  rw [← ((h.built hf).sound.descending.acyclic r).mem_preorder_iff,
    ← (hf.sound.descending.acyclic r).mem_preorder_iff, h.preorder_eq hf hr]

/-- **Sizes are never out of date.** Whatever has been done with nodes, short of giving them other
children: a size that is remembered is the number of nodes that a walk comes to, each as often as
it does, parents first or children first. Asking for the size of a node gives this number, now and
whenever it is asked for later; each node is counted after its children, and the size of a node is
one more than those of its children taken together. -/
theorem size_exact (h : empty.Later f) :
    (∀ r n, f.size? r = some n → n = (f.preorder r).length) ∧
      ∀ r < f.cells.size,
        f.preorder r = r :: (f.children r).flatMap f.preorder ∧
        f.postorder r = (f.children r).flatMap f.postorder ++ [r] ∧
        (f.preorder r).Perm (f.postorder r) ∧
        (f.size r).1 = (f.preorder r).length ∧
        f.sizeChecked r = some (f.size r) ∧
        (f.size r).1 = 1 + ((f.children r).map fun c => (f.size c).1).sum ∧
        ∀ g, f.Later g → g.preorder r = f.preorder r ∧ (g.size r).1 = (f.size r).1 := by
  have hlength : ∀ (f : Forest) r, (f.preorder r).length = (f.postorder r).length := fun f r =>
    (f.preorder_perm_postorder r).length_eq
  have hspec : ∀ {f : Forest}, empty.Later f → ∀ r < f.cells.size,
      f.preorder r = r :: (f.children r).flatMap f.preorder
        ∧ (f.size r).1 = (f.preorder r).length := fun h r hr =>
    have hsound := (h.built .empty).sound
    ⟨(hsound.descending.acyclic r).preorder_eq,
      (hsound.descending.size_spec hsound.sizesRight hr).1.trans (hlength _ r).symm⟩
  have hsound := (h.built .empty).sound
  refine ⟨fun r n hn => (hsound.sizesRight r n hn).trans (hlength f r).symm, fun r hr => ?_⟩
  obtain ⟨hpreorder, hsize⟩ := hspec h r hr
  refine ⟨hpreorder, hsound.descending.postorder_eq hr, f.preorder_perm_postorder r, hsize,
    hsound.descending.sizeChecked_eq hr, ?_, fun g hg => ?_⟩
  · have hchildren : ∀ c ∈ f.children r, (f.size c).1 = (f.preorder c).length := fun c hc =>
      (hspec h c (Nat.lt_trans (hsound.descending r c hc) hr)).2
    rw [hsize, hpreorder, List.length_cons, List.length_flatMap, List.map_congr_left hchildren,
      Nat.add_comm]
  · have hsame : g.preorder r = f.preorder r := hg.preorder_eq (h.built .empty) hr
    have hrg := Nat.lt_of_lt_of_le hr hg.size_cells_le
    exact ⟨hsame, by rw [(hspec (h.trans hg) r hrg).2, hsame, hsize]⟩

/-- A node that is counted before it is shared by another one, and then labeled and numbered. -/
theorem size_exact_shared :
    let pair := ((empty.make "3" [] none).2.make "5" [0, 0] none).2
    let f := ((pair.size 1).2.make "7" [1, 0, 1] none).2
    empty.Later f ∧ (f.size 2).1 = 8 ∧ (((f.setLabel 0 "9").number 1 0).2.size 2).1 = 8 := by
  intro pair f
  have hpair : pair.SameLinks (pair.size 1).2 := .size pair 1
  have hcells : f.cells.size = 3 :=
    (size_cells_make _ _ _ _).trans (congrArg (· + 1) hpair.size_cells)
  have hf : empty.Later f := by
    have hleaf := (Later.refl (f := empty)).use (.make "3" [] none) (List.forall_mem_nil _)
    have htwice := hleaf.use (.make "5" [0, 0] none) (by decide)
    have hcounted := htwice.use (.size 1) (by decide)
    exact hcounted.use (.make "7" [1, 0, 1] none) (hpair.size_cells ▸ by decide)
  have hlater : f.Later ((f.setLabel 0 "9").number 1 0).2 := by
    have hlabeled := (Later.refl (f := f)).use (.setLabel 0 "9") (hcells ▸ by decide)
    refine hlabeled.use (.number 1 0) ?_
    show ∀ r ∈ [1], r < (f.setLabel 0 "9").cells.size
    rw [(SameLinks.setLabel f 0 "9").size_cells, hcells]
    decide
  have hchildren : ∀ q, f.children q = if q = 2 then [1, 0, 1] else pair.children q := fun q => by
    rw [children_make, hpair.size_cells, hpair.children]
    rfl
  obtain ⟨-, hexact⟩ := hf.size_exact
  have hsum : ∀ r < 3, (f.size r).1 = 1 + ((f.children r).map fun c => (f.size c).1).sum :=
    fun r hr => (hexact r (hcells ▸ hr)).2.2.2.2.2.1
  have hleaf : (f.size 0).1 = 1 := by
    rw [hsum 0 (by decide), hchildren]
    rfl
  have htwice : (f.size 1).1 = 3 := by
    rw [hsum 1 (by decide), hchildren]
    show 1 + ([0, 0].map fun c => (f.size c).1).sum = 3
    rw [List.map_cons, List.map_cons, hleaf]
    rfl
  have hshared : (f.size 2).1 = 8 := by
    rw [hsum 2 (by decide), hchildren]
    show 1 + ([1, 0, 1].map fun c => (f.size c).1).sum = 8
    rw [List.map_cons, List.map_cons, List.map_cons, hleaf, htwice]
    rfl
  refine ⟨hf, hshared, ?_⟩
  obtain ⟨-, -, -, -, -, -, hlast⟩ := hexact 2 (hcells ▸ by decide)
  exact (hlast _ hlater).2.trans hshared

end Later

end Forest

end HashConsing
