import HashConsing.Proofs.Counting

/-!
# Forests that are built by construction only

As long as no node is given other children than those it was made with, every node is made
after what is below it. This module collects what follows from that (`Forest.Descending`): a
walk that goes down far enough goes down everywhere, so the nodes below a node do not depend on
how many nodes there are by now, and they are the nodes below its children and the node itself
(`Forest.Descending.postorder_eq`). Sizes that are remembered stay right
(`Forest.Descending.size_spec`).

`Forest.Built` are the forests that come about in this way, from nodes being made, labeled,
numbered and counted in any order. A node may be given to several others as a child, or to one
of them twice; only a planted tree is sure to have each node in it once
(`Forest.Built.postorder_plant`).
-/

namespace HashConsing

-- Sums of numbers start from the numeral zero, whatever other zeros are around.
attribute [local instance (high)] Zero.ofOfNat0

namespace Forest

variable {f g : Forest} {r : Ref}

/-! ## Walks down -/

/-- **Nodes are made after their children.** -/
def Descending (f : Forest) : Prop := ∀ r, ∀ c ∈ f.children r, c < r

/-- A walk with at least as many steps left as nodes were made before goes on to all
children. -/
theorem branching_children (h : ∀ c ∈ f.children r, c < r) {depth : Nat} (hr : r ≤ depth) :
    f.branching.children (r, depth) = (f.children r).map (·, depth - 1) := by
  cases depth with
  | zero =>
    have hnone : f.children r = [] := by
      refine List.eq_nil_iff_forall_not_mem.2 fun c hc => ?_
      exact absurd (Nat.lt_of_lt_of_le (h c hc) hr) (Nat.not_lt_zero c)
    rw [hnone]
    rfl
  | succ depth => rfl

namespace Descending

/-- **Walks that go down far enough come to the same nodes**, also in another forest in which
the nodes have the same children. -/
theorem map_fst_postorder (hf : f.Descending) (hchildren : ∀ q ≤ r, g.children q = f.children q)
    {depth depth' : Nat} (hdepth : r ≤ depth) (hdepth' : r ≤ depth') :
    (g.branching.postorder (r, depth')).map Prod.fst
      = (f.branching.postorder (r, depth)).map Prod.fst := by
  let R (p p' : Ref × Nat) : Prop := p.1 = p'.1 ∧ p.1 ≤ r ∧ p.1 ≤ p.2 ∧ p'.1 ≤ p'.2
  have hR : ∀ p p', R p p' →
      List.Forall₂ R (g.branching.children p) (f.branching.children p') := by
    rintro ⟨q, d⟩ ⟨_, d'⟩ ⟨rfl, hq, hd, hd'⟩
    have hbelow : ∀ c ∈ g.children q, c < q := fun c hc => hf q c (hchildren q hq ▸ hc)
    rw [branching_children hbelow hd, branching_children (hf q) hd', hchildren q hq,
      List.forall₂_map_left_iff, List.forall₂_map_right_iff, List.forall₂_same]
    intro c hc
    have hlt : c < q := hf q c hc
    exact ⟨rfl, Nat.le_trans (Nat.le_of_lt hlt) hq, Nat.le_sub_one_of_lt (Nat.lt_of_lt_of_le hlt hd),
      Nat.le_sub_one_of_lt (Nat.lt_of_lt_of_le hlt hd')⟩
  have hroot : R (r, depth') (r, depth) := ⟨rfl, Nat.le_refl r, hdepth', hdepth⟩
  have hwalks := Branching.forall₂_postorder g.branching f.branching hR hroot
  rw [← List.forall₂_eq_eq_eq, List.forall₂_map_left_iff, List.forall₂_map_right_iff]
  exact hwalks.imp fun _ _ h => h.1

/-- **What is below a node stays** while nodes keep their children. -/
theorem postorder_congr (hf : f.Descending) (hchildren : ∀ q ≤ r, g.children q = f.children q)
    (hr : r < f.cells.size) (hr' : r < g.cells.size) : g.postorder r = f.postorder r :=
  hf.map_fst_postorder hchildren (Nat.le_of_lt hr) (Nat.le_of_lt hr')

/-- **The nodes below a node, children first**, are those below its children and the node. -/
theorem postorder_eq (hf : f.Descending) (hr : r < f.cells.size) :
    f.postorder r = (f.children r).flatMap f.postorder ++ [r] := by
  rw [postorder, position, Branching.postorder_eq, branching_children (hf r) (Nat.le_of_lt hr),
    List.map_append, List.map_flatMap, List.flatMap_map]
  refine congrArg (· ++ [r]) (List.flatMap_congr fun c hc => ?_)
  have hlt : c < r := hf r c hc
  exact hf.map_fst_postorder (fun _ _ => rfl) (Nat.le_of_lt (Nat.lt_trans hlt hr))
    (Nat.le_sub_one_of_lt (Nat.lt_trans hlt hr))

/-- What is below a node was made before it. -/
theorem le_of_mem_postorder (hf : f.Descending) {q : Ref} (hr : r < f.cells.size)
    (hq : q ∈ f.postorder r) : q ≤ r := by
  induction r using Nat.strongRecOn with
  | ind r ih =>
    rw [hf.postorder_eq hr, List.mem_append, List.mem_flatMap, List.mem_singleton] at hq
    rcases hq with ⟨c, hc, hq⟩ | rfl
    · have hlt : c < r := hf r c hc
      exact Nat.le_of_lt (Nat.lt_of_le_of_lt (ih c hlt (Nat.lt_trans hlt hr) hq) hlt)
    · exact Nat.le_refl q

/-- **What is below a node stands together in every walk that comes to the node.** -/
theorem postorder_infix (hf : f.Descending) {q : Ref} (hr : r < f.cells.size)
    (hq : q ∈ f.postorder r) : f.postorder q <:+: f.postorder r := by
  induction r using Nat.strongRecOn with
  | ind r ih =>
    have hwalk := hf.postorder_eq hr
    rw [hwalk, List.mem_append, List.mem_flatMap, List.mem_singleton] at hq
    rcases hq with ⟨c, hc, hq⟩ | rfl
    · have hlt : c < r := hf r c hc
      have hbelow : f.postorder c <:+: (f.children r).flatMap f.postorder :=
        List.infix_flatMap_of_mem hc f.postorder
      rw [hwalk]
      exact ((ih c hlt (Nat.lt_trans hlt hr) hq).trans hbelow).trans
        (List.prefix_append _ _).isInfix
    · exact List.infix_refl _

end Descending

/-! ## Remembered sizes -/

/-- **What is remembered of sizes is right**: it is the number of nodes a walk comes to. -/
def SizesRight (f : Forest) : Prop := ∀ r n, f.size? r = some n → n = (f.postorder r).length

/-- Nodes keep their children as long as they keep what is written on them and there are no
new ones. -/
theorem Keeps.children_eq_of_size (h : f.Keeps g) (hsize : g.cells.size = f.cells.size)
    (q : Ref) : g.children q = f.children q := by
  by_cases hq : q < f.cells.size
  · exact h.children_eq hq
  · have hq : f.cells.size ≤ q := Nat.le_of_not_lt hq
    rw [children, children, Array.getElem?_eq_none hq, Array.getElem?_eq_none (hsize ▸ hq)]

/-- Counting makes no nodes. -/
theorem size_cells_countNode (f : Forest) (q : Ref) :
    (f.countNode q).cells.size = f.cells.size := by
  unfold countNode
  split
  · rfl
  · unfold setSize modify
    rw [Array.size_modify]

theorem size_cells_foldl_countNode (f : Forest) (qs : List Ref) :
    (qs.foldl countNode f).cells.size = f.cells.size := by
  induction qs generalizing f with
  | nil => rfl
  | cons q qs ih => rw [List.foldl_cons, ih, size_cells_countNode]

/-- What a node is called that stands for a label and a number: just that. -/
def ownName (name : String × Option Int) : String × Option Int := name

namespace Descending

/-- **Every node holds a tree**, of the labels and numbers that are written on the nodes. -/
theorem exists_holds (hf : f.Descending) (hr : r < f.cells.size) : ∃ t, f.Holds ownName r t := by
  induction r using Nat.strongRecOn with
  | ind r ih =>
    have hcell := Array.getElem?_eq_getElem hr
    obtain ⟨ts, hts⟩ : ∃ ts, List.Forall₂ (fun c t => c < r ∧ f.Holds ownName c t)
        (f.children r) ts := by
      have hbelow : ∀ c ∈ f.children r, ∃ t, c < r ∧ f.Holds ownName c t := fun c hc =>
        have hlt : c < r := hf r c hc
        (ih c hlt (Nat.lt_trans hlt hr)).imp fun t ht => ⟨hlt, ht⟩
      generalize f.children r = cs at hbelow
      induction cs with
      | nil => exact ⟨[], .nil⟩
      | cons c cs ihcs =>
        obtain ⟨t, ht⟩ := hbelow c List.mem_cons_self
        obtain ⟨ts, hts⟩ := ihcs fun c hc => hbelow c (List.mem_cons_of_mem _ hc)
        exact ⟨t :: ts, .cons ht hts⟩
    rw [children, hcell] at hts
    exact ⟨.node (f.cells[r].label, f.cells[r].postOrderId) ts, f.cells[r], hcell, rfl,
      holdsEach_iff.2 hts⟩

/-- **The size of a node is the number of nodes a walk comes to.** Counting keeps what is
written on the nodes, and leaves what is remembered right. -/
theorem size_spec (hf : f.Descending) (hs : f.SizesRight) (hr : r < f.cells.size) :
    (f.size r).1 = (f.postorder r).length ∧ f.Keeps (f.size r).2
      ∧ (f.size r).2.cells.size = f.cells.size ∧ (f.size r).2.SizesRight := by
  have hlength : ∀ {q t}, f.Holds ownName q t → t.size = (f.postorder q).length := fun {q t} ht => by
    rw [ht.postorder.length_eq, t.length_postorder]
  have hright : f.RemembersRight ownName (fun _ => True) f := fun q t _ ht n hn => by
    rw [hs q n hn, hlength ht]
  obtain ⟨t, ht⟩ := hf.exists_holds hr
  unfold size
  cases hsize : f.size? r with
  | some n => exact ⟨hs r n hsize, .refl f, rfl, hs⟩
  | none =>
    have hat : f.HoldsAt ownName (f.position r) t := ⟨Nat.le_of_lt ht.lt_size, ht⟩
    obtain ⟨hfurther, hcount⟩ := further_count (fun _ _ h => h) (fun _ _ _ _ => trivial) t
      (f.position r) f hat trivial (.refl f) hright
    have hcells := f.size_cells_foldl_countNode (f.postorder r)
    refine ⟨?_, hfurther.keeps, hcells, fun q n hn => ?_⟩
    · rw [← hlength ht]
      exact congrArg (Option.getD · 0) hcount
    · by_cases hq : q < f.cells.size
      · obtain ⟨u, hu⟩ := hf.exists_holds hq
        rw [hfurther.right q u trivial hu n hn, hlength hu]
        refine congrArg List.length (hf.postorder_congr (fun q' _ => ?_) hq (hcells ▸ hq)).symm
        exact hfurther.keeps.children_eq_of_size hcells q'
      · have hq : ((f.postorder r).foldl countNode f).cells.size ≤ q :=
          hcells ▸ Nat.le_of_not_lt hq
        rw [size?, Array.getElem?_eq_none hq] at hn
        cases hn

end Descending

/-! ## What construction preserves -/

/-- **A forest that can be relied on**: nodes are made after their children, and sizes are
remembered as they are. -/
structure Sound (f : Forest) : Prop where
  descending : f.Descending
  sizesRight : f.SizesRight

namespace Sound

/-- A forest with the same children and the same remembered sizes can be relied on as well. -/
theorem of_children (h : f.Sound) (hcells : g.cells.size = f.cells.size)
    (hchildren : ∀ q, g.children q = f.children q) (hsizes : ∀ q, g.size? q = f.size? q) :
    g.Sound where
  descending q c hc := h.descending q c (hchildren q ▸ hc)
  sizesRight q n hn := by
    rw [hsizes q] at hn
    have hq : q < f.cells.size := by
      by_contra hge
      rw [size?, Array.getElem?_eq_none (Nat.le_of_not_lt hge)] at hn
      cases hn
    rw [h.sizesRight q n hn,
      h.descending.postorder_congr (fun q' _ => hchildren q') hq (hcells ▸ hq)]

/-- Changing what is neither a child nor a size. -/
theorem modify (h : f.Sound) (q : Ref) {change : Cell → Cell}
    (hchildren : ∀ cell, (change cell).children = cell.children)
    (hsize : ∀ cell, (change cell).size = cell.size) : (f.modify q change).Sound := by
  refine h.of_children ?_ (fun q' => ?_) fun q' => ?_
  · exact Array.size_modify
  · exact f.children_modify q q' hchildren
  · exact f.size?_modify q q' hsize

theorem setParent (h : f.Sound) (q parent : Ref) : (f.setParent q parent).Sound :=
  h.modify q (fun _ => rfl) fun _ => rfl

theorem foldl_setParent (h : f.Sound) (qs : List Ref) (parent : Ref) :
    (qs.foldl (fun f q => f.setParent q parent) f).Sound := by
  induction qs generalizing f with
  | nil => exact h
  | cons q qs ih => exact ih (h.setParent q parent)

/-- **A new node over nodes there are.** -/
theorem make (h : f.Sound) (label : String) {children : List Ref}
    (hchildren : ∀ c ∈ children, c < f.cells.size) (postOrderId : Option Int) :
    (f.make label children postOrderId).2.Sound := by
  refine Sound.foldl_setParent ⟨?_, ?_⟩ children f.cells.size
  · intro q c hc
    rw [Forest.children, Array.getElem?_push] at hc
    split at hc
    next hq => exact hq ▸ hchildren c hc
    next => exact h.descending q c hc
  · intro q n hn
    rw [size?, Array.getElem?_push] at hn
    split at hn
    · cases hn
    · have hq : q < f.cells.size := by
        by_contra hge
        rw [Array.getElem?_eq_none (Nat.le_of_not_lt hge)] at hn
        cases hn
      rw [h.sizesRight q n hn]
      refine congrArg List.length (h.descending.postorder_congr (fun q' hq' => ?_) hq ?_).symm
      · rw [Forest.children, Array.getElem?_push,
          if_neg (Nat.ne_of_lt (Nat.lt_of_le_of_lt hq' hq))]
        rfl
      · rw [Array.size_push]
        exact Nat.lt_succ_of_lt hq

/-- **Counting.** -/
theorem size (h : f.Sound) (hr : r < f.cells.size) : (f.size r).2.Sound := by
  obtain ⟨-, hkeeps, hcells, hright⟩ := h.descending.size_spec h.sizesRight hr
  refine ⟨fun q c hc => ?_, hright⟩
  rw [hkeeps.children_eq_of_size hcells] at hc
  exact h.descending q c hc

end Sound

/-- **Forests that are built by construction only**: nodes are made over nodes there are, and
are labeled, numbered and counted, but never given other children. -/
inductive Built : Forest → Prop where
  | empty : Built empty
  | make {f : Forest} (h : Built f) (label : String) {children : List Ref}
      (hchildren : ∀ c ∈ children, c < f.cells.size) (postOrderId : Option Int) :
      Built (f.make label children postOrderId).2
  | setLabel {f : Forest} (h : Built f) (r : Ref) (label : String) : Built (f.setLabel r label)
  | setPostOrderId {f : Forest} (h : Built f) (r : Ref) (postOrderId : Option Int) :
      Built (f.setPostOrderId r postOrderId)
  | size {f : Forest} (h : Built f) {r : Ref} (hr : r < f.cells.size) : Built (f.size r).2

namespace Built

/-- **What is built by construction only can be relied on.** -/
theorem sound (h : f.Built) : f.Sound := by
  induction h with
  | empty => exact ⟨fun q c hc => (nomatch hc), fun q n hn => (nomatch hn)⟩
  | make _ label hchildren postOrderId ih => exact ih.make label hchildren postOrderId
  | setLabel _ q label ih => exact ih.modify q (fun _ => rfl) fun _ => rfl
  | setPostOrderId _ q number ih => exact ih.modify q (fun _ => rfl) fun _ => rfl
  | size _ hr ih => exact ih.size hr

/-- Numbering is giving numbers to nodes, one after the other. -/
theorem number (h : f.Built) (r : Ref) (start : Int) : (f.number r start).2.Built := by
  unfold Forest.number
  generalize f.postorder r = qs
  induction qs generalizing f start with
  | nil => exact h
  | cons q qs ih => exact ih (h.setPostOrderId q (some start)) (start + 1)

end Built

/-! ## Planted trees -/

/-- Making a node adds one node. -/
theorem size_cells_make (f : Forest) (label : String) (children : List Ref)
    (postOrderId : Option Int) :
    (f.make label children postOrderId).2.cells.size = f.cells.size + 1 := by
  have hparents : ∀ (qs : List Ref) (g : Forest) (parent : Ref),
      (qs.foldl (fun g q => g.setParent q parent) g).cells.size = g.cells.size := by
    intro qs
    induction qs with
    | nil => exact fun _ _ => rfl
    | cons q qs ih => exact fun g parent => (ih _ parent).trans Array.size_modify
  exact (hparents children _ f.cells.size).trans (Array.size_push _)

/-- What is below a node stays while nodes keep what is written on them. -/
theorem Keeps.postorder_eq (h : f.Keeps g) (hf : f.Descending) (hr : r < f.cells.size)
    (hr' : r < g.cells.size) : g.postorder r = f.postorder r :=
  hf.postorder_congr (fun _ hq => h.children_eq (Nat.lt_of_le_of_lt hq hr)) hr hr'

section Planting

variable {α : Type} (name : α → String × Option Int)

mutual

/-- Planting a tree makes one node for each of its nodes, in the order of the walk. -/
theorem postorder_foldl_plantNode : ∀ (t : Rose α) (stack : List Ref) {f : Forest}, f.Built →
    ∃ r g, t.postorder.foldl (plantNode name) (stack, f) = (r :: stack, g) ∧ g.Built ∧ f.Keeps g
      ∧ g.cells.size = f.cells.size + t.size ∧ r < g.cells.size
      ∧ g.postorder r = List.range' f.cells.size t.size
  | .node a ts, stack, f, hf => by
    obtain ⟨rs, g, hfold, hg, hkeeps, hcells, hrs, hlength, hwalks⟩ :=
      postorder_foldl_plantNode_children ts stack hf
    obtain ⟨hr, hmade, cell, hcell, -, hc, -⟩ := g.make_spec (name a).1 rs (name a).2
    have hsize := g.size_cells_make (name a).1 rs (name a).2
    have hbuilt := hg.make (name a).1 hrs (name a).2
    have hlt : (g.make (name a).1 rs (name a).2).1
        < (g.make (name a).1 rs (name a).2).2.cells.size := by
      rw [hr, hsize]
      exact Nat.lt_succ_self _
    refine ⟨_, _, ?_, hbuilt, hkeeps.trans hmade, ?_, hlt, ?_⟩
    · have harity : ts.length = rs.reverse.length := by rw [List.length_reverse, hlength]
      rw [Rose.postorder_node, List.foldl_append, hfold, List.foldl_cons, List.foldl_nil]
      simp only [plantNode, Rose.children, Rose.value, harity, List.take_left, List.drop_left,
        List.reverse_reverse]
    · rw [hsize, hcells, Rose.size_node]
      omega
    · have hchildren : (g.make (name a).1 rs (name a).2).2.children
          (g.make (name a).1 rs (name a).2).1 = rs := by
        rw [children, hcell]
        exact hc
      have hold : ∀ c ∈ rs, (g.make (name a).1 rs (name a).2).2.postorder c = g.postorder c :=
        fun c hc => hmade.postorder_eq hg.sound.descending (hrs c hc)
          (hsize ▸ Nat.lt_succ_of_lt (hrs c hc))
      rw [hbuilt.sound.descending.postorder_eq hlt, hchildren, List.flatMap_congr hold, hwalks, hr,
        hcells, Rose.size_node, Nat.add_comm 1, List.range'_1_concat]

/-- Planting some trees makes nodes for all of them, one tree after the other. -/
theorem postorder_foldl_plantNode_children : ∀ (ts : List (Rose α)) (stack : List Ref)
    {f : Forest}, f.Built →
    ∃ (rs : List Ref) (g : Forest), (ts.flatMap Rose.postorder).foldl (plantNode name) (stack, f)
        = (rs.reverse ++ stack, g) ∧ g.Built ∧ f.Keeps g
      ∧ g.cells.size = f.cells.size + (ts.map Rose.size).sum ∧ (∀ r ∈ rs, r < g.cells.size)
      ∧ rs.length = ts.length
      ∧ rs.flatMap g.postorder = List.range' f.cells.size (ts.map Rose.size).sum
  | [], stack, f, hf => ⟨[], f, rfl, hf, .refl f, rfl, nofun, rfl, rfl⟩
  | t :: ts, stack, f, hf => by
    obtain ⟨r, g, hfold, hg, hkeeps, hcells, hr, hwalk⟩ := postorder_foldl_plantNode t stack hf
    obtain ⟨rs, h, hfolds, hh, hkeeps', hcells', hrs, hlength, hwalks⟩ :=
      postorder_foldl_plantNode_children ts (r :: stack) hg
    have hr' : r < h.cells.size := hcells' ▸ Nat.lt_of_lt_of_le hr (Nat.le_add_right _ _)
    refine ⟨r :: rs, h, ?_, hh, hkeeps.trans hkeeps', ?_, List.forall_mem_cons.2 ⟨hr', hrs⟩, ?_, ?_⟩
    · rw [List.flatMap_cons, List.foldl_append, hfold, hfolds, List.reverse_cons,
        List.append_assoc, List.singleton_append]
    · rw [hcells', hcells, List.map_cons, List.sum_cons, Nat.add_assoc]
    · rw [List.length_cons, List.length_cons, hlength]
    · rw [List.flatMap_cons, hkeeps'.postorder_eq hg.sound.descending hr hr', hwalk, hwalks,
        hcells, List.map_cons, List.sum_cons, List.range'_append_1]

end

/-- **A planted tree consists of new nodes**, each once, in the order of the walk over it. -/
theorem Built.postorder_plant (hf : f.Built) (t : Rose α) :
    (f.plant name t).2.Built ∧ (f.plant name t).1 < (f.plant name t).2.cells.size
      ∧ (f.plant name t).2.postorder (f.plant name t).1
          = List.range' f.cells.size t.size := by
  obtain ⟨r, g, hfold, hg, -, -, hr, hwalk⟩ := postorder_foldl_plantNode name t [] hf
  unfold plant
  rw [hfold]
  exact ⟨hg, hr, hwalk⟩

end Planting

end Forest

end HashConsing
