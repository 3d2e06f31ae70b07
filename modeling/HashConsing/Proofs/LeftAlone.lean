import HashConsing.Proofs.Readability
import HashConsing.Proofs.Traversals
import HashConsing.Proofs.Uses

/-!
# Trees that are left alone

A tree that was handed out hangs in a forest in which much may happen. `Forest.Spares` says what
leaves the tree alone: the nodes of the tree keep their labels and their children. Anything else
may be done. Nodes are made, also over nodes of the tree; other nodes get other labels and other
children, also some of the tree; and nodes are counted and numbered in the tree, above it and
beside it.

What is handed out for a tree of ids then goes on standing for it (`Forest.Intact`): it unfolds to
a tree of nodes with the ids for labels, and what is remembered of sizes in it is right. Sizes that
are remembered elsewhere may be wrong, since nodes there get other children after they have been
counted. That does no harm, as the size of a node is made of those of its children, and these are
in the tree if the node is.

So the tree can be read at any time: its size is that of the tree of ids, its ids are read off it,
and what is found by its label has the size of a tree of that id.
-/

namespace HashConsing

-- Sums of numbers start from the numeral zero, whatever other zeros are around.
attribute [local instance (high)] Zero.ofOfNat0

/-- A tree has one image under functions that agree on its values. -/
theorem Rose.map_congr_of_at? {α β : Type} {f g : α → β} : ∀ {t : Rose α},
    (∀ path u, t.at? path = some u → f u.value = g u.value) → t.map f = t.map g
  | node a ts, h => by
    obtain ⟨hroot, hbelow⟩ := forall_at?_iff.1 h
    have hts : ∀ t ∈ ts, t.map f = t.map g := fun t ht => map_congr_of_at? (hbelow t ht)
    rw [map_node, map_node, List.map_congr_left hts]
    exact congrArg (node · _) hroot

theorem Rose.size_pos {α : Type} : ∀ t : Rose α, 0 < t.size
  | node a ts => by
    rw [size_node]
    exact Nat.lt_add_right _ Nat.zero_lt_one

namespace Forest

variable {f g : Forest} {q r : Ref}

/-! ## What is written on a node -/

section Written

variable (f)

/-- Other nodes stay what they are. -/
theorem getElem?_modify_of_ne {r : Ref} (hq : r ≠ q) (change : Cell → Cell) :
    (f.modify r change).cells[q]? = f.cells[q]? := by
  rw [getElem?_modify, if_neg hq]

/-- Counting changes no label. -/
theorem label_countNode (r q : Ref) : (f.countNode r).label q = f.label q := by
  unfold countNode
  split
  · rfl
  · exact f.label_modify r q fun _ => rfl

theorem label_foldl_countNode (rs : List Ref) (q : Ref) :
    (rs.foldl countNode f).label q = f.label q := by
  induction rs generalizing f with
  | nil => rfl
  | cons r rs ih => exact (ih _).trans (f.label_countNode r q)

theorem label_size (r q : Ref) : (f.size r).2.label q = f.label q := by
  unfold size
  split
  · rfl
  · exact f.label_foldl_countNode _ q

theorem label_sizeOfLabel (r : Ref) (wanted : String) (q : Ref) :
    (f.sizeOfLabel r wanted).2.label q = f.label q := by
  unfold sizeOfLabel
  split
  · rfl
  · exact f.label_size _ q

/-- Numbering changes no label, and no size that is remembered. -/
theorem label_number (r : Ref) (start : Int) (q : Ref) :
    (f.number r start).2.label q = f.label q := by
  rw [label, cells_number, Option.map_map]
  rfl

theorem size?_number (r : Ref) (start : Int) (q : Ref) :
    (f.number r start).2.size? q = f.size? q := by
  rw [size?, cells_number, Option.bind_map]
  rfl

/-- A node that is there keeps its label and its size when another one is made. -/
theorem label_make (wanted : String) (children : List Ref) (number : Option Int)
    (hq : q < f.cells.size) : (f.make wanted children number).2.label q = f.label q := by
  obtain ⟨-, hkeeps, -⟩ := f.make_spec wanted children number
  have hcell := Array.getElem?_eq_getElem hq
  obtain ⟨cell, hmade, hlabel, -, -⟩ := hkeeps q _ hcell
  rw [label, label, hmade, hcell]
  exact hlabel

theorem size?_make (wanted : String) (children : List Ref) (number : Option Int)
    (hq : q < f.cells.size) : (f.make wanted children number).2.size? q = f.size? q := by
  have hparents : ∀ (cs : List Ref) (g : Forest) (parent : Ref),
      (cs.foldl (fun g c => g.setParent c parent) g).size? q = g.size? q := by
    intro cs
    induction cs with
    | nil => exact fun _ _ => rfl
    | cons c cs ih => exact fun g parent => (ih _ parent).trans (g.size?_setParent c parent q)
  refine (hparents children _ f.cells.size).trans ?_
  rw [size?, Array.getElem?_push, if_neg (Nat.ne_of_lt hq)]
  rfl

end Written

/-- **A node that is there keeps its label** unless it is given another one. -/
theorem label_apply (u : Use) (hq : q < f.cells.size) (hu : ∀ label, u ≠ .setLabel q label) :
    (u.apply f).label q = f.label q := by
  cases u with
  | make label children number => exact f.label_make label children number hq
  | setLabel r label =>
    have hne : r ≠ q := fun hrq => hu label (hrq ▸ rfl)
    show (f.modify r _).label q = f.label q
    rw [Forest.label, f.getElem?_modify_of_ne hne]
    rfl
  | setPostOrderId r number => exact f.label_modify r q fun _ => rfl
  | size r => exact f.label_size r q
  | sizeOfLabel r label => exact f.label_sizeOfLabel r label q
  | number r start => exact f.label_number r start q
  | postOrderIds r => exact f.label_size r q

/-! ## Trees of nodes -/

/-- A tree of nodes that keep their children is a tree in the other forest, too. -/
theorem Unfolds.congr {t : Rose Ref} (h : f.Unfolds r t)
    (hchildren : ∀ path u, t.at? path = some u → g.children u.value = f.children u.value) :
    g.Unfolds r t where
  root := h.root
  children path u hu := (h.children path u hu).trans (hchildren path u hu).symm

/-- The beginning of a walk over a tree is as long as the tree. -/
theorem Unfolds.postorderTake {t : Rose Ref} (h : f.Unfolds r t) :
    f.postorderTake t.size r = t.postorder.map Rose.value := by
  have hat : f.UnfoldsAt (r, (t.size + 1) * f.cells.size) t := ⟨h, fun path u hu =>
    Nat.le_trans (h.length_le hu) (Nat.le_mul_of_pos_left _ (Nat.succ_pos _))⟩
  have hwalk := Branching.forall₂_postorder f.branching Rose.branching
    (fun _ _ hp => hp.children) hat
  rw [Forest.postorderTake, Branching.postorderTake_eq, ← List.forall₂_eq_eq_eq,
    List.forall₂_map_left_iff, List.forall₂_map_right_iff,
    List.take_of_length_le (Nat.le_of_eq (hwalk.length_eq.trans t.length_postorder))]
  exact hwalk.imp fun p u hp => hp.unfolds.root.symm

/-- What stands somewhere in the tree of a node is reached from the node. -/
theorem Unfolds.reaches {path : List Nat} : ∀ {r : Ref} {t u : Rose Ref}, f.Unfolds r t →
    t.at? path = some u → f.Reaches r u.value := by
  induction path with
  | nil =>
    rintro r t _ h ⟨⟩
    exact h.root ▸ .refl
  | cons i path ih =>
    intro r t u h hu
    obtain ⟨v, hv, hu⟩ := Rose.at?_cons_eq_some.1 hu
    have hmem : v ∈ t.children := List.mem_of_getElem? hv
    refine (ih (h.child hmem) hu).head ?_
    rw [← h.map_value_children]
    exact List.mem_map_of_mem hmem

/-- What is found by a label is in the walk, and has the label. -/
theorem findLabel_eq_some {label : String} {before : Nat} {n : Ref}
    (h : f.findLabel r label = some (before, n)) : n ∈ f.preorder r ∧ f.label n = label := by
  have hfound : FoundFirst (f.preorder r) (fun n => (f.label n == label) = true)
      (f.findLabel r label) := f.foundFirst_first? r _
  rw [h] at hfound
  exact ⟨List.mem_of_getElem? hfound.1, beq_iff_eq.1 hfound.2.1⟩

/-- If nothing is found, nothing in the walk has the label. -/
theorem findLabel_eq_none {label : String} (h : f.findLabel r label = none) :
    ∀ n ∈ f.preorder r, f.label n ≠ label := by
  have hfound : FoundFirst (f.preorder r) (fun n => (f.label n == label) = true)
      (f.findLabel r label) := f.foundFirst_first? r _
  rw [h] at hfound
  exact fun n hn heq => hfound n hn (beq_iff_eq.2 heq)

/-! ## Counting beside other counts -/

/-- **Sizes in a tree are right** as far as they are remembered. -/
def SizesRightIn (f : Forest) (t : Rose Ref) : Prop :=
  ∀ path u, t.at? path = some u → ∀ n, f.size? u.value = some n → n = u.size

/-- The nodes of a tree are there. -/
def IsThere (f : Forest) (t : Rose Ref) : Prop :=
  ∀ path u, t.at? path = some u → u.value < f.cells.size

theorem SizesRightIn.congr {t : Rose Ref} (h : f.SizesRightIn t)
    (hsizes : ∀ path u, t.at? path = some u → g.size? u.value = f.size? u.value) :
    g.SizesRightIn t :=
  fun path u hu n hn => h path u hu n ((hsizes path u hu).symm.trans hn)

section Counting

variable {t : Rose Ref} (ht : f.Unfolds t.value t) (hthere : f.IsThere t)

include ht hthere

/-- **Counting a node after its children** keeps the sizes in a tree right. If the node is in the
tree, so are the children, and if not, the sizes in the tree stay what they are. -/
theorem SizesRightIn.countNode (hright : f.SizesRightIn t) {q : Ref}
    (hcounted : ∀ c ∈ f.children q, c < f.cells.size → (f.size? c).isSome) :
    (f.countNode q).SizesRightIn t := by
  unfold Forest.countNode
  cases hsize : f.size? q with
  | some n => exact hright
  | none =>
    intro path u hu n hn
    by_cases hq : q = u.value
    · subst hq
      have hunfolds := ht.at? hu
      have hbelow : ∀ v ∈ u.children, (f.size? v.value).getD 0 = v.size := by
        intro v hv
        obtain ⟨i, hi⟩ := List.getElem?_of_mem hv
        have hpath : t.at? (path ++ [i]) = some v := by
          rw [Rose.at?_append, hu]
          exact Rose.at?_cons_eq_some.2 ⟨v, hi, rfl⟩
        have hmem : v.value ∈ f.children u.value := by
          rw [← hunfolds.map_value_children]
          exact List.mem_map_of_mem hv
        obtain ⟨m, hm⟩ := Option.isSome_iff_exists.1 (hcounted _ hmem (hthere _ v hpath))
        rw [hm]
        exact hright _ v hpath m hm
      have hsum : (f.children u.value).map (fun c => (f.size? c).getD 0)
          = u.children.map Rose.size := by
        rw [← hunfolds.map_value_children, List.map_map]
        exact List.map_congr_left hbelow
      rw [f.size?_setSize (hthere path u hu), if_pos rfl, hsum] at hn
      obtain ⟨a, us⟩ := u
      rw [Rose.size_node]
      exact (Option.some.inj hn).symm
    · rw [setSize, size?, f.getElem?_modify_of_ne hq] at hn
      exact hright path u hu n hn

omit ht hthere in
/-- What is known of a tree stays known while nodes hang together as they did. -/
theorem SameLinks.isThere (h : f.SameLinks g) (hthere : f.IsThere t) : g.IsThere t :=
  fun path u hu => h.size_cells ▸ hthere path u hu

omit hthere in
theorem SameLinks.unfolds (h : f.SameLinks g) : g.Unfolds t.value t :=
  ht.congr fun _ u _ => h.children u.value

/-- **Counting everything below an acyclic node** keeps the sizes in a tree right, wherever the
node is. -/
theorem Acyclic.sizesRightIn_count {p : Ref} (hp : f.Acyclic p) :
    ∀ g, f.SameLinks g → g.SizesRightIn t →
    ((f.postorder p).foldl Forest.countNode g).SizesRightIn t
      ∧ (p < f.cells.size → (((f.postorder p).foldl Forest.countNode g).size? p).isSome) := by
  refine hp.induction fun p hp ih => ?_
  have hbelow : ∀ cs ⊆ f.children p, ∀ g, f.SameLinks g → g.SizesRightIn t →
      ((cs.flatMap f.postorder).foldl Forest.countNode g).SizesRightIn t
      ∧ ∀ c ∈ cs, c < f.cells.size →
          (((cs.flatMap f.postorder).foldl Forest.countNode g).size? c).isSome := by
    intro cs
    induction cs with
    | nil => exact fun _ g _ hright => ⟨hright, List.forall_mem_nil _⟩
    | cons c cs ihcs =>
      intro hcs g hg hright
      obtain ⟨hc, hcs⟩ := List.cons_subset.1 hcs
      obtain ⟨hfirst, hcounted⟩ := ih c hc g hg hright
      obtain ⟨hrest, hcounteds⟩ := ihcs hcs _ (hg.trans (.foldl_countNode g (f.postorder c))) hfirst
      rw [List.flatMap_cons, List.foldl_append]
      exact ⟨hrest, List.forall_mem_cons.2
        ⟨fun hlt => isSome_size?_foldl_countNode _ (hcounted hlt), hcounteds⟩⟩
  intro g hg hright
  obtain ⟨hchildren, hcounted⟩ := hbelow _ (List.Subset.refl _) g hg hright
  have hlinks := hg.trans (.foldl_countNode g ((f.children p).flatMap f.postorder))
  rw [hp.postorder_eq, List.foldl_append]
  refine ⟨hchildren.countNode (hlinks.unfolds ht) (hlinks.isThere hthere) fun c hc hlt => ?_,
    fun hlt => isSome_size?_countNode_self (hlinks.size_cells ▸ hlt)⟩
  exact hcounted c (hlinks.children p ▸ hc) (hlinks.size_cells ▸ hlt)

/-- Asking for the size of an acyclic node keeps the sizes in a tree right, -/
theorem SizesRightIn.size (hright : f.SizesRightIn t) {p : Ref} (hp : f.Acyclic p) :
    (f.size p).2.SizesRightIn t := by
  unfold Forest.size
  split
  · exact hright
  · exact (hp.sizesRightIn_count ht hthere f (.refl f) hright).1

/-- and so does asking for the size of what is found by a label below one. -/
theorem SizesRightIn.sizeOfLabel (hright : f.SizesRightIn t) {p : Ref} (hp : f.Acyclic p)
    (label : String) : (f.sizeOfLabel p label).2.SizesRightIn t := by
  unfold Forest.sizeOfLabel
  cases hfind : f.findLabel p label with
  | none => exact hright
  | some found =>
    have hreached := hp.mem_preorder_iff.1 (findLabel_eq_some hfind).1
    exact hright.size ht hthere (hp.of_reaches hreached)

/-- **The size of a tree that is right** as far as it is remembered. -/
theorem SizesRightIn.size_eq (hright : f.SizesRightIn t) : (f.size t.value).1 = t.size := by
  have hacyclic : f.Acyclic t.value := acyclic_iff.2 ⟨t, ht⟩
  unfold Forest.size
  cases hsize : f.size? t.value with
  | some n => exact hright [] t rfl n hsize
  | none =>
    obtain ⟨hcounted, hsome⟩ := hacyclic.sizesRightIn_count ht hthere f (.refl f) hright
    obtain ⟨n, hn⟩ := Option.isSome_iff_exists.1 (hsome (hthere [] t rfl))
    show (((f.postorder t.value).foldl Forest.countNode f).size? t.value).getD 0 = t.size
    rw [hn]
    exact hcounted [] t rfl n hn

end Counting

/-! ## Leaving a tree alone -/

/-- The nodes below which something is done, all the way down. -/
def Use.walked : Use → List Ref
  | .size r | .sizeOfLabel r _ | .number r _ | .postOrderIds r => [r]
  | .make _ _ _ | .setLabel _ _ | .setPostOrderId _ _ => []

variable (f r) in
/-- **What a forest comes to while the tree below a node is left alone**: the nodes of the tree keep
their labels and their children. Walks are over acyclic nodes; others have no end. -/
inductive Spares : Forest → Prop where
  | refl : Spares f
  | use {g : Forest} (before : Spares g) (u : Use) (hwalked : ∀ q ∈ u.walked, g.Acyclic q)
      (hlabel : ∀ q label, u = .setLabel q label → ¬ g.Reaches r q) : Spares (u.apply g)
  | setChildren {g : Forest} (before : Spares g) {q : Ref} (children : List Ref)
      (hq : ¬ g.Reaches r q) : Spares (g.setChildren q children)

/-- **A tree of ids stands at a node as it was handed out**, as a tree of nodes with the ids for
labels, and what is remembered of sizes in it is right. -/
structure Intact (f : Forest) (T : Rose Nat) (t : Rose Ref) : Prop where
  unfolds : f.Unfolds t.value t
  labels : t.map f.label = T.map toString
  sizes : f.SizesRightIn t

namespace Intact

variable {T : Rose Nat} {t : Rose Ref}

/-- What is in an intact tree is intact. -/
theorem of_at? (h : f.Intact T t) {path : List Nat} {u : Rose Ref} (hu : t.at? path = some u)
    {U : Rose Nat} (hlabels : u.map f.label = U.map toString) : f.Intact U u where
  unfolds := h.unfolds.at? hu
  labels := hlabels
  sizes below v hv := by
    refine h.sizes (path ++ below) v ?_
    rw [Rose.at?_append, hu]
    exact hv

/-- What is in the tree of ids stands at the node in its place. -/
theorem exists_node (h : f.Intact T t) {path : List Nat} {U : Rose Nat}
    (hU : T.at? path = some U) : ∃ u, t.at? path = some u ∧ f.Intact U u := by
  have hlabels : (t.map f.label).at? path = some (U.map toString) := by
    rw [h.labels, Rose.at?_map, hU, Option.map_some]
  obtain ⟨u, hu, hmap⟩ := Rose.exists_at?_of_map hlabels
  exact ⟨u, hu, h.of_at? hu hmap⟩

/-- What stands at a node in the tree is in the tree of ids. -/
theorem exists_tree (h : f.Intact T t) {path : List Nat} {u : Rose Ref}
    (hu : t.at? path = some u) : ∃ U, T.at? path = some U ∧ f.Intact U u := by
  have hlabels : (T.map toString).at? path = some (u.map f.label) := by
    rw [← h.labels, Rose.at?_map, hu, Option.map_some]
  obtain ⟨U, hU, hmap⟩ := Rose.exists_at?_of_map hlabels
  exact ⟨U, hU, h.of_at? hu hmap.symm⟩

/-- The label at the root. -/
theorem label_eq (h : f.Intact T t) : f.label t.value = toString T.value := by
  have hvalues := congrArg Rose.value h.labels
  rwa [Rose.value_map, Rose.value_map] at hvalues

theorem size_eq (h : f.Intact T t) : t.size = T.size := by
  rw [← Rose.size_map f.label, h.labels, Rose.size_map]

/-- **The nodes are there**: a node that is not there has no label. -/
theorem isThere (h : f.Intact T t) : f.IsThere t := by
  intro path u hu
  obtain ⟨U, -, hintact⟩ := h.exists_tree hu
  refine Nat.lt_of_not_le fun hle => ?_
  have hlabel : f.label u.value = "" := by
    rw [label, Array.getElem?_eq_none hle]
    rfl
  rw [hintact.label_eq] at hlabel
  exact (Text.isDecimal_toString U.value).1 (congrArg String.toList hlabel)

/-- Nodes that are not reached from the root are not in the tree. -/
theorem ne_of_not_reaches (h : f.Intact T t) {q : Ref} (hq : ¬ f.Reaches t.value q)
    {path : List Nat} {u : Rose Ref} (hu : t.at? path = some u) : q ≠ u.value :=
  fun heq => hq (heq ▸ h.unfolds.reaches hu)

/-- **A tree stays intact** if its nodes keep their children and labels, and what is remembered of
their sizes stays right. -/
theorem congr (h : f.Intact T t)
    (hchildren : ∀ path u, t.at? path = some u → g.children u.value = f.children u.value)
    (hlabel : ∀ path u, t.at? path = some u → g.label u.value = f.label u.value)
    (hsizes : g.SizesRightIn t) : g.Intact T t where
  unfolds := h.unfolds.congr hchildren
  labels := (Rose.map_congr_of_at? hlabel).trans h.labels
  sizes := hsizes

/-- **Whatever is done, short of giving labels to nodes of the tree, keeps it intact.** -/
theorem apply (h : f.Intact T t) (u : Use) (hwalked : ∀ q ∈ u.walked, f.Acyclic q)
    (hlabel : ∀ q label, u = .setLabel q label → ¬ f.Reaches t.value q) :
    (u.apply f).Intact T t := by
  have hthere := h.isThere
  refine h.congr (fun path v hv => f.children_apply u (hthere path v hv))
    (fun path v hv => f.label_apply u (hthere path v hv) fun label hu => ?_) ?_
  · exact h.ne_of_not_reaches (hlabel _ label hu) hv rfl
  · cases u with
    | make label children number =>
      exact h.sizes.congr fun path v hv => f.size?_make label children number (hthere path v hv)
    | setLabel r label => exact h.sizes.congr fun _ v _ => f.size?_modify r v.value fun _ => rfl
    | setPostOrderId r number =>
      exact h.sizes.congr fun _ v _ => f.size?_modify r v.value fun _ => rfl
    | size r => exact h.sizes.size h.unfolds hthere (hwalked r List.mem_cons_self)
    | sizeOfLabel r label =>
      exact h.sizes.sizeOfLabel h.unfolds hthere (hwalked r List.mem_cons_self) label
    | number r start => exact h.sizes.congr fun _ v _ => f.size?_number r start v.value
    | postOrderIds r => exact h.sizes.size h.unfolds hthere (hwalked r List.mem_cons_self)

/-- **Giving other nodes other children keeps a tree intact.** -/
theorem setChildren (h : f.Intact T t) {q : Ref} (hq : ¬ f.Reaches t.value q)
    (children : List Ref) : (f.setChildren q children).Intact T t := by
  refine h.congr (fun path u hu => ?_) (fun path u _ => f.label_modify q u.value fun _ => rfl)
    (h.sizes.congr fun path u _ => f.size?_modify q u.value fun _ => rfl)
  rw [Forest.setChildren, Forest.children, f.getElem?_modify_of_ne (h.ne_of_not_reaches hq hu)]
  rfl

/-- **A tree that is left alone stays intact.** -/
theorem spared (h : f.Intact T t) (hg : f.Spares t.value g) : g.Intact T t := by
  induction hg with
  | refl => exact h
  | use _ u hwalked hlabel ih => exact ih.apply u hwalked hlabel
  | setChildren _ children hq ih => exact ih.setChildren hq children

/-! ## Reading a tree -/

/-- What is below the root is intact. -/
theorem children (h : f.Intact T t) :
    List.Forall₂ (fun u U => f.Intact U u) t.children T.children := by
  have hlabels := congrArg Rose.children h.labels
  rw [Rose.children_map, Rose.children_map, ← List.forall₂_eq_eq_eq, List.forall₂_map_left_iff,
    List.forall₂_map_right_iff] at hlabels
  have hbelow : ∀ u ∈ t.children, ∀ U : Rose Nat, u.map f.label = U.map toString →
      f.Intact U u := by
    intro u hu U hmap
    obtain ⟨i, hi⟩ := List.getElem?_of_mem hu
    have hpath : t.at? [i] = some u := Rose.at?_cons_eq_some.2 ⟨u, hi, rfl⟩
    exact h.of_at? hpath hmap
  exact ((List.forall₂_and_left _ _).2 ⟨hbelow, hlabels⟩).imp fun u U hu => hu.1 U hu.2

/-- **A walk over the tree is one over the tree of ids.** -/
theorem postorder (h : f.Intact T t) :
    List.Forall₂ (fun u U => f.Intact U u) t.postorder T.postorder :=
  Branching.forall₂_postorder Rose.branching Rose.branching (fun _ _ hu => hu.children) h

/-- **The size of an intact tree** is that of the tree of ids. -/
theorem size (h : f.Intact T t) : (f.size t.value).1 = T.size :=
  (h.sizes.size_eq h.unfolds h.isThere).trans h.size_eq

/-- **The ids are read off the nodes**, children first. -/
theorem postOrderIds (h : f.Intact T t) (hT : ∀ id ∈ T.ids, id < 2 ^ 63) :
    (f.postOrderIds t.value).1 = .ok (T.ids.map Int.ofNat) := by
  -- The size is counted first.
  have hacyclic : f.Acyclic t.value := acyclic_iff.2 ⟨t, h.unfolds⟩
  have hcounted : (f.size t.value).2.Intact T t :=
    h.apply (.size t.value) (List.forall_mem_singleton.2 hacyclic) (by rintro _ _ ⟨⟩)
  have hwalk := hcounted.unfolds.postorderTake
  rw [h.size_eq] at hwalk
  refine postOrderIds_of_labels h.size ?_ hT
  rw [hwalk, List.forall₂_map_left_iff]
  exact hcounted.postorder.imp fun u U hu => hu.label_eq

/-- A node that is reached stands for a tree in the tree of ids. -/
theorem exists_of_reaches (h : f.Intact T t) {q : Ref} (hq : f.Reaches t.value q) :
    ∃ path U, T.at? path = some U ∧ f.label q = U.label ∧ (f.size q).1 = U.size := by
  obtain ⟨path, u, hu, rfl⟩ := h.unfolds.exists_at?_of_reaches hq
  obtain ⟨U, hU, hintact⟩ := h.exists_tree hu
  exact ⟨path, U, hU, hintact.label_eq, hintact.size⟩

/-- **What a label has for a size**: nothing if no node in the tree has the label, and otherwise
that of a tree with the label in the tree of ids. -/
theorem sizeOfLabel_cases (h : f.Intact T t) (label : String) :
    (f.sizeOfLabel t.value label).1 = 0 ∧ (∀ q, f.Reaches t.value q → f.label q ≠ label)
    ∨ ∃ path U, T.at? path = some U ∧ U.label = label
        ∧ (f.sizeOfLabel t.value label).1 = U.size := by
  have hacyclic : f.Acyclic t.value := acyclic_iff.2 ⟨t, h.unfolds⟩
  unfold sizeOfLabel
  cases hfind : f.findLabel t.value label with
  | none => exact .inl ⟨rfl, fun q hq => findLabel_eq_none hfind q (hacyclic.mem_preorder_iff.2 hq)⟩
  | some found =>
    obtain ⟨hmem, hlabel⟩ := findLabel_eq_some hfind
    obtain ⟨path, U, hU, hlabel', hsize⟩ := h.exists_of_reaches (hacyclic.mem_preorder_iff.1 hmem)
    exact .inr ⟨path, U, hU, hlabel'.symm.trans hlabel, hsize⟩

/-- A label has no size exactly if no node in the tree has the label. -/
theorem sizeOfLabel_eq_zero_iff (h : f.Intact T t) {label : String} :
    (f.sizeOfLabel t.value label).1 = 0 ↔ ∀ q, f.Reaches t.value q → f.label q ≠ label := by
  rcases h.sizeOfLabel_cases label with ⟨hzero, hnot⟩ | ⟨path, U, hU, rfl, hsize⟩
  · exact iff_of_true hzero hnot
  · obtain ⟨u, hu, hintact⟩ := h.exists_node hU
    refine iff_of_false (hsize ▸ Nat.ne_of_gt (Rose.size_pos U)) fun hnot => ?_
    exact hnot _ (h.unfolds.reaches hu) hintact.label_eq

end Intact

/-! ## Handing out trees -/

/-- What has been made from some node on reaches nothing that is older. -/
theorem FreshFrom.le_of_reaches {bound : Nat} (h : f.FreshFrom bound) (hr : bound ≤ r)
    (hq : f.Reaches r q) : bound ≤ q := by
  induction hq with
  | refl => exact hr
  | tail _ hc ih => exact h.children _ ih _ hc

mutual

/-- **A node that holds a tree of ids unfolds to a tree with the ids for labels.** -/
theorem Holds.exists_unfolds : ∀ {r : Ref} {T : Rose Nat}, f.Holds idName r T →
    ∃ t, f.Unfolds r t ∧ t.map f.label = T.map toString
  | r, .node id Ts, ⟨cell, hcell, hname, hTs⟩ => by
    obtain ⟨ts, hvalues, hunfolds, hlabels⟩ := HoldsEach.exists_unfolds hTs
    have hchildren : f.children r = cell.children := by
      rw [Forest.children, hcell]
      rfl
    have hlabel : f.label r = toString id := by
      rw [label, hcell]
      exact congrArg Prod.fst hname
    refine ⟨.node r ts, .node (hvalues.trans hchildren.symm) hunfolds, ?_⟩
    rw [Rose.map_node, Rose.map_node, hlabel, hlabels]

theorem HoldsEach.exists_unfolds : ∀ {bound : Ref} {rs : List Ref} {Ts : List (Rose Nat)},
    f.HoldsEach idName bound rs Ts → ∃ ts : List (Rose Ref), ts.map Rose.value = rs
      ∧ (∀ t ∈ ts, f.Unfolds t.value t) ∧ ts.map (Rose.map f.label) = Ts.map (Rose.map toString)
  | _, [], [], _ => ⟨[], rfl, List.forall_mem_nil _, rfl⟩
  | _, r :: rs, T :: Ts, ⟨_, hT, hTs⟩ => by
    obtain ⟨t, hunfold, hlabel⟩ := Holds.exists_unfolds hT
    obtain ⟨ts, rfl, hunfolds, hlabels⟩ := HoldsEach.exists_unfolds hTs
    obtain rfl := hunfold.root
    refine ⟨t :: ts, rfl, List.forall_mem_cons.2 ⟨hunfold, hunfolds⟩, ?_⟩
    rw [List.map_cons, List.map_cons, hlabel, hlabels]

end

/-- **A tree that has just been handed out is intact.** -/
theorem exists_intact_plantIds (f : Forest) (T : Rose Nat) :
    ∃ t, t.value = (f.plantIds T).1 ∧ (f.plantIds T).2.Intact T t := by
  obtain ⟨t, hunfolds, hlabels⟩ := (holds_plant idName f T).2.exists_unfolds
  obtain ⟨hfresh, hr⟩ := fresh_plant idName f T
  refine ⟨t, hunfolds.root, hunfolds.root.symm ▸ hunfolds, hlabels, fun path u hu n hn => ?_⟩
  have hle := hfresh.le_of_reaches hr (hunfolds.reaches hu)
  rw [plantIds, hfresh.size? _ hle] at hn
  cases hn

/-- **Handing out other trees leaves a tree alone.** -/
theorem Spares.plantIds (h : f.Spares r g) (T : Rose Nat) : f.Spares r (g.plantIds T).2 := by
  have hplants : ∀ (ts : List (Rose Nat)) (stack : List Ref) (g : Forest), f.Spares r g →
      f.Spares r (ts.foldl (plantNode idName) (stack, g)).2 := by
    intro ts
    induction ts with
    | nil => exact fun _ _ h => h
    | cons t ts ih =>
      exact fun stack g h => ih _ _ (h.use (.make (idName t.value).1
        (stack.take t.children.length).reverse (idName t.value).2) (List.forall_mem_nil _)
        (by rintro _ _ ⟨⟩))
  exact hplants T.postorder [] g h

end Forest

end HashConsing
