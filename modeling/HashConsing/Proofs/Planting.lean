import HashConsing.Forest
import Mathlib.Data.List.Forall2

/-!
# Trees in forests

A tree is handed out as nodes of a forest. `Forest.Holds` says that a node of a
forest stands for a tree: labels and numbers are those that go with the values of
the tree, and so on down the children, each of which was made before its parent.

Planting a tree makes nodes that hold it, and leaves what other nodes hold alone
(`Forest.holds_plant`). Comparing nodes that hold trees is comparing the trees
(`Forest.same_iff`): the depth at which a comparison stops is never reached,
since a node is made after everything below it.
-/

namespace HashConsing

/-! ## Pairs -/

/-- Lists that correspond to others correspond in pairs. -/
theorem forall₂_zip {A B C D : Type} {R : A → C → Prop} {S : B → D → Prop} {as : List A}
    {bs : List B} {cs : List C} {ds : List D} (hR : List.Forall₂ R as cs)
    (hS : List.Forall₂ S bs ds) :
    List.Forall₂ (fun x y => R x.1 y.1 ∧ S x.2 y.2) (as.zip bs) (cs.zip ds) := by
  induction hR generalizing bs ds with
  | nil => exact .nil
  | cons hac _ ih =>
    cases hS with
    | nil => exact .nil
    | cons hbd hS => exact .cons ⟨hac, hbd⟩ (ih hS)

/-- Trees are equal if their values and their children are. -/
theorem Rose.eq_iff_zip {α : Type} {t u : Rose α} (hvalue : t.value = u.value)
    (hlength : t.children.length = u.children.length) :
    t = u ↔ ∀ pair ∈ t.children.zip u.children, pair.1 = pair.2 := by
  obtain ⟨a, ts⟩ := t
  obtain ⟨b, us⟩ := u
  obtain rfl : a = b := hvalue
  rw [Rose.node.injEq, eq_self_iff_true, true_and, ← List.forall₂_eq_eq_eq, List.forall₂_iff_zip]
  exact ⟨fun h pair hpair => h.2 hpair, fun h => ⟨hlength, fun hab => h _ hab⟩⟩

namespace Forest

/-! ## What is left alone -/

/-- **Nodes keep what is written on them**: labels, children and numbers. Parents
may change, and there may be new nodes. -/
def Keeps (f g : Forest) : Prop :=
  ∀ (r : Ref) (cell : Cell), f.cells[r]? = some cell →
    ∃ cell', g.cells[r]? = some cell' ∧ cell'.label = cell.label
      ∧ cell'.children = cell.children ∧ cell'.postOrderId = cell.postOrderId

namespace Keeps

variable {f g h : Forest}

theorem refl (f : Forest) : f.Keeps f := fun _ cell hr => ⟨cell, hr, rfl, rfl, rfl⟩

theorem trans (hfg : f.Keeps g) (hgh : g.Keeps h) : f.Keeps h := by
  intro r cell hr
  obtain ⟨cell', hr', hl, hc, hp⟩ := hfg r cell hr
  obtain ⟨cell'', hr'', hl', hc', hp'⟩ := hgh r cell' hr'
  exact ⟨cell'', hr'', hl'.trans hl, hc'.trans hc, hp'.trans hp⟩

end Keeps

variable (f : Forest)

/-- Nodes keep everything but a parent when one gets a parent. -/
theorem keeps_setParent (r parent : Ref) : f.Keeps (f.setParent r parent) := by
  intro s cell hs
  unfold setParent modify
  rw [Array.getElem?_modify, hs]
  by_cases hrs : r = s
  · rw [if_pos hrs]
    exact ⟨_, rfl, rfl, rfl, rfl⟩
  · rw [if_neg hrs]
    exact ⟨cell, rfl, rfl, rfl, rfl⟩

/-- Giving several nodes a parent. -/
theorem keeps_foldl_setParent (rs : List Ref) (parent : Ref) :
    f.Keeps (rs.foldl (fun f r => f.setParent r parent) f) := by
  induction rs generalizing f with
  | nil => exact .refl f
  | cons r rs ih => exact (f.keeps_setParent r parent).trans (ih _)

/-- **A new node** has what it was made of, and the others keep theirs. -/
theorem make_spec (label : String) (children : List Ref) (postOrderId : Option Int) :
    let made := f.make label children postOrderId
    made.1 = f.cells.size ∧ f.Keeps made.2
      ∧ ∃ cell, made.2.cells[made.1]? = some cell ∧ cell.label = label
          ∧ cell.children = children ∧ cell.postOrderId = postOrderId := by
  unfold make
  refine ⟨rfl, ?_, ?_⟩
  · refine Keeps.trans (fun r cell hr => ⟨cell, ?_, rfl, rfl, rfl⟩)
      (keeps_foldl_setParent _ children f.cells.size)
    have hlt : r < f.cells.size := (Array.getElem?_eq_some_iff.1 hr).1
    rw [Array.getElem?_push, if_neg (Nat.ne_of_lt hlt), hr]
  · exact keeps_foldl_setParent ⟨f.cells.push ⟨label, children, postOrderId, none, none⟩⟩
      children f.cells.size _ _ Array.getElem?_push_size

/-! ## Nodes that hold trees -/

section Holds

variable {α : Type} (name : α → String × Option Int)

mutual

/-- **A node holds a tree.** -/
def Holds (r : Ref) : Rose α → Prop
  | .node a ts => ∃ cell, f.cells[r]? = some cell ∧ (cell.label, cell.postOrderId) = name a
      ∧ HoldsEach r cell.children ts

/-- Nodes that were made before a node hold some trees, one each. -/
def HoldsEach (bound : Ref) : List Ref → List (Rose α) → Prop
  | [], [] => True
  | r :: rs, t :: ts => r < bound ∧ Holds r t ∧ HoldsEach bound rs ts
  | _, _ => False

end

variable {f name}

theorem holdsEach_iff {bound : Ref} {rs : List Ref} {ts : List (Rose α)} :
    f.HoldsEach name bound rs ts
      ↔ List.Forall₂ (fun r t => r < bound ∧ f.Holds name r t) rs ts := by
  induction rs generalizing ts with
  | nil => cases ts <;> simp [HoldsEach]
  | cons r rs ih => cases ts <;> simp [HoldsEach, ih, and_assoc]

/-- A node that holds a tree is in the forest. -/
theorem Holds.lt_size {r : Ref} {t : Rose α} (h : f.Holds name r t) : r < f.cells.size := by
  cases t with
  | node a ts =>
    obtain ⟨cell, hr, -⟩ := h
    exact (Array.getElem?_eq_some_iff.1 hr).1

theorem Holds.name_eq {r : Ref} {t : Rose α} (h : f.Holds name r t) :
    (f.label r, f.postOrderId r) = name t.value := by
  cases t with
  | node a ts =>
    obtain ⟨cell, hr, hname, -⟩ := h
    show (f.label r, f.postOrderId r) = name a
    rw [← hname, label, postOrderId, hr]
    rfl

/-- The children of a node that holds a tree hold the trees below the root. -/
theorem Holds.children {r : Ref} {t : Rose α} (h : f.Holds name r t) :
    List.Forall₂ (fun s u => s < r ∧ f.Holds name s u) (f.children r) t.children := by
  cases t with
  | node a ts =>
    obtain ⟨cell, hr, -, hts⟩ := h
    rw [Forest.children, hr]
    exact holdsEach_iff.1 hts

mutual

/-- **What a node holds stays** as long as nodes keep what is written on them. -/
theorem Holds.keep {g : Forest} (hfg : f.Keeps g) : ∀ {r : Ref} {t : Rose α},
    f.Holds name r t → g.Holds name r t
  | r, .node a ts, ⟨cell, hr, hname, hts⟩ => by
    obtain ⟨cell', hr', hl, hc, hp⟩ := hfg r cell hr
    refine ⟨cell', hr', ?_, ?_⟩
    · rw [hl, hp, hname]
    · rw [hc]
      exact HoldsEach.keep hfg hts

theorem HoldsEach.keep {g : Forest} (hfg : f.Keeps g) : ∀ {bound : Ref} {rs : List Ref}
    {ts : List (Rose α)}, f.HoldsEach name bound rs ts → g.HoldsEach name bound rs ts
  | _, [], [], h => h
  | _, _ :: _, _ :: _, ⟨hlt, ht, hts⟩ => ⟨hlt, Holds.keep hfg ht, HoldsEach.keep hfg hts⟩

end

/-! ## Planting -/

mutual

/-- **Planting a tree** puts a node that holds it on top of the stack. -/
theorem foldl_plantNode : ∀ (t : Rose α) (stack : List Ref) (f : Forest),
    ∃ r g, t.postorder.foldl (plantNode name) (stack, f) = (r :: stack, g)
      ∧ f.Keeps g ∧ g.Holds name r t
  | .node a ts, stack, f => by
    obtain ⟨rs, g, hfold, hkeeps, hts⟩ := foldl_plantNode_children ts stack f
    obtain ⟨hr, hmade, cell, hcell, hl, hc, hp⟩ :=
      g.make_spec (name a).1 rs (name a).2
    refine ⟨_, _, ?_, hkeeps.trans hmade, cell, hcell, ?_, ?_⟩
    · -- The nodes of the subtrees are what the node takes off the stack.
      have harity : ts.length = rs.reverse.length := by rw [List.length_reverse, hts.length_eq]
      rw [Rose.postorder_node, List.foldl_append, hfold, List.foldl_cons, List.foldl_nil]
      simp only [plantNode, Rose.children, Rose.value, harity, List.take_left, List.drop_left,
        List.reverse_reverse]
    · rw [hl, hp]
    · rw [hc, hr]
      refine holdsEach_iff.2 (hts.imp fun r t ht => ⟨ht.lt_size, ht.keep hmade⟩)

/-- Planting some trees puts nodes that hold them on the stack, the last on top. -/
theorem foldl_plantNode_children : ∀ (ts : List (Rose α)) (stack : List Ref) (f : Forest),
    ∃ rs g, (ts.flatMap Rose.postorder).foldl (plantNode name) (stack, f)
        = (rs.reverse ++ stack, g)
      ∧ f.Keeps g ∧ List.Forall₂ (g.Holds name) rs ts
  | [], stack, f => ⟨[], f, rfl, .refl f, .nil⟩
  | t :: ts, stack, f => by
    obtain ⟨r, g, hfold, hkeeps, ht⟩ := foldl_plantNode t stack f
    obtain ⟨rs, h, hfolds, hkeeps', hts⟩ := foldl_plantNode_children ts (r :: stack) g
    refine ⟨r :: rs, h, ?_, hkeeps.trans hkeeps', .cons (ht.keep hkeeps') hts⟩
    rw [List.flatMap_cons, List.foldl_append, hfold, hfolds, List.reverse_cons, List.append_assoc,
      List.singleton_append]

end

variable (name) in
/-- **Planting a tree makes a node that holds it**, and leaves other nodes alone. -/
theorem holds_plant (f : Forest) (t : Rose α) :
    f.Keeps (f.plant name t).2 ∧ (f.plant name t).2.Holds name (f.plant name t).1 t := by
  obtain ⟨r, g, hfold, hkeeps, ht⟩ := foldl_plantNode t [] f
  unfold plant
  rw [hfold]
  exact ⟨hkeeps, ht⟩

/-! ## Comparing -/

mutual

/-- **A node holds one tree** if names tell values apart. -/
theorem Holds.unique (hname : Function.Injective name) : ∀ {r : Ref} {t u : Rose α},
    f.Holds name r t → f.Holds name r u → t = u
  | _, .node a ts, .node b us, ⟨cell, hr, ha, hts⟩, ⟨cell', hr', hb, hus⟩ => by
    obtain rfl : cell = cell' := Option.some.inj (hr.symm.trans hr')
    rw [hname (ha.symm.trans hb), HoldsEach.unique hname hts hus]

theorem HoldsEach.unique (hname : Function.Injective name) : ∀ {bound : Ref} {rs : List Ref}
    {ts us : List (Rose α)}, f.HoldsEach name bound rs ts → f.HoldsEach name bound rs us → ts = us
  | _, [], [], [], _, _ => rfl
  | _, _ :: _, _ :: _, _ :: _, ⟨_, ht, hts⟩, ⟨_, hu, hus⟩ => by
    rw [Holds.unique hname ht hu, HoldsEach.unique hname hts hus]

end

variable (f name) in
/-- Where a walk stands when it has come down to a node that holds a tree: at least
as many steps are left as nodes were made before. -/
def HoldsAt (p : Ref × Nat) (t : Rose α) : Prop := p.1 ≤ p.2 ∧ f.Holds name p.1 t

/-- A walk goes on down to the children of a node that holds a tree. -/
theorem HoldsAt.children {p : Ref × Nat} {t : Rose α} (h : f.HoldsAt name p t) :
    List.Forall₂ (f.HoldsAt name) (f.branching.children p) t.children := by
  obtain ⟨r, depth⟩ := p
  obtain ⟨hle, ht⟩ := h
  have hchildren := ht.children
  cases depth with
  | zero =>
    -- The first node of a forest has no children that were made before it.
    show List.Forall₂ _ [] t.children
    cases hts : t.children with
    | nil => exact .nil
    | cons u us =>
      rw [hts] at hchildren
      obtain ⟨s, ss, ⟨hlt, -⟩, -⟩ := List.forall₂_cons_right_iff.1 hchildren
      exact absurd (Nat.lt_of_lt_of_le hlt hle) (Nat.not_lt_zero s)
  | succ depth =>
    show List.Forall₂ _ ((f.children r).map (·, depth)) t.children
    rw [List.forall₂_map_left_iff]
    exact hchildren.imp fun s u hs => ⟨Nat.le_of_lt_succ (Nat.lt_of_lt_of_le hs.1 hle), hs.2⟩

variable (f name) in
/-- A pair of nodes on the stack of a comparison holds two trees. -/
def HoldsPair (entry : (Ref × Nat) × Ref) (trees : Rose α × Rose α) : Prop :=
  f.HoldsAt name entry.1 trees.1 ∧ f.Holds name entry.2 trees.2

/-- **A comparison of nodes is a comparison of the trees they hold.** -/
theorem sameFrom_iff (hname : Function.Injective name) (pending : List ((Ref × Nat) × Ref))
    {trees : List (Rose α × Rose α)} (h : List.Forall₂ (f.HoldsPair name) pending trees) :
    f.sameFrom pending = true ↔ ∀ pair ∈ trees, pair.1 = pair.2 := by
  fun_induction sameFrom f pending generalizing trees with
  | case1 =>
    cases h
    simp
  | case2 p rest ih =>
    obtain ⟨⟨t, u⟩, trees, ⟨ht, hu⟩, hrest, rfl⟩ := List.forall₂_cons_left_iff.1 h
    -- One node holds one tree, so there is no need to look below.
    rw [ih hrest, List.forall_mem_cons]
    exact (and_iff_right (ht.2.unique hname hu)).symm
  | case3 p r rest hne hsame ih =>
    obtain ⟨⟨t, u⟩, trees, ⟨ht, hu⟩, hrest, rfl⟩ := List.forall₂_cons_left_iff.1 h
    obtain ⟨hlabel, hnumber, hlength⟩ := hsame
    have hvalue : t.value = u.value := by
      apply hname
      rw [← ht.2.name_eq, ← hu.name_eq, hlabel, hnumber]
    have hchildren : t.children.length = u.children.length := by
      rw [← ht.2.children.length_eq, ← hu.children.length_eq, hlength]
    have hpairs : List.Forall₂ (f.HoldsPair name)
        ((f.branching.children p).zip (f.children r)) (t.children.zip u.children) :=
      forall₂_zip ht.children (hu.children.imp fun _ _ hs => hs.2)
    rw [ih (List.rel_append (List.forall₂_reverse_iff.2 hpairs) hrest), List.forall_mem_cons,
      Rose.eq_iff_zip hvalue hchildren]
    simp only [List.mem_append, List.mem_reverse, or_imp, forall_and]
  | case4 p r rest hne hdiffer =>
    obtain ⟨⟨t, u⟩, trees, ⟨ht, hu⟩, hrest, rfl⟩ := List.forall₂_cons_left_iff.1 h
    refine iff_of_false Bool.false_ne_true fun hall => hdiffer ?_
    obtain rfl : t = u := hall _ List.mem_cons_self
    have hnames := ht.2.name_eq.trans hu.name_eq.symm
    obtain ⟨hlabel, hnumber⟩ := Prod.mk.inj hnames
    exact ⟨hlabel, hnumber, by rw [ht.2.children.length_eq, hu.children.length_eq]⟩

/-- **Equality of nodes is equality of the trees they hold.** -/
theorem same_iff (hname : Function.Injective name) {r s : Ref} {t u : Rose α}
    (ht : f.Holds name r t) (hu : f.Holds name s u) : f.same r s = true ↔ t = u := by
  have h : List.Forall₂ (f.HoldsPair name) [(f.position r, s)] [(t, u)] :=
    .cons ⟨⟨Nat.le_of_lt ht.lt_size, ht⟩, hu⟩ .nil
  unfold same
  rw [sameFrom_iff hname _ h, List.forall_mem_singleton]

end Holds

/-- Labels tell ids apart. -/
theorem idName_injective : Function.Injective idName := fun a b h =>
  (Rose.label_inj (t := .node a []) (u := .node b [])).1 (congrArg Prod.fst h)

end Forest

end HashConsing
