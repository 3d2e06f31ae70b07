import HashConsing.Proofs.FlatForms
import HashConsing.Proofs.PostOrder

/-!
# Walks without bound

A walk over a tree keeps a stack of what is still to be visited, and goes on until the stack is
empty. The walks of a forest stop at a depth that no tree exceeds; here they are as they would be
without that bound, `Forest.parentsFirstFrom` and `Forest.childrenFirstFrom`. They come to an end
exactly if no node is below itself, and then they come to the nodes that the bounded walks come to.

What lies on the stack below a node waits until everything below that node has been visited. So the
walk from a stack is made of the walks from its entries, one after the other
(`runs_append`), and the walks are what anyone would write first: a node and then the walks of its
children, or the walks of its children and then the node. A node with several ways down to it is
visited once for each of them. Walking with children first is walking with parents first from right
to left, backwards (`Acyclic.postorder_eq_reverse`).

A search takes the first node that is wanted, parents first (`Forest.foundFirst_first?`).
-/

namespace HashConsing

/-- **What is on a stack is run through from the top**: if each of the topmost entries is done with
before what is below it, so are all of them. -/
theorem runs_append {α β : Type} {run : List α → Option (List β)} {made : α → List β} {as : List α}
    (h : ∀ a ∈ as, ∀ rest, run (a :: rest) = (run rest).map (made a ++ ·)) (rest : List α) :
    run (as ++ rest) = (run rest).map (as.flatMap made ++ ·) := by
  induction as with
  | nil => exact (congrFun Option.map_id (run rest)).symm
  | cons a as ih =>
    obtain ⟨ha, has⟩ := List.forall_mem_cons.1 h
    rw [List.cons_append, ha, ih has, Option.map_map]
    refine congrArg (Option.map · (run rest)) (funext fun made => ?_)
    rw [Function.comp_apply, List.flatMap_cons, List.append_assoc]

namespace Forest

variable {f : Forest} {q r : Ref}

/-! ## The walks -/

/-- **Visits the nodes on a stack, parents first**: the topmost one is next, and its children take
its place. -/
def parentsFirstFrom (f : Forest) (stack : List Ref) : Option (List Ref) :=
  match stack with
  | [] => some []
  | r :: rest => do return r :: (← f |>.parentsFirstFrom (f.children r ++ rest))
partial_fixpoint

/-- **Visits the nodes on a stack, children first**: the topmost one waits below its children, and
is next when it comes to the top again. -/
def childrenFirstFrom (f : Forest) (stack : List (Ref × Bool)) : Option (List Ref) :=
  match stack with
  | [] => some []
  | (r, true) :: rest => do return r :: (← f |>.childrenFirstFrom rest)
  | (r, false) :: rest =>
    f |>.childrenFirstFrom (Branching.unvisited (f.children r) ++ (r, true) :: rest)
partial_fixpoint

/-- The nodes below a node, children first, unfold to the trees of its tree, children first. -/
theorem Unfolds.postorder {t : Rose Ref} (h : f.Unfolds r t) :
    List.Forall₂ f.Unfolds (f.postorder r) t.postorder := by
  rw [Forest.postorder, List.forall₂_map_left_iff]
  exact (Branching.forall₂_postorder f.branching Rose.branching (fun _ _ hp => hp.children)
    h.unfoldsAt).imp fun p u hp => hp.unfolds

theorem Unfolds.postorder_eq {t : Rose Ref} (h : f.Unfolds r t) :
    f.postorder r = t.postorder.map Rose.value := by
  rw [← List.forall₂_eq_eq_eq, List.forall₂_map_right_iff]
  exact h.postorder.imp fun n u hu => hu.root.symm

/-- **The nodes below a node, children first**, are those below its children and the node. -/
theorem Acyclic.postorder_eq (h : f.Acyclic r) :
    f.postorder r = (f.children r).flatMap f.postorder ++ [r] := by
  obtain ⟨⟨a, ts⟩, ht⟩ := h.exists_unfolds
  obtain rfl : a = r := ht.root
  have hbelow : ∀ t ∈ ts, f.postorder t.value = t.postorder.map Rose.value :=
    fun t hmem => (ht.child hmem).postorder_eq
  rw [ht.postorder_eq, Rose.postorder_node, List.map_append, List.map_flatMap,
    ← ht.map_value_children, List.flatMap_map]
  exact congrArg (· ++ [a]) (List.flatMap_congr hbelow).symm

/-- **Everything below an acyclic node is visited before what is below it on the stack**, parents
first, -/
theorem Acyclic.parentsFirstFrom_cons (h : f.Acyclic r) (rest : List Ref) :
    f.parentsFirstFrom (r :: rest) = (f.parentsFirstFrom rest).map (f.preorder r ++ ·) := by
  revert rest
  refine h.induction fun r hr ih rest => ?_
  rw [parentsFirstFrom, runs_append ih, hr.preorder_eq]
  cases f.parentsFirstFrom rest <;> rfl

/-- and children first. -/
theorem Acyclic.childrenFirstFrom_cons (h : f.Acyclic r) (rest : List (Ref × Bool)) :
    f.childrenFirstFrom ((r, false) :: rest)
      = (f.childrenFirstFrom rest).map (f.postorder r ++ ·) := by
  revert rest
  refine h.induction fun r hr ih rest => ?_
  have hbelow : ∀ entry ∈ Branching.unvisited (f.children r), ∀ rest,
      f.childrenFirstFrom (entry :: rest)
        = (f.childrenFirstFrom rest).map (f.postorder entry.1 ++ ·) := by
    intro entry hentry rest
    obtain ⟨c, hc, rfl⟩ := List.mem_map.1 hentry
    exact ih c hc rest
  have hwalks : (Branching.unvisited (f.children r)).flatMap (fun entry => f.postorder entry.1)
      = (f.children r).flatMap f.postorder := List.flatMap_map ..
  rw [childrenFirstFrom, runs_append hbelow, hwalks, childrenFirstFrom, hr.postorder_eq]
  cases f.childrenFirstFrom rest with
  | none => rfl
  | some ns => exact congrArg some (List.append_cons _ r ns)

/-! ## Where walks end -/

/-- A node over acyclic nodes is acyclic. -/
theorem Acyclic.of_children (h : ∀ c ∈ f.children r, f.Acyclic c) : f.Acyclic r := by
  intro q hq c hc hback
  rcases hq.cases_head with rfl | ⟨d, hd, hq⟩
  · exact h c hc r hback c hc hback
  · exact h d hd q hq c hc hback

/-- **A walk with parents first ends only at acyclic nodes**, -/
theorem acyclic_of_parentsFirstFrom {stack ns : List Ref} (h : f.parentsFirstFrom stack = some ns) :
    ∀ r ∈ stack, f.Acyclic r := by
  refine parentsFirstFrom.partial_correctness f (fun stack _ => ∀ r ∈ stack, f.Acyclic r) ?_
    stack ns h
  rintro walk ih (_ | ⟨r, rest⟩) ns h
  · exact List.forall_mem_nil _
  · obtain ⟨ms, hms, -⟩ := Option.bind_eq_some_iff.1 h
    obtain ⟨hchildren, hrest⟩ := List.forall_mem_append.1 (ih _ _ hms)
    exact List.forall_mem_cons.2 ⟨.of_children hchildren, hrest⟩

/-- and so does a walk with children first. -/
theorem acyclic_of_childrenFirstFrom {stack : List (Ref × Bool)} {ns : List Ref}
    (h : f.childrenFirstFrom stack = some ns) : ∀ r, (r, false) ∈ stack → f.Acyclic r := by
  refine childrenFirstFrom.partial_correctness f (fun stack _ => ∀ r, (r, false) ∈ stack →
    f.Acyclic r) ?_ stack ns h
  rintro walk ih (_ | ⟨⟨q, _ | _⟩, rest⟩) ns h r hr
  · cases hr
  · have hstack := ih _ _ h
    rcases List.mem_cons.1 hr with heq | hr
    · obtain rfl : r = q := congrArg Prod.fst heq
      refine .of_children fun c hc => hstack c (List.mem_append_left _ ?_)
      exact List.mem_map_of_mem hc
    · exact hstack r (List.mem_append_right _ (List.mem_cons_of_mem _ hr))
  · obtain ⟨ms, hms, -⟩ := Option.bind_eq_some_iff.1 h
    rcases List.mem_cons.1 hr with heq | hr
    · cases heq
    · exact ih _ _ hms r hr

/-! ## From right to left -/

/-- **The same nodes with their children from right to left.** -/
def mirrored (f : Forest) : Forest :=
  ⟨f.cells.map fun cell => { cell with children := cell.children.reverse }⟩

theorem children_mirrored (f : Forest) (r : Ref) :
    f.mirrored.children r = (f.children r).reverse := by
  unfold children mirrored
  rw [Array.getElem?_map]
  cases f.cells[r]? <;> rfl

/-- What is below an acyclic node from left to right is so from right to left. -/
theorem Acyclic.mirrored (h : f.Acyclic r) : f.mirrored.Acyclic r := by
  refine h.induction fun q _ ih => .of_children fun c hc => ?_
  rw [children_mirrored] at hc
  exact ih c (List.mem_reverse.1 hc)

/-- **Children first is parents first from right to left, backwards.** -/
theorem Acyclic.postorder_eq_reverse (h : f.Acyclic r) :
    f.postorder r = (f.mirrored.preorder r).reverse := by
  refine h.induction fun q hq ih => ?_
  rw [hq.postorder_eq, hq.mirrored.preorder_eq, children_mirrored, List.reverse_cons,
    List.reverse_flatMap, List.reverse_reverse]
  exact congrArg (· ++ [q]) (List.flatMap_congr ih)

/-! ## Searches -/

/-- **What is found first in a walk**: a node that is wanted, with the number of nodes before it,
none of which is wanted; or nothing, if no node is wanted. -/
def FoundFirst (ns : List Ref) (wanted : Ref → Prop) : Option (Nat × Ref) → Prop
  | some (before, n) => ns[before]? = some n ∧ wanted n
      ∧ ∀ i < before, ∀ m, ns[i]? = some m → ¬ wanted m
  | none => ∀ n ∈ ns, ¬ wanted n

theorem first?_eq (f : Forest) (r : Ref) (wanted : Ref → Bool) :
    f.first? r wanted
      = ((f.preorder r).find? wanted).map fun n => ((f.preorder r).findIdx wanted, n) := by
  rw [first?, Branching.first?_eq, preorder, List.find?_map, List.findIdx_map, Option.map_map,
    Option.map_map]
  rfl

/-- **A search finds the first wanted node**, parents first. -/
theorem foundFirst_first? (f : Forest) (r : Ref) (wanted : Ref → Bool) :
    FoundFirst (f.preorder r) (wanted · = true) (f.first? r wanted) := by
  rw [first?_eq]
  cases hfind : (f.preorder r).find? wanted with
  | none => exact fun n hn => List.find?_eq_none.1 hfind n hn
  | some n =>
    have hlt : (f.preorder r).findIdx wanted < (f.preorder r).length :=
      List.findIdx_lt_length_of_exists
        ⟨n, List.mem_of_find?_eq_some hfind, List.find?_some hfind⟩
    refine ⟨?_, List.find?_some hfind, fun i hi m hm => ?_⟩
    · rw [← hfind, List.find?_eq_getElem?_findIdx]
    · obtain ⟨hi', rfl⟩ := List.getElem?_eq_some_iff.1 hm
      exact ne_true_of_eq_false (List.not_of_lt_findIdx hi)

/-- What is found first is determined by the walk. -/
theorem FoundFirst.unique {ns : List Ref} {wanted : Ref → Prop} {found found' : Option (Nat × Ref)}
    (h : FoundFirst ns wanted found) (h' : FoundFirst ns wanted found') : found = found' := by
  have hsome : ∀ {before : Nat} {n : Ref}, ns[before]? = some n → wanted n →
      ¬ FoundFirst ns wanted none :=
    fun hn hwanted hnone => hnone _ (List.mem_of_getElem? hn) hwanted
  rcases found with _ | ⟨before, n⟩ <;> rcases found' with _ | ⟨before', n'⟩
  · rfl
  · exact absurd h (hsome h'.1 h'.2.1)
  · exact absurd h' (hsome h.1 h.2.1)
  · obtain ⟨hn, hwanted, hfirst⟩ := h
    obtain ⟨hn', hwanted', hfirst'⟩ := h'
    rcases Nat.lt_trichotomy before before' with hlt | rfl | hlt
    · exact absurd hwanted (hfirst' before hlt n hn)
    · obtain rfl : n = n' := Option.some.inj (hn.symm.trans hn')
      rfl
    · exact absurd hwanted' (hfirst before' hlt n' hn')

/-! ## The walks of a node -/

/-- **Walks are what recursion gives.** A walk from a node comes to an end exactly if the node is
acyclic, however nodes are shared below it. With parents first it comes to the node and then, child
by child, to what it comes to from the children; with children first it is the other way round. A
node is visited as often on both walks, and the one walk is the other from right to left and
backwards. A search for a label or a number finds the first node of the walk with parents first that
has it, and finds nothing only if there is none; a search for no number finds nothing, also where
nodes have no number. -/
theorem walks_exact (f : Forest) (r : Ref) :
    ((∃ ns, f.parentsFirstFrom [r] = some ns) ↔ f.Acyclic r)
    ∧ ((∃ ns, f.childrenFirstFrom [(r, false)] = some ns) ↔ f.Acyclic r)
    ∧ (f.Acyclic r →
      f.parentsFirstFrom [r] = some (f.preorder r)
      ∧ f.childrenFirstFrom [(r, false)] = some (f.postorder r)
      ∧ f.preorder r = r :: (f.children r).flatMap f.preorder
      ∧ f.postorder r = (f.children r).flatMap f.postorder ++ [r]
      ∧ (f.preorder r).Perm (f.postorder r)
      ∧ f.postorder r = (f.mirrored.preorder r).reverse
      ∧ (∀ label, FoundFirst (f.preorder r) (f.label · = label) (f.findLabel r label))
      ∧ ∀ number, FoundFirst (f.preorder r) (f.postOrderId · = some number)
          (f.findPostOrderId r (some number)))
    ∧ f.findPostOrderId r none = none := by
  have hdown : f.Acyclic r → f.parentsFirstFrom [r] = some (f.preorder r) := fun h => by
    rw [h.parentsFirstFrom_cons, parentsFirstFrom, Option.map_some, List.append_nil]
  have hup : f.Acyclic r → f.childrenFirstFrom [(r, false)] = some (f.postorder r) := fun h => by
    rw [h.childrenFirstFrom_cons, childrenFirstFrom, Option.map_some, List.append_nil]
  refine ⟨⟨?_, fun h => ⟨_, hdown h⟩⟩, ⟨?_, fun h => ⟨_, hup h⟩⟩, fun h => ⟨hdown h, hup h,
    h.preorder_eq, h.postorder_eq, f.preorder_perm_postorder r, h.postorder_eq_reverse, ?_, ?_⟩,
    rfl⟩
  · rintro ⟨ns, hns⟩
    exact acyclic_of_parentsFirstFrom hns r List.mem_cons_self
  · rintro ⟨ns, hns⟩
    exact acyclic_of_childrenFirstFrom hns r List.mem_cons_self
  · intro label
    have hfound := f.foundFirst_first? r fun n => f.label n == label
    simp only [beq_iff_eq] at hfound
    exact hfound
  · intro number
    have hfound := f.foundFirst_first? r fun n => f.postOrderId n == some number
    simp only [beq_iff_eq] at hfound
    exact hfound

/-- A node over a node and one of the two leaves below that, which is visited twice. The node is
older than what is below it. -/
def lattice : Forest :=
  ⟨#[⟨"6", [1, 2], none, none, none⟩, ⟨"5", [2, 3], none, none, none⟩,
    ⟨"3", [], none, none, none⟩, ⟨"4", [], some 7, none, none⟩]⟩

theorem walks_exact_lattice :
    lattice.Acyclic 0 ∧ lattice.parentsFirstFrom [0] = some [0, 1, 2, 3, 2]
      ∧ lattice.childrenFirstFrom [(0, false)] = some [2, 3, 1, 2, 0]
      ∧ lattice.findPostOrderId 0 (some 7) = some (3, 3) := by
  have hleaf : lattice.Acyclic 2 := .of_children (List.forall_mem_nil _)
  have hleaf' : lattice.Acyclic 3 := .of_children (List.forall_mem_nil _)
  have hnode : lattice.Acyclic 1 := .of_children (List.forall_mem_cons.2 ⟨hleaf,
    List.forall_mem_singleton.2 hleaf'⟩)
  have hroot : lattice.Acyclic 0 := .of_children (List.forall_mem_cons.2 ⟨hnode,
    List.forall_mem_singleton.2 hleaf⟩)
  obtain ⟨-, -, hwalks, -⟩ := lattice.walks_exact 0
  obtain ⟨hdown, hup, -, -, -, -, -, hfind⟩ := hwalks hroot
  have h0 : lattice.children 0 = [1, 2] := rfl
  have h1 : lattice.children 1 = [2, 3] := rfl
  have h2 : lattice.children 2 = [] := rfl
  have h3 : lattice.children 3 = [] := rfl
  have hpreorder : lattice.preorder 0 = [0, 1, 2, 3, 2] := by
    simp [hroot.preorder_eq, hnode.preorder_eq, hleaf.preorder_eq, hleaf'.preorder_eq, h0, h1,
      h2, h3]
  have hpostorder : lattice.postorder 0 = [2, 3, 1, 2, 0] := by
    simp [hroot.postorder_eq, hnode.postorder_eq, hleaf.postorder_eq, hleaf'.postorder_eq, h0, h1,
      h2, h3]
  have hfirst : FoundFirst [0, 1, 2, 3, 2] (lattice.postOrderId · = some 7) (some (3, 3)) := by
    refine ⟨rfl, rfl, fun i hi m hm => ?_⟩
    match i, hi with
    | 0, _ | 1, _ | 2, _ =>
      obtain rfl := Option.some.inj hm
      decide
  rw [hpreorder] at hdown hfind
  rw [hpostorder] at hup
  exact ⟨hroot, hdown, hup, (hfind 7).unique hfirst⟩

end Forest

end HashConsing
