/-!
# Walking without recursion

Trees can be far deeper than a program may recurse, so every walk here keeps
its own stack of what is still to be visited. What a walk needs to know of a
tree is collected in a `Branching`: the children of each position, and a weight
that shows the walk to end.

The two walks visit a position before its children or after them. Both are what
the recursive definition says they are: `preorder_eq` and `postorder_eq`. A
position that is reached in several ways is visited each time. Where only the
beginning of a walk is asked for, the walk stops there: `first?_eq` and
`postorderTake_eq`.
-/

namespace HashConsing

-- Sums of numbers start from the numeral zero, whatever other zeros are around.
attribute [local instance (high)] Zero.ofOfNat0

/-- **Positions with children.** The weight of a position exceeds the weights of
its children together. -/
structure Branching (α : Type) where
  children : α → List α
  weight : α → Nat
  sum_weight_lt : ∀ a, ((children a).map weight).sum < weight a

namespace Branching

variable {α : Type} (b : Branching α)

/-- Pairing positions with something else does not add to their weight. -/
theorem sum_weight_zip_le {β : Type} (as : List α) (bs : List β) :
    ((as.zip bs).map fun entry => b.weight entry.1).sum ≤ (as.map b.weight).sum := by
  induction as generalizing bs with
  | nil => simp
  | cons a as ih =>
    cases bs with
    | nil => simp
    | cons c bs =>
      have := ih bs
      simp only [List.zip_cons_cons, List.map_cons, List.sum_cons]
      omega

/-! ## Parents first -/

/-- Visits the positions on a stack, and then what is below them, in turn. -/
def preorderFrom (pending : List α) (seen : Array α) : Array α :=
  match pending with
  | [] => seen
  | a :: rest => preorderFrom (b.children a ++ rest) (seen.push a)
termination_by (pending.map b.weight).sum
decreasing_by
  have := b.sum_weight_lt a
  simp only [List.map_append, List.map_cons, List.sum_append, List.sum_cons]
  omega

/-- **The positions below one, parents first**, children in order. -/
def preorder (a : α) : List α := (b.preorderFrom [a] #[]).toList

theorem toList_preorderFrom (pending : List α) (seen : Array α) :
    (b.preorderFrom pending seen).toList = seen.toList ++ pending.flatMap b.preorder := by
  match pending with
  | [] => simp [preorderFrom]
  | a :: rest =>
    have ha : b.preorder a = a :: (b.children a).flatMap b.preorder := by
      rw [preorder, preorderFrom, toList_preorderFrom (b.children a ++ []) (#[].push a)]
      simp
    rw [preorderFrom, toList_preorderFrom (b.children a ++ rest)]
    simp [ha]
termination_by (pending.map b.weight).sum
decreasing_by
  all_goals
    have := b.sum_weight_lt a
    simp only [List.map_append, List.map_cons, List.map_nil, List.sum_append, List.sum_cons,
      List.sum_nil]
    omega

/-- **A walk with parents first** is the position followed by the walks of its
children. -/
theorem preorder_eq (a : α) : b.preorder a = a :: (b.children a).flatMap b.preorder := by
  rw [preorder, preorderFrom, toList_preorderFrom]
  simp

/-! ## The first position of a walk -/

/-- The first wanted position among those on a stack and below them, parents
first, with the number of positions before it. -/
def firstFrom (wanted : α → Bool) (pending : List α) (before : Nat) : Option (Nat × α) :=
  match pending with
  | [] => none
  | a :: rest =>
    if wanted a then some (before, a)
    else firstFrom wanted (b.children a ++ rest) (before + 1)
termination_by (pending.map b.weight).sum
decreasing_by
  have := b.sum_weight_lt a
  simp only [List.map_append, List.map_cons, List.sum_append, List.sum_cons]
  omega

/-- **The first wanted position below one**, parents first, with the number of
positions before it. The walk goes no further. -/
def first? (wanted : α → Bool) (a : α) : Option (Nat × α) := b.firstFrom wanted [a] 0

theorem firstFrom_eq (wanted : α → Bool) (pending : List α) (before : Nat) :
    b.firstFrom wanted pending before
      = ((pending.flatMap b.preorder).find? wanted).map fun a =>
          (before + (pending.flatMap b.preorder).findIdx wanted, a) := by
  match pending with
  | [] => simp [firstFrom]
  | a :: rest =>
    rw [firstFrom]
    cases hw : wanted a with
    | true => simp [preorder_eq b a, hw, List.findIdx_cons]
    | false =>
      rw [if_neg (by simp), firstFrom_eq wanted (b.children a ++ rest)]
      simp [preorder_eq b a, hw, List.findIdx_cons, Nat.add_assoc, Nat.add_comm 1]
termination_by (pending.map b.weight).sum
decreasing_by
  have := b.sum_weight_lt a
  simp only [List.map_append, List.map_cons, List.sum_append, List.sum_cons]
  omega

/-- **The first wanted position of a walk** with parents first is the first one
of its list. -/
theorem first?_eq (wanted : α → Bool) (a : α) :
    b.first? wanted a
      = ((b.preorder a).find? wanted).map fun p => ((b.preorder a).findIdx wanted, p) := by
  rw [first?, firstFrom_eq]
  simp

/-! ## Children first -/

/-- The weight of an entry on the stack of a walk with children first: a
position whose children have been visited costs one more step. -/
def entryWeight (entry : α × Bool) : Nat := if entry.2 then 1 else 2 * b.weight entry.1

/-- Entries of positions whose children have not been visited. -/
def unvisited (as : List α) : List (α × Bool) := as.map (·, false)

theorem sum_entryWeight_unvisited (as : List α) :
    ((unvisited as).map b.entryWeight).sum = 2 * (as.map b.weight).sum := by
  induction as with
  | nil => rfl
  | cons a as ih =>
    simp only [unvisited] at ih
    simp only [unvisited, List.map_cons, List.sum_cons, ih, entryWeight, Bool.false_eq_true,
      if_false]
    omega

/-- Visits the positions on a stack. An entry is marked once its children are on
the stack above it. -/
def postorderFrom (pending : List (α × Bool)) (seen : Array α) : Array α :=
  match pending with
  | [] => seen
  | (a, true) :: rest => postorderFrom rest (seen.push a)
  | (a, false) :: rest =>
    postorderFrom (unvisited (b.children a) ++ (a, true) :: rest) seen
termination_by (pending.map b.entryWeight).sum
decreasing_by
  · simp [entryWeight]
  · have := b.sum_weight_lt a
    simp only [List.map_append, List.map_cons, List.sum_append, List.sum_cons,
      sum_entryWeight_unvisited]
    simp only [entryWeight, if_true, Bool.false_eq_true, if_false]
    omega

/-- **The positions below one, children first**, from left to right. -/
def postorder (a : α) : List α := (b.postorderFrom [(a, false)] #[]).toList

/-- What the walk makes of one entry of its stack. -/
def visit (entry : α × Bool) : List α := if entry.2 then [entry.1] else b.postorder entry.1

theorem toList_postorderFrom (pending : List (α × Bool)) (seen : Array α) :
    (b.postorderFrom pending seen).toList = seen.toList ++ pending.flatMap b.visit := by
  match pending with
  | [] => simp [postorderFrom]
  | (a, true) :: rest =>
    rw [postorderFrom, toList_postorderFrom rest]
    simp [visit]
  | (a, false) :: rest =>
    have ha : b.postorder a = (unvisited (b.children a)).flatMap b.visit ++ [a] := by
      rw [postorder, postorderFrom,
        toList_postorderFrom (unvisited (b.children a) ++ [(a, true)]) #[]]
      simp [visit]
    rw [postorderFrom,
      toList_postorderFrom (unvisited (b.children a) ++ (a, true) :: rest)]
    simp [visit, ha]
termination_by (pending.map b.entryWeight).sum
decreasing_by
  · simp [entryWeight]
  all_goals
    have := b.sum_weight_lt a
    simp only [List.map_append, List.map_cons, List.map_nil, List.sum_append, List.sum_cons,
      List.sum_nil, sum_entryWeight_unvisited]
    simp only [entryWeight, if_true, Bool.false_eq_true, if_false]
    omega

/-- **A walk with children first** is the walks of the children followed by the
position. -/
theorem postorder_eq (a : α) :
    b.postorder a = (b.children a).flatMap b.postorder ++ [a] := by
  rw [postorder, postorderFrom, toList_postorderFrom]
  simp [unvisited, visit, List.flatMap_map]

/-! ## The beginning of a walk -/

/-- Visits the positions on a stack, children first, until the given number of
positions has been seen. -/
def postorderTakeFrom (count : Nat) (pending : List (α × Bool)) (seen : Array α) : Array α :=
  match count, pending with
  | 0, _ => seen
  | _ + 1, [] => seen
  | count + 1, (a, true) :: rest => postorderTakeFrom count rest (seen.push a)
  | count + 1, (a, false) :: rest =>
    postorderTakeFrom (count + 1) (unvisited (b.children a) ++ (a, true) :: rest) seen
termination_by (pending.map b.entryWeight).sum
decreasing_by
  · simp [entryWeight]
  · have := b.sum_weight_lt a
    simp only [List.map_append, List.map_cons, List.sum_append, List.sum_cons,
      sum_entryWeight_unvisited]
    simp only [entryWeight, if_true, Bool.false_eq_true, if_false]
    omega

/-- **The first positions below one, children first**, as many as asked for. The
walk goes no further. -/
def postorderTake (count : Nat) (a : α) : List α :=
  (b.postorderTakeFrom count [(a, false)] #[]).toList

theorem toList_postorderTakeFrom (count : Nat) (pending : List (α × Bool)) (seen : Array α) :
    (b.postorderTakeFrom count pending seen).toList
      = seen.toList ++ (pending.flatMap b.visit).take count := by
  match count, pending with
  | 0, _ => simp [postorderTakeFrom]
  | _ + 1, [] => simp [postorderTakeFrom]
  | count + 1, (a, true) :: rest =>
    rw [postorderTakeFrom, toList_postorderTakeFrom count rest]
    simp [visit]
  | count + 1, (a, false) :: rest =>
    rw [postorderTakeFrom, toList_postorderTakeFrom (count + 1)]
    simp [visit, postorder_eq b a, unvisited, List.flatMap_map]
termination_by (pending.map b.entryWeight).sum
decreasing_by
  · simp [entryWeight]
  · have := b.sum_weight_lt a
    simp only [List.map_append, List.map_cons, List.sum_append, List.sum_cons,
      sum_entryWeight_unvisited]
    simp only [entryWeight, if_true, Bool.false_eq_true, if_false]
    omega

/-- **The beginning of a walk** with children first is that of its list. -/
theorem postorderTake_eq (count : Nat) (a : α) :
    b.postorderTake count a = (b.postorder a).take count := by
  rw [postorderTake, toList_postorderTakeFrom]
  simp [visit]

end Branching

end HashConsing
