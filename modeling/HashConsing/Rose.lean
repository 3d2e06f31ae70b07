import HashConsing.Branching

/-!
# Rose trees

A rose tree has a value at every node and any number of children in order. The
result of labeling is one, with canonical ids for values; so is a tree that is
given as data.
-/

namespace HashConsing

-- Sums of numbers start from the numeral zero, whatever other zeros are around.
attribute [local instance (high)] Zero.ofOfNat0

/-- **A tree with a value at every node.** -/
inductive Rose (α : Type) where
  | node (value : α) (children : List (Rose α))
  deriving Inhabited

namespace Rose

variable {α β : Type}

/-- The value at the root. -/
def value : Rose α → α
  | node a _ => a

/-- The trees below the root. -/
def children : Rose α → List (Rose α)
  | node _ ts => ts

/-- The number of nodes. -/
def size : Rose α → Nat
  | node _ ts => 1 + (ts.map size).sum

@[simp] theorem size_node (a : α) (ts : List (Rose α)) :
    size (node a ts) = 1 + (ts.map size).sum := by rw [size]

/-- **The subtree at a position**, given by the way down to it. -/
def at? (t : Rose α) : List Nat → Option (Rose α)
  | [] => some t
  | i :: path => do (← t.children[i]?).at? path

/-- **The label of a labeled tree**: the text of the id at its root. Every id has one
here, also one beyond the digit limit, with which writing would fail; that a tree has
no such id is `Rose.HasLabels`. -/
def label (t : Rose Nat) : String := toString t.value

/-- Labels tell ids apart. -/
theorem label_inj {t u : Rose Nat} : t.label = u.label ↔ t.value = u.value := by
  constructor
  · intro h
    have hdigits : Nat.toDigits 10 t.value = Nat.toDigits 10 u.value := by
      rw [← Nat.toList_repr, ← Nat.toList_repr]
      exact congrArg String.toList h
    rw [← Nat.ofDigitChars_ten_toDigits (n := t.value), hdigits, Nat.ofDigitChars_ten_toDigits]
  · exact congrArg toString

/-- The subtrees of a tree, weighed by their sizes. -/
def branching : Branching (Rose α) where
  children := children
  weight := size
  sum_weight_lt t := by
    cases t
    simp [children]

/-- **The subtrees of a tree, parents first.** -/
def preorder (t : Rose α) : List (Rose α) := branching.preorder t

/-- **The subtrees of a tree, children first.** -/
def postorder (t : Rose α) : List (Rose α) := branching.postorder t

/-- The subtrees below the root come before the tree. -/
theorem postorder_node (a : α) (ts : List (Rose α)) :
    (node a ts).postorder = ts.flatMap postorder ++ [node a ts] :=
  branching.postorder_eq (node a ts)

end Rose

end HashConsing
