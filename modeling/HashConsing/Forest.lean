import Std.Data.TreeSet
import HashConsing.Rendering
import HashConsing.Rose
import HashConsing.Text.Quoted

/-!
# Forests

Labeled trees are handed out as objects: a node may hang in several trees, may
be given another label or a number later, and knows the node it hangs under. A
forest holds all nodes made so far. A node is referred to by its number in
order of creation, and consists of a cell with a label, references to children,
and what is known about it otherwise.

A new node becomes the parent of its children, whoever was their parent before.
Parents are remembered but not held: a node that cannot be reached from a
reference that someone holds is gone, and is the parent of none.

Walks over a forest go down from a node. No path without a repeated node is
longer than the forest has nodes, so a walk that stops at that depth misses
nothing unless a node is below itself. Whoever gives a node other children may
put it below itself; questions that need not look at everything below a node
still have their answers then.
-/

namespace HashConsing

-- Sums of numbers start from the numeral zero, whatever other zeros are around.
attribute [local instance (high)] Zero.ofOfNat0

/-- A reference to a node. -/
abbrev Ref := Nat

/-- **A node of a forest.** -/
structure Cell where
  label : String
  children : List Ref
  /-- The number of the node in some walk, once it has been numbered. -/
  postOrderId : Option Int
  /-- The node made last with this one among its children. -/
  parent : Option Ref
  /-- The number of nodes below, itself included, once it has been counted. -/
  size : Option Nat
  deriving Repr

/-- **All nodes made so far**, in order of creation. -/
structure Forest where
  cells : Array Cell
  deriving Repr

namespace Forest

/-- A forest without nodes. -/
def empty : Forest := ⟨#[]⟩

variable (f : Forest)

/-! ## Reading and changing nodes -/

/-- The label of a node. -/
def label (r : Ref) : String := (f.cells[r]?.map Cell.label).getD ""

/-- The children of a node. -/
def children (r : Ref) : List Ref := (f.cells[r]?.map Cell.children).getD []

/-- The number of a node in some walk. -/
def postOrderId (r : Ref) : Option Int := f.cells[r]?.bind Cell.postOrderId

/-- The remembered parent of a node, gone or not. -/
def parentRef? (r : Ref) : Option Ref := f.cells[r]?.bind Cell.parent

/-- The size of a node, if it has been counted. -/
def size? (r : Ref) : Option Nat := f.cells[r]?.bind Cell.size

/-- Changes one node. -/
def modify (r : Ref) (change : Cell → Cell) : Forest := ⟨f.cells.modify r change⟩

/-- Gives a node another label. -/
def setLabel (r : Ref) (label : String) : Forest := f.modify r ({ · with label })

/-- Gives a node a number. -/
def setPostOrderId (r : Ref) (postOrderId : Option Int) : Forest :=
  f.modify r ({ · with postOrderId })

/-- **Gives a node other children.** Their parents stay what they are, and so
does the size of the node if it has been counted. -/
def setChildren (r : Ref) (children : List Ref) : Forest := f.modify r ({ · with children })

/-- Remembers the parent of a node. -/
def setParent (r parent : Ref) : Forest := f.modify r ({ · with parent := some parent })

/-- Remembers the size of a node. -/
def setSize (r : Ref) (size : Nat) : Forest := f.modify r ({ · with size := some size })

/-! ## Making nodes -/

/-- **Makes a node** over existing ones, which get it for a parent. -/
def make (label : String) (children : List Ref) (postOrderId : Option Int) : Ref × Forest :=
  let r := f.cells.size
  let grown : Forest :=
    ⟨f.cells.push ⟨label, children, postOrderId, none, none⟩⟩
  (r, children.foldl (fun f child => f.setParent child r) grown)

/-- Makes the node for the root of a tree whose subtrees' nodes are on top of a
stack, most recent first, and puts it there instead. -/
def plantNode {α : Type} (name : α → String × Option Int) :
    List Ref × Forest → Rose α → List Ref × Forest
  | (stack, f), t =>
    let arity := t.children.length
    let (label, postOrderId) := name t.value
    let (r, f) := f.make label (stack.take arity).reverse postOrderId
    (r :: stack.drop arity, f)

/-- **Makes new nodes for a whole tree**, children first, with the labels and
numbers that its values stand for. -/
def plant {α : Type} (name : α → String × Option Int) (t : Rose α) : Ref × Forest :=
  let (stack, f) := t.postorder.foldl (plantNode name) ([], f)
  (stack.headD 0, f)

/-- What a new node for a canonical id gets: the text of the id for a label
(`Rose.label`), and no number. -/
def idName (id : Nat) : String × Option Int := (toString id, none)

/-- Makes new nodes for a tree of canonical ids. -/
def plantIds (t : Rose Nat) : Ref × Forest := f.plant idName t

/-! ## Walks -/

/-- The number of steps down from a node along paths of bounded length. -/
def weight : Nat → Ref → Nat
  | 0, _ => 1
  | depth + 1, r => 1 + ((f.children r).map (weight depth)).sum

/-- **The nodes below a node** to a depth, each as often as it is reached. -/
def branching : Branching (Ref × Nat) where
  children
    | (_, 0) => []
    | (r, depth + 1) => (f.children r).map (·, depth)
  weight | (r, depth) => f.weight depth r
  sum_weight_lt := by
    rintro ⟨r, _ | depth⟩
    · simp [weight]
    · simp [weight, Function.comp_def]

/-- The position at a node from where a walk reaches everything below. -/
def position (r : Ref) : Ref × Nat := (r, f.cells.size)

/-- **The nodes below a node, parents first.** -/
def preorder (r : Ref) : List Ref := (f.branching.preorder (f.position r)).map Prod.fst

/-- **The nodes below a node, children first.** -/
def postorder (r : Ref) : List Ref := (f.branching.postorder (f.position r)).map Prod.fst

/-- **The flat form of a tree**: label, number of children and number of each
node, parents first. -/
def flat (r : Ref) : List (String × Nat × Option Int) :=
  (f.preorder r).map fun n => (f.label n, (f.children n).length, f.postOrderId n)

/-! ## Parents -/

/-- Leaves out of some nodes those on a stack and those below them. -/
def unreached (remaining : Std.TreeSet Ref) (pending : List Ref) : Std.TreeSet Ref :=
  match pending with
  | [] => remaining
  | r :: rest =>
    if r ∈ remaining then unreached (remaining.erase r) (f.children r ++ rest)
    else unreached remaining rest
termination_by (remaining.size, pending.length)
decreasing_by
  · apply Prod.Lex.left
    have hempty : remaining.isEmpty = false :=
      Std.TreeSet.isEmpty_eq_false_iff_exists_mem.2 ⟨r, ‹_›⟩
    have hsize : remaining.size ≠ 0 := by
      simpa [Std.TreeSet.isEmpty_eq_size_eq_zero] using hempty
    rw [Std.TreeSet.size_erase, if_pos ‹_›]
    omega
  · apply Prod.Lex.right
    simp

/-- A node is reached from one of the references that are held. -/
def isHeld (held : List Ref) (r : Ref) : Bool :=
  r < f.cells.size && !(f.unreached (.ofList (List.range f.cells.size)) held).contains r

/-- **The parent of a node**, unless it is gone. -/
def parent (held : List Ref) (r : Ref) : Option Ref :=
  (f.parentRef? r).filter (f.isHeld held)

/-! ## Questions about one node -/

/-- **The canonical id of a node**: the integer its label is the text of. -/
def id (r : Ref) : Except Failure Int := Text.readInteger (f.label r)

/-- **The child at a position.** Negative positions count from the end. -/
def child (r : Ref) (position : Int) : Except Failure Ref :=
  let children := f.children r
  let index := if position < 0 then position + children.length else position
  if index < 0 then .error .noSuchChild
  else match children[index.toNat]? with
  | some child => .ok child
  | none => .error .noSuchChild

/-- **A node as a message shows it**: without its children, but with their
number. -/
def shown (r : Ref) : Except Failure String := do
  let number ← match f.postOrderId r with
    | none => pure "None"
    | some n => Text.writeInteger n
  let count := (f.children r).length
  return s!"CanonicalTree(label={Text.quote (f.label r)}, children=<{count}>, "
    ++ s!"post_order_id={number})"

/-! ## Finding nodes -/

/-- **The first wanted node**, parents first, with the number of nodes before
it. -/
def first? (r : Ref) (wanted : Ref → Bool) : Option (Nat × Ref) :=
  (f.branching.first? (fun p => wanted p.1) (f.position r)).map fun (before, p) => (before, p.1)

/-- **The first node with a label**, parents first, with the number of nodes
before it. -/
def findLabel (r : Ref) (label : String) : Option (Nat × Ref) :=
  f.first? r fun n => f.label n == label

/-- **The first node with a number**, parents first, with the number of nodes
before it. Nodes without a number are never found. -/
def findPostOrderId (r : Ref) (number : Option Int) : Option (Nat × Ref) :=
  match number with
  | none => none
  | some n => f.first? r fun m => f.postOrderId m == some n

/-! ## Equality -/

/-- Compares the pairs of nodes on a stack, and what is below them, the last
children first. -/
def sameFrom (pending : List ((Ref × Nat) × Ref)) : Bool :=
  match pending with
  | [] => true
  | (p, r) :: rest =>
    if p.1 = r then sameFrom rest
    else if f.label p.1 = f.label r ∧ f.postOrderId p.1 = f.postOrderId r
        ∧ (f.children p.1).length = (f.children r).length then
      sameFrom (((f.branching.children p).zip (f.children r)).reverse ++ rest)
    else false
termination_by (pending.map fun entry => f.branching.weight entry.1).sum
decreasing_by
  · have := f.branching.sum_weight_lt p
    simp only [List.map_cons, List.sum_cons]
    omega
  · have := f.branching.sum_weight_lt p
    have := f.branching.sum_weight_zip_le (f.branching.children p) (f.children r)
    simp only [List.map_append, List.map_cons, List.sum_append, List.sum_cons, List.map_reverse,
      List.sum_reverse]
    omega

/-- **Equality of trees**: the labels, the numbers and the children agree all the
way down. Parents do not count. A node is equal to itself without a look
below. -/
def same (r s : Ref) : Bool := f.sameFrom [(f.position r, s)]

/-! ## Sizes -/

/-- Counts a node whose children have been counted, unless it has been itself. -/
def countNode (f : Forest) (r : Ref) : Forest :=
  match f.size? r with
  | some _ => f
  | none => f.setSize r (1 + ((f.children r).map fun c => (f.size? c).getD 0).sum)

/-- **The number of nodes in a tree**, each as often as it is reached. It is
remembered, and so are the sizes of all nodes below. -/
def size (r : Ref) : Nat × Forest :=
  match f.size? r with
  | some n => (n, f)
  | none =>
    let f := (f.postorder r).foldl countNode f
    ((f.size? r).getD 0, f)

/-- **The size of the first tree with a label**, zero if there is none. -/
def sizeOfLabel (r : Ref) (label : String) : Nat × Forest :=
  match f.findLabel r label with
  | none => (0, f)
  | some (_, n) => f.size n

/-! ## Numbers -/

/-- **Numbers the nodes of a tree**, children first. A node that is reached more
than once keeps its last number. The next number comes with the forest. -/
def number (r : Ref) (start : Int) : Int × Forest :=
  (f.postorder r).foldl (fun (n, f) m => (n + 1, f.setPostOrderId m (some n))) (start, f)

/-- The canonical id of a node as a signed word of 64 bits. -/
def wordId (r : Ref) : Except Failure Int := do
  let id ← f.id r
  if Int64.minValue.toInt ≤ id ∧ id ≤ Int64.maxValue.toInt then return id
  else throw .outsideWord

/-- **The first nodes below a node, children first**, as many as asked for.
Before each node it sees, a walk goes down no more steps than there are nodes,
or else goes down for ever; so what is deeper need not be looked at. -/
def postorderTake (count : Nat) (r : Ref) : List Ref :=
  (f.branching.postorderTake count (r, (count + 1) * f.cells.size)).map Prod.fst

/-- **The canonical ids of a tree, children first**, as many as it has nodes
according to its size. -/
def postOrderIds (r : Ref) : Except Failure (List Int) × Forest :=
  let (size, f) := f.size r
  let ids := (f.postorderTake size r).mapM f.wordId
  (ids.bind fun ids =>
    if ids.length < size then .error (.tooFewNodes size ids.length) else .ok ids, f)

/-! ## Rendering -/

/-- **The rendering of a tree.** -/
def render (c : Classifier) (indent : String) (r : Ref) : Except Failure String :=
  f.branching.render (fun p => f.label p.1) c indent (f.position r)

end Forest

end HashConsing
