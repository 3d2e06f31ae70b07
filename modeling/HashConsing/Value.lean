import HashConsing.Double
import HashConsing.Word

/-!
# Values and nodes

A syntax tree reaches this library as a value: a node with named attributes,
whose values are again nodes, sequences of nodes, or the raw data at the
leaves. What an attribute holds is not known in advance, so one type covers
everything that can occur, also what turns out to be misplaced.

Nodes are objects: two nodes with the same kind and the same attributes need
not be the same node. The head of a node carries the number that tells it from
other nodes, and two texts that come from outside and may be missing: the one
that describes the node, and the one that stands for it where it is a value
among others.
-/

namespace HashConsing

/-- **The head of a node**: everything but its attributes. -/
structure NodeHead where
  /-- The identity of the node. -/
  ref : Nat
  /-- The type of the node, as messages name it. -/
  typeName : String
  /-- The kind of the node, which decides what its attributes mean. -/
  kind : String
  /-- The text that describes the node; none if describing it fails. -/
  description : Option String
  /-- The text of the node as a value; none if it holds an integer that is too
  long to be written. -/
  text : Option String
  deriving DecidableEq, Repr

/-- **A value of an attribute.** A set lists its members in the order in which
it goes through them. That order is in no way determined by the members; it is
up to whoever makes the set. A dictionary lists its entries in order of
insertion. `Value.Agreement` builds both. -/
inductive Value where
  | null
  | ellipsis
  | bool (b : Bool)
  | int (n : Int)
  | word (w : Word)
  | float (x : Double)
  | complex (re im : Double)
  | text (s : String)
  | bytes (data : List UInt8)
  | tuple (items : List Value)
  | frozenset (members : List Value)
  | list (items : List Value)
  | set (members : List Value)
  | dict (entries : List (Value × Value))
  | node (head : NodeHead) (attributes : List (String × Value))
  deriving Inhabited

namespace Value

/-- **The name of a value's type**, as messages show it. -/
def typeName : Value → String
  | null => "NoneType"
  | ellipsis => "ellipsis"
  | bool _ => "bool"
  | int _ => "int"
  | word w => w.type.name
  | float _ => "float"
  | complex _ _ => "complex"
  | text _ => "str"
  | bytes _ => "bytes"
  | tuple _ => "tuple"
  | frozenset _ => "frozenset"
  | list _ => "list"
  | set _ => "set"
  | dict _ => "dict"
  | node head _ => head.typeName

/-- The description of a node. Any other value is described by its type. -/
def description : Value → Option String
  | node head _ => head.description
  | v => some v.typeName

/-- A value stands for what is absent. -/
def isNull : Value → Bool
  | null => true
  | _ => false

/-- The items of a sequence. -/
def sequence? : Value → Option (List Value)
  | tuple items => some items
  | list items => some items
  | _ => none

theorem sizeOf_lt_of_mem_sequence {v item : Value} {items : List Value}
    (h : v.sequence? = some items) (hi : item ∈ items) : sizeOf item < sizeOf v := by
  cases v <;> simp only [sequence?, Option.some.injEq, reduceCtorEq] at h
  all_goals
    subst h
    have := List.sizeOf_lt_of_mem hi
    simp only [tuple.sizeOf_spec, list.sizeOf_spec]
    omega

theorem sizeOf_lt_of_lookup {head : NodeHead} {attributes : List (String × Value)}
    {name : String} {v : Value} (h : attributes.lookup name = some v) :
    sizeOf v < sizeOf (node head attributes) := by
  have hmem : (name, v) ∈ attributes := by
    induction attributes with
    | nil => simp at h
    | cons entry rest ih =>
      rw [List.lookup_cons] at h
      split at h
      next heq =>
        obtain rfl := Option.some.inj h
        simp [eq_of_beq heq]
      next => exact List.mem_cons_of_mem _ (ih h)
  have := List.sizeOf_lt_of_mem hmem
  simp only [Prod.mk.sizeOf_spec, node.sizeOf_spec] at this ⊢
  omega

end Value

end HashConsing
