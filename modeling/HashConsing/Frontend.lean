import HashConsing.Failure
import HashConsing.Grammar
import HashConsing.Value

/-!
# Front-ends

A front-end reads syntax trees of one origin. It tells nodes from other values,
names the kind of a node, knows the properties each kind declares, and reads
the declared properties off a node. Nothing else is ever asked of it, and
labeling relies on nothing else: any functions will do, as long as the
properties of a kind are the same each time. `Frontend.Dialect` has the
front-ends in use.

A front-end need not read smaller values off a node. Where it goes down forever
a tree has no end, and labeling it has none either; `Frontend.Finite` says that
everything below a value ends.
-/

namespace HashConsing

/-- **A reader of syntax trees.** -/
structure Frontend where
  /-- A value that counts as a node. -/
  isNode : Value → Bool
  /-- The kind of a value. -/
  kindOf : Value → String
  /-- The properties of a kind in order, if the kind is known. -/
  properties? : String → Option (List Property)
  /-- Why a kind is unknown, where there is more to say than that. -/
  unknownReason : String → Option String
  /-- The value of a property of a node. -/
  read : Value → Property → Value

namespace Frontend

variable (fe : Frontend)

/-- The properties of a kind; an unknown kind is a failure. -/
def properties (kind : String) : Except Failure (List Property) :=
  match fe.properties? kind with
  | some ps => .ok ps
  | none => .error (.unknownKind kind (fe.unknownReason kind))

/-- A value that is not absent and counts as a node. -/
def isPart (v : Value) : Bool := !v.isNull && fe.isNode v

/-- **The values that labeling a property descends into.** What is absent is
passed over, and so is what is no node. -/
def parts (v : Value) (p : Property) : List Value :=
  match p.kind with
  | .leaf => []
  | .child => [fe.read v p].filter fe.isPart
  | .childList => ((fe.read v p).sequence?.getD []).filter fe.isPart

/-- **Everything below a value ends.** -/
inductive Finite : Value → Prop where
  | intro {v : Value}
      (below : ∀ ps, fe.properties? (fe.kindOf v) = some ps →
        ∀ p ∈ ps, ∀ w ∈ fe.parts v p, Finite w) : Finite v

end Frontend

end HashConsing
