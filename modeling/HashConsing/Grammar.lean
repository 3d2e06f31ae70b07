/-!
# Grammars

A grammar says of each node kind which properties its nodes have, in a fixed
order, and what each of them holds: raw data, a node that may be absent, or a
sequence of nodes. This is all that identity of trees depends on: attributes
without a declaration are never looked at.
-/

namespace HashConsing

/-- **What a property holds.** -/
inductive PropertyKind where
  /-- Raw data without parts of interest. -/
  | leaf
  /-- A node, or nothing. -/
  | child
  /-- A sequence of nodes, some of which may be absent. -/
  | childList
  deriving DecidableEq, Repr

/-- The name of a property kind. -/
def PropertyKind.tag : PropertyKind → String
  | leaf => "leaf"
  | child => "child"
  | childList => "child_list"

/-- **A declared property** of a node kind. -/
structure Property where
  name : String
  kind : PropertyKind
  deriving DecidableEq, Repr

/-- **A grammar**: the node kinds in order of declaration, each with its
properties. The first entry of a kind counts. -/
abbrev Grammar := List (String × List Property)

namespace Grammar

/-- The declared properties of a kind, if the kind is known. -/
def properties? (g : Grammar) (kind : String) : Option (List Property) := g.lookup kind

/-- The known kinds, in order of declaration. -/
def kinds (g : Grammar) : List String := g.map Prod.fst

/-- **A kind declared once more** keeps its place and takes the new
properties. -/
def declare (g : Grammar) (kind : String) (properties : List Property) : Grammar :=
  if g.kinds.contains kind then
    g.map fun entry => if entry.1 == kind then (kind, properties) else entry
  else g ++ [(kind, properties)]

end Grammar

/-- **Names in order of code points**, each once. -/
def sortedNames (names : List String) : List String :=
  (names.mergeSort fun a b => decide (a ≤ b)).eraseReps

end HashConsing
