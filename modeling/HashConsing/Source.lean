import HashConsing.Canonicalizer
import HashConsing.Grammar.Standard
import HashConsing.Rendering

/-!
# Comparing sources

Two source texts are structurally equal if their syntax trees get the same
canonical id: they may differ in layout and comments, but in nothing else. To
be comparable, both are labeled by one canonicalizer; a fresh one for each
comparison keeps the ids of unrelated comparisons apart.

Parsing is not done here. A source comes with its syntax tree, or with the
reason why it has none.
-/

namespace HashConsing

/-- **A source text that has been parsed.** -/
inductive Source where
  | tree (root : Value)
  /-- The text is malformed; what is wrong has a category. -/
  | malformed (category : String)
  /-- The text was refused before it was parsed. -/
  | refused (reason : String)

namespace Source

/-- The name of a source that has none. -/
def unnamed : String := "<unknown>"

/-- **The syntax tree of a source**, which has a name for reports. -/
def root (source : Source) (filename : String) : Except Failure Value :=
  match source with
  | tree root => .ok root
  | malformed category => .error (.syntaxError category filename)
  | refused reason => .error (.refusedSource reason)

end Source

namespace Tables

/-- The tables as a classifier of ids. -/
def classifier (t : Tables) : Classifier where
  isLeaf n := t.isLeaf (.int n)
  leafText n := t.leafText (.int n)

end Tables

namespace Canonicalizer

/-- A canonicalizer for Python's syntax trees with the usual settings. -/
def standard : Canonicalizer := create (Frontend.python []) {}

/-- **Labels the tree of a source.** -/
def labelSource (c : Canonicalizer) (source : Source) (filename : String) : Option Labeled :=
  match source.root filename with
  | .ok root => c.label root
  | .error failure => some ⟨c, .error failure, .empty⟩

/-- **The rendering of a labeled tree**, indented as the settings say. -/
def render (c : Canonicalizer) (t : Rose Nat) : Except Failure String :=
  Rose.branching.render (fun t => toString t.value) c.tables.classifier
    c.reporter.settings.indent t

/-- Labels the trees of two sources, the left one first. -/
def labelBoth (c : Canonicalizer) (left right : Source) :
    Outcome (Canonicalizer × Rose Nat × Rose Nat) := do
  let first ← c.labelSource left Source.unnamed
  let l ← first.result
  let second ← first.canonicalizer.labelSource right Source.unnamed
  let r ← second.result
  return (second.canonicalizer, l, r)

end Canonicalizer

namespace Source

/-- **Structural equality of two sources.** -/
def structurallyEqual (left right : Source) : Outcome Bool := do
  let (_, l, r) ← Canonicalizer.standard.labelBoth left right
  return l.value == r.value

/-- **The rendering of a source.** -/
def render (source : Source) : Outcome String := do
  let labeled ← Canonicalizer.standard.labelSource source unnamed
  labeled.canonicalizer.render (← labeled.result)

/-- **Requires two sources to be structurally equal.** The failure shows both
trees. -/
def requireEquivalent (actual expected : Source) : Outcome Unit := do
  let (c, a, e) ← Canonicalizer.standard.labelBoth actual expected
  if a.value = e.value then return ()
  else
    throw (.notEquivalent (toString a.value) (toString e.value) (← c.render a) (← c.render e))

end Source

end HashConsing
