import HashConsing.Labeling
import HashConsing.Tables.Query

/-!
# Canonicalizers

A canonicalizer labels trees of one front-end and remembers the ids it has
handed out, so that parts that occur in several trees get the same id. It
reports every id it hands out.

The life of a canonicalizer is a sequence of labelings, some of which may fail:
`Canonicalizer.History`. Whatever is said about the ids of one canonicalizer is
said about all its histories.
-/

namespace HashConsing

/-- **A labeler with a memory.** -/
structure Canonicalizer where
  frontend : Frontend
  reporter : Reporter
  tables : Tables

/-- **What labeling a tree gives**: the canonicalizer afterwards, the labeled
tree or the failure, and the report of the ids handed out. -/
structure Labeled where
  canonicalizer : Canonicalizer
  result : Except Failure (Rose Nat)
  report : Report

namespace Canonicalizer

/-- A canonicalizer that has not labeled anything. -/
def create (frontend : Frontend) (reporter : Reporter) : Canonicalizer :=
  ⟨frontend, reporter, Tables.empty⟩

/-- **What a labeling leaves of a canonicalizer.** -/
def conclude (c : Canonicalizer) (ending : Ending Progress (Rose Nat)) : Labeled :=
  ⟨{ c with tables := ending.2.tables }, ending.1, ending.2.report⟩

/-- **Labels a tree** and remembers its ids, also those handed out before a
failure. There is no result if the tree has no end. -/
def label (c : Canonicalizer) (root : Value) : Option Labeled :=
  (HashConsing.label c.frontend c.reporter root ⟨c.tables, .empty⟩).map c.conclude

/-- **A labeling that took place.** -/
structure Call where
  root : Value
  labeled : Labeled

/-- **The labelings of a canonicalizer**, in order, and what they make of it. -/
inductive History (start : Canonicalizer) : List Call → Canonicalizer → Prop where
  | nil : History start [] start
  | snoc {calls : List Call} {c : Canonicalizer} {root : Value} {labeled : Labeled}
      (before : History start calls c) (last : c.label root = some labeled) :
      History start (calls ++ [⟨root, labeled⟩]) labeled.canonicalizer

end Canonicalizer

end HashConsing
