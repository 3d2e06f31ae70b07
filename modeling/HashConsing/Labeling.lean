import HashConsing.Building.Recursion
import HashConsing.Report
import HashConsing.Rose
import HashConsing.Tables

/-!
# Labeling a tree

Labeling replaces every part of a syntax tree by its canonical id, bottom-up: a
leaf by the id of its key, a list by the id of its items' ids, a node by the id
of its kind and of its properties' ids. What has no id yet gets the next one.
So two parts get the same id exactly when they have the same form.

A labeling is one way of making something of a syntax tree, so the order, the
stack and the failures are those of `HashConsing.Building`. What is special is
the state, in which new ids are handed out: `Builder.trees`.

A failure stops the labeling at once. Ids handed out before it stay.
-/

namespace HashConsing

/-! ## Steps that hand out ids -/

/-- **The state of a labeling**: the tables, and what has been reported of the
ids handed out so far in this labeling. -/
structure Progress where
  tables : Tables
  report : Report

namespace Progress

variable (s : Progress)

/-- The id of a leaf, which gets one if it has none. -/
def internLeaf (key : LeafKey) (v : Value) (report : Nat → Report) : Nat × Progress :=
  match s.tables.leafId? key with
  | some id => (id, s)
  | none =>
    let id := s.tables.nextId
    (id, ⟨s.tables.addLeaf key v, s.report.append (report id)⟩)

/-- The id of a shape, which gets one if it has none. -/
def internShape (shape : Shape) (report : Nat → Report) : Nat × Progress :=
  match s.tables.shapeId? shape with
  | some id => (id, s)
  | none =>
    let id := s.tables.nextId
    (id, ⟨s.tables.addShape shape, s.report.append (report id)⟩)

end Progress

/-- **The labeled tree of what is absent.** -/
def absentTree : Rose Nat := .node nullId []

section Steps

variable (reporter : Reporter)

/-- **Labels a leaf.** -/
def leafTree (key : LeafKey) (v : Value) (s : Progress) : Rose Nat × Progress :=
  let (id, s) := s.internLeaf key v (reporter.reportLeaf v)
  (.node id [], s)

/-- **Labels a list** whose items are labeled. -/
def listTree (items : List Value) (trees : List (Rose Nat)) (s : Progress) :
    Rose Nat × Progress :=
  let shape : Shape := .list (trees.map Rose.value)
  let (id, s) := s.internShape shape (reporter.reportList items shape)
  (.node id trees, s)

/-- **Labels a node** whose properties are labeled. -/
def nodeTree (v : Value) (kind : String) (trees : List (Rose Nat)) (s : Progress) :
    Rose Nat × Progress :=
  let shape : Shape := .node kind (trees.map Rose.value)
  let (id, s) := s.internShape shape (reporter.reportNode v kind shape)
  (.node id trees, s)

end Steps

/-! ## The labeling -/

/-- **Labeled trees**, with canonical ids from the tables. -/
def Builder.trees (reporter : Reporter) : Builder Progress (Rose Nat) where
  absent s := (absentTree, s)
  leaf := leafTree reporter
  list := listTree reporter
  node := nodeTree reporter

/-- **Labels a tree.** The labeled tree has the tree's shape; its values are
canonical ids. -/
def label (fe : Frontend) (reporter : Reporter) (root : Value) (s : Progress) :
    Option (Ending Progress (Rose Nat)) :=
  (Builder.trees reporter).build fe root s

/-- **Labels a tree by recursion.** -/
def labelByRecursion (fe : Frontend) (reporter : Reporter) (root : Value) (s : Progress) :
    Option (Ending Progress (Rose Nat)) :=
  buildNode fe (Builder.trees reporter) root s

end HashConsing
