import HashConsing.Forest
import HashConsing.Labeling

/-!
# Nodes made while labeling

A labeled tree is handed out as nodes of a forest. They are made in the course of
the labeling: the node of a leaf, or of what is absent, as soon as it is labeled,
the node of a list or of a syntax node over the nodes of what is in it. So this
is a labeling whose state has a forest next to the tables, which grows on the
way: `Builder.nodes`.

A failure leaves nodes behind that nobody holds.
-/

namespace HashConsing

/-- **A labeled tree and the node that was made for it.** -/
structure Made where
  tree : Rose Nat
  node : Ref

/-- **The state of a labeling that makes nodes.** -/
structure Making where
  progress : Progress
  forest : Forest

/-- **Makes a node for a tree that has just been labeled**, over those that were
made for the trees below it. -/
def Making.make (s : Making) (labeled : Rose Nat × Progress) (below : List Made) :
    Made × Making :=
  let (t, progress) := labeled
  let (r, forest) := s.forest.make t.label (below.map Made.node) none
  (⟨t, r⟩, ⟨progress, forest⟩)

/-- **Labeled trees and their nodes.** -/
def Builder.nodes (reporter : Reporter) : Builder Making Made where
  absent s := s.make (absentTree, s.progress) []
  leaf key v s := s.make (leafTree reporter key v s.progress) []
  list items below s :=
    s.make (listTree reporter items (below.map Made.tree) s.progress) below
  node v kind below s :=
    s.make (nodeTree reporter v kind (below.map Made.tree) s.progress) below

/-- **Labels a tree and makes nodes for it.** -/
def labelNodes (fe : Frontend) (reporter : Reporter) (root : Value) (s : Making) :
    Option (Ending Making Made) :=
  (Builder.nodes reporter).build fe root s

end HashConsing
