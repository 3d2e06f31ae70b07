import HashConsing.Building.Recursion

/-!
# Canonical forms

The canonical form of a syntax tree is what is left of it when everything is
forgotten that its grammar does not declare: the kinds of the nodes, the order
of their properties, which of them are absent, and the keys of the leaves. Forms
do not depend on what has been labeled before. They are what canonical ids stand
for: trees get the same id exactly if they have the same form.
-/

namespace HashConsing

/-- **A canonical form.** -/
inductive Form where
  | absent
  | leaf (key : LeafKey)
  | list (items : List Form)
  | node (kind : String) (properties : List Form)
  deriving Inhabited

namespace Form

/-- The forms below a form. -/
def children : Form → List Form
  | absent => []
  | leaf _ => []
  | list items => items
  | node _ properties => properties

/-- **The form at a position**, given by the way down to it. -/
def at? (F : Form) : List Nat → Option Form
  | [] => some F
  | i :: path => do (← F.children[i]?).at? path

/-- A way down that is made of two. -/
theorem at?_append (F : Form) (path path' : List Nat) :
    F.at? (path ++ path') = (F.at? path).bind fun G => G.at? path' := by
  induction path generalizing F with
  | nil => rfl
  | cons i path ih =>
    rw [List.cons_append, at?, at?]
    cases F.children[i]? with
    | none => rfl
    | some G => exact ih G

/-- **Forms as they are built** from the parts of a syntax tree. There is no state
to change. -/
def builder : Builder Unit Form where
  absent s := (absent, s)
  leaf key _ s := (leaf key, s)
  list _ items s := (list items, s)
  node _ kind properties s := (node kind properties, s)

end Form

/-- **The canonical form of a syntax tree**, or what is wrong with the tree. -/
def Frontend.form (fe : Frontend) (v : Value) : Outcome Form :=
  (buildNode fe Form.builder v ()).map Prod.fst

end HashConsing
