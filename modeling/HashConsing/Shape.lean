import HashConsing.Value

/-!
# Shapes and representations

A canonical id stands for one of three things: a reserved mark, a leaf value,
or a shape. A shape is a node kind or a list together with the canonical ids of
its children; it is what remains of a subtree once its children have been
numbered. Shapes of lists and shapes of nodes never coincide, whatever the node
kinds are called.
-/

namespace HashConsing

/-- **The shape of a subtree** over the ids of its children. -/
inductive Shape where
  | list (children : List Nat)
  | node (kind : String) (children : List Nat)
  deriving DecidableEq, Repr

namespace Shape

/-- The ids of the children. -/
def children : Shape → List Nat
  | list cs => cs
  | node _ cs => cs

/-- The node kind of a node shape. -/
def kind? : Shape → Option String
  | list _ => none
  | node kind _ => some kind

/-- **Shapes are ordered** by kind, lists first, then by children. -/
def order : Shape → Shape → Ordering :=
  compareLex (compareOn kind?) (compareOn children)

instance : Ord Shape := ⟨order⟩

instance : Std.TransOrd Shape :=
  inferInstanceAs (Std.TransCmp (compareLex (compareOn kind?) (compareOn children)))

instance : Std.LawfulEqOrd Shape where
  eq_of_compare {a b} h := by
    obtain ⟨hk, hc⟩ := Ordering.then_eq_eq.1 h
    have hk : a.kind? = b.kind? := Std.LawfulEqOrd.eq_of_compare hk
    have hc : a.children = b.children := Std.LawfulEqOrd.eq_of_compare hc
    cases a <;> cases b <;> simp_all [kind?, children]

end Shape

/-! ## Shapes written out -/

/-- Which of the two forms of shapes a record has. -/
inductive ShapeTag where
  | node
  | list
  deriving DecidableEq, Repr

/-- The name of a form. -/
def ShapeTag.name : ShapeTag → String
  | node => "node"
  | list => "list"

/-- **A shape as events show it**: its form, its kind and its children, each
given on its own. -/
structure ShapeRecord where
  tag : ShapeTag
  kind : Option String
  children : List Int
  deriving DecidableEq, Repr

/-- **The text of a record**: what it is of, and each child with a semicolon
behind it. -/
def ShapeRecord.text (r : ShapeRecord) : String :=
  let head := match r.tag with
    | .list => "[list]"
    | .node => r.kind.getD "None"
  head ++ ":" ++ String.join (r.children.map fun child => toString child ++ ";")

/-- The record of a shape. -/
def Shape.record : Shape → ShapeRecord
  | list cs => ⟨.list, none, cs.map Int.ofNat⟩
  | node kind cs => ⟨.node, some kind, cs.map Int.ofNat⟩

/-- The text of a shape. -/
def Shape.text (s : Shape) : String := s.record.text

/-! ## Representations -/

/-- **The two reserved marks.** -/
inductive Marker where
  /-- Nothing is there. -/
  | absent
  /-- Lists are told from nodes. -/
  | listShape
  deriving DecidableEq, Repr

/-- The text of a mark. -/
def Marker.text : Marker → String
  | absent => "[null ID]"
  | listShape => "[list of AST nodes]"

/-- **What a canonical id stands for.** A leaf keeps the first value that had
its key. -/
inductive Representation where
  | marker (m : Marker)
  | leaf (v : Value)
  | shape (s : Shape)

/-- An id of a leaf value. -/
def Representation.isLeaf : Representation → Bool
  | leaf _ => true
  | _ => false

end HashConsing
