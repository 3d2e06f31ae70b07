import HashConsing.Branching
import HashConsing.Text.Numeral

/-!
# Renderings

A labeled tree is rendered as indented text. A node opens a parenthesis with
its label, its children follow one to a line and one unit deeper, and a closing
parenthesis ends it. Children that are leaves show their text instead of
children of their own. Which ids are leaves, and what their texts are, is for a
classifier to say; it may fail, and the first failure is the result.

The children of a node are classified from last to first, when the node is
opened.
-/

namespace HashConsing

-- Sums of numbers start from the numeral zero, whatever other zeros are around.
attribute [local instance (high)] Zero.ofOfNat0

/-- **What a rendering needs to know about ids.** -/
structure Classifier where
  isLeaf : Int → Except Failure Bool
  leafText : Int → Except Failure String

/-- A line break with the margin of the next line. -/
def newLine (margin : String) : String := "\n" ++ margin

/-- **What is still to be written**, with the margin of the line after it. -/
inductive Fragment (α : Type) where
  | node (a : α) (margin : String)
  | leaf (a : α) (margin : String)
  | close (margin : String)

namespace Branching

variable {α : Type} (b : Branching α)

/-- The weight of what is still to be written. -/
def fragmentWeight : Fragment α → Nat
  | .node a _ => 2 * b.weight a
  | .leaf _ _ => 1
  | .close _ => 1

/-- The fragments of some positions, classified from last to first. -/
def fragments (label : α → String) (c : Classifier) (margin : String) :
    List α → Except Failure (List (Fragment α))
  | [] => .ok []
  | a :: as => do
    let rest ← fragments label c margin as
    let leaf ← c.isLeaf (← Text.readInteger (label a))
    return (if leaf then .leaf a margin else .node a margin) :: rest

variable {b} in
theorem sum_fragmentWeight_le {label : α → String} {c : Classifier} {margin : String}
    {as : List α} {fs : List (Fragment α)} (h : fragments label c margin as = .ok fs) :
    (fs.map b.fragmentWeight).sum ≤ 2 * (as.map b.weight).sum := by
  induction as generalizing fs with
  | nil => cases h; simp
  | cons a as ih =>
    rw [fragments] at h
    obtain ⟨rest, hrest, h⟩ := Failure.exists_of_bind_eq_ok h
    obtain ⟨n, -, h⟩ := Failure.exists_of_bind_eq_ok h
    obtain ⟨leaf, -, h⟩ := Failure.exists_of_bind_eq_ok h
    cases h
    have := ih hrest
    have := b.sum_weight_lt a
    cases leaf <;>
    simp only [List.map_cons, List.sum_cons, fragmentWeight, if_true, Bool.false_eq_true,
      if_false] <;>
    omega

/-- Writes what is on a stack behind a text. -/
def renderFrom (label : α → String) (c : Classifier) (indent : String)
    (pending : List (Fragment α)) (text : String) : Except Failure String :=
  match pending with
  | [] => .ok text
  | .close margin :: rest =>
    renderFrom label c indent rest (text ++ ")" ++ newLine margin)
  | .leaf a margin :: rest =>
    match Text.readInteger (label a) >>= c.leafText with
    | .error failure => .error failure
    | .ok shown =>
      renderFrom label c indent rest (text ++ label a ++ ":" ++ shown ++ newLine margin)
  | .node a margin :: rest =>
    if (b.children a).isEmpty then
      renderFrom label c indent rest (text ++ "(" ++ label a ++ ")" ++ newLine margin)
    else
      let inner := margin ++ indent
      match _h : fragments label c inner (b.children a) with
      | .error failure => .error failure
      | .ok fs =>
        renderFrom label c indent (fs ++ .close margin :: rest)
          (text ++ "(" ++ label a ++ ":" ++ newLine inner)
termination_by (pending.map b.fragmentWeight).sum
decreasing_by
  · simp [fragmentWeight]
  · simp [fragmentWeight]
  · have := b.sum_weight_lt a
    simp only [List.map_cons, List.sum_cons, fragmentWeight]
    omega
  · have := b.sum_weight_lt a
    have := sum_fragmentWeight_le (b := b) ‹_›
    simp only [List.map_append, List.map_cons, List.sum_append, List.sum_cons, fragmentWeight]
    omega

/-- **The rendering of a tree** below a position. -/
def render (label : α → String) (c : Classifier) (indent : String) (a : α) :
    Except Failure String :=
  b.renderFrom label c indent [.node a ""] ""

end Branching

end HashConsing
