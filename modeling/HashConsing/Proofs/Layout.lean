import HashConsing.Rendering
import Mathlib.Logic.Basic

/-!
# The layout of renderings

A rendering keeps a stack of what is still to be written, and expands what is on top of it
(`Branching.renderFrom_cons`). What it writes is the same as if it were recursive: each
fragment on the stack has a text of its own, its *layout*, and these are put together in order
(`Branching.renderFrom_eq`). The layout of a node is its label between parentheses, with the
layouts of its children behind the label (`Branching.layout_node`).
-/

namespace HashConsing

-- Sums of numbers start from the numeral zero, whatever other zeros are around.
attribute [local instance (high)] Zero.ofOfNat0

/-! ## Fragments -/

namespace Branching

variable {α : Type} (b : Branching α) (label : α → String) (c : Classifier) (indent : String)

/-- **What a fragment writes at once**, and the fragments that are left of it. -/
def expand : Fragment α → Except Failure (String × List (Fragment α))
  | .close margin => .ok (")" ++ newLine margin, [])
  | .leaf a margin => do
    let shown ← Text.readInteger (label a) >>= c.leafText
    return (label a ++ ":" ++ shown ++ newLine margin, [])
  | .node a margin =>
    if (b.children a).isEmpty then .ok ("(" ++ label a ++ ")" ++ newLine margin, [])
    else do
      let fs ← fragments label c (margin ++ indent) (b.children a)
      return ("(" ++ label a ++ ":" ++ newLine (margin ++ indent), fs ++ [.close margin])

variable {b label c indent} in
/-- What is left of a fragment weighs less than the fragment. -/
theorem sum_fragmentWeight_lt {f : Fragment α} {shown : String} {fs : List (Fragment α)}
    (h : b.expand label c indent f = .ok (shown, fs)) :
    (fs.map b.fragmentWeight).sum < b.fragmentWeight f := by
  cases f with
  | close margin =>
    cases h
    exact Nat.one_pos
  | leaf a margin =>
    obtain ⟨_, -, hpure⟩ := Failure.exists_of_bind_eq_ok h
    cases hpure
    exact Nat.one_pos
  | node a margin =>
    have hweight := b.sum_weight_lt a
    by_cases hempty : (b.children a).isEmpty
    · rw [expand, if_pos hempty] at h
      cases h
      show 0 < 2 * b.weight a
      omega
    · rw [expand, if_neg hempty] at h
      obtain ⟨gs, hgs, hpure⟩ := Failure.exists_of_bind_eq_ok h
      cases hpure
      have hle : (gs.map b.fragmentWeight).sum ≤ 2 * ((b.children a).map b.weight).sum :=
        sum_fragmentWeight_le hgs
      rw [List.map_append, List.sum_append]
      show _ + 1 < 2 * b.weight a
      omega

/-- **A step of a rendering** expands what is on top of the stack. -/
theorem renderFrom_cons (f : Fragment α) (rest : List (Fragment α)) (text : String) :
    b.renderFrom label c indent (f :: rest) text
      = (do
        let (shown, fs) ← b.expand label c indent f
        b.renderFrom label c indent (fs ++ rest) (text ++ shown)) := by
  rw [renderFrom.eq_def]
  cases f with
  | close margin => simp only [expand, bind, Except.bind, List.nil_append, String.append_assoc]
  | leaf a margin =>
    simp only [expand]
    cases Text.readInteger (label a) >>= c.leafText with
    | error failure => rfl
    | ok shown =>
      simp only [bind, Except.bind, pure, Except.pure, List.nil_append, String.append_assoc]
  | node a margin =>
    simp only [expand]
    by_cases hempty : (b.children a).isEmpty
    · simp only [hempty, if_true, bind, Except.bind, List.nil_append, String.append_assoc]
    · simp only [hempty, if_false, Bool.false_eq_true]
      split
      next failure hfragments =>
        rw [hfragments]
        rfl
      next fs hfragments =>
        rw [hfragments]
        simp only [bind, Except.bind, pure, Except.pure, String.append_assoc, List.append_assoc,
          List.singleton_append]

/-! ## Layouts -/

/-- **The text of a fragment.** -/
def layout (f : Fragment α) : Except Failure String := b.renderFrom label c indent [f] ""

/-- **Rendering puts the layouts together** that are on the stack. -/
theorem renderFrom_eq (pending : List (Fragment α)) (text : String) :
    b.renderFrom label c indent pending text
      = (do return text ++ String.join (← pending.mapM (b.layout label c indent))) := by
  match pending with
  | [] =>
    rw [renderFrom]
    exact congrArg Except.ok String.append_empty.symm
  | f :: rest =>
    rw [List.mapM_cons, layout, renderFrom_cons, renderFrom_cons]
    cases hf : b.expand label c indent f with
    | error failure => rfl
    | ok expanded =>
      obtain ⟨shown, fs⟩ := expanded
      have hlt := sum_fragmentWeight_lt hf
      -- What is left of the fragment stands alone on the one side, and before the rest on the
      -- other.
      show b.renderFrom label c indent (fs ++ rest) (text ++ shown)
        = ((b.renderFrom label c indent (fs ++ []) ("" ++ shown)) >>= _) >>= _
      rw [renderFrom_eq (fs ++ rest), renderFrom_eq (fs ++ []), List.append_nil, List.mapM_append]
      cases fs.mapM (b.layout label c indent) with
      | error failure => rfl
      | ok texts =>
        cases rest.mapM (b.layout label c indent) with
        | error failure => rfl
        | ok texts' =>
          exact congrArg Except.ok (by simp [String.append_assoc])
termination_by (pending.map b.fragmentWeight).sum
decreasing_by
  all_goals
    simp only [List.map_append, List.map_cons, List.map_nil, List.sum_append, List.sum_cons,
      List.sum_nil]
    omega

/-- **The layout of a fragment** is what it writes at once, and the layouts of what is left of
it. -/
theorem layout_eq (f : Fragment α) : b.layout label c indent f
    = (do
      let (shown, fs) ← b.expand label c indent f
      let texts ← fs.mapM (b.layout label c indent)
      return shown ++ String.join texts) := by
  rw [layout, renderFrom_cons]
  simp only [List.append_nil, String.empty_append, renderFrom_eq]

variable (a : α) (margin : String)

theorem layout_close : b.layout label c indent (.close margin) = .ok (")" ++ newLine margin) := by
  rw [layout_eq]
  exact congrArg Except.ok String.append_empty

/-- **The layout of a leaf** is its label and its text. -/
theorem layout_leaf : b.layout label c indent (.leaf a margin)
    = (do
      let shown ← Text.readInteger (label a) >>= c.leafText
      return label a ++ ":" ++ shown ++ newLine margin) := by
  rw [layout_eq, expand]
  cases Text.readInteger (label a) >>= c.leafText with
  | error failure => rfl
  | ok shown => exact congrArg Except.ok String.append_empty

/-- **The layout of a node without children** is its label between parentheses. -/
theorem layout_childless (h : b.children a = []) : b.layout label c indent (.node a margin)
    = .ok ("(" ++ label a ++ ")" ++ newLine margin) := by
  rw [layout_eq, expand, if_pos (List.isEmpty_iff.2 h)]
  exact congrArg Except.ok String.append_empty

/-- **The layout of a node with children** holds their layouts, one unit deeper. -/
theorem layout_node (h : b.children a ≠ []) : b.layout label c indent (.node a margin)
    = (do
      let fs ← fragments label c (margin ++ indent) (b.children a)
      let texts ← fs.mapM (b.layout label c indent)
      return "(" ++ label a ++ ":" ++ newLine (margin ++ indent) ++ String.join texts ++ ")"
        ++ newLine margin) := by
  rw [layout_eq, expand, if_neg (List.isEmpty_iff.not.2 h)]
  cases fragments label c (margin ++ indent) (b.children a) with
  | error failure => rfl
  | ok fs =>
    show (do
      let texts ← (fs ++ [Fragment.close margin]).mapM (b.layout label c indent)
      return _ ++ String.join texts) = (do
      let texts ← fs.mapM (b.layout label c indent)
      return _)
    rw [List.mapM_append, List.mapM_cons, List.mapM_nil, layout_close]
    cases fs.mapM (b.layout label c indent) with
    | error failure => rfl
    | ok texts => exact congrArg Except.ok (by simp [String.append_assoc])

end Branching

end HashConsing
