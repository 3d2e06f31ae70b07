import HashConsing.Tables
import HashConsing.Failure.Message

/-!
# Questions about canonical ids

An id is asked about by a value. Only integers and words count as ids, truth
values do not; every other value, and every number that is not allocated, is an
unknown id. An allocated id has a representation and a kind name; a leaf id has
a text as well, which fails only where the value cannot be written.
-/

namespace HashConsing

/-- The number that a value is asked about by. -/
def Value.idNumber? : Value → Option Int
  | int n => some n
  | word w => some w.value
  | _ => none

namespace Tables

variable (t : Tables)

/-- What is reported about an id that is not allocated. -/
def unknownId (id : Value) : Failure := (Failure.unknownId id t.nextId).raised

/-- **The allocated id that a value names.** -/
def allocated (id : Value) : Except Failure Nat :=
  match id.idNumber? with
  | some n => if 0 ≤ n ∧ n < t.nextId then .ok n.toNat else .error (t.unknownId id)
  | none => .error (t.unknownId id)

/-- **What an id stands for.** -/
def representation (id : Value) : Except Failure Representation := do
  match t.representations[← t.allocated id]? with
  | some r => return r
  | none => throw (t.unknownId id)

/-- **The kind name** recorded when an id was handed out. -/
def kindName (id : Value) : Except Failure String := do
  match t.kindNames[← t.allocated id]? with
  | some name => return name
  | none => throw (t.unknownId id)

/-- An id stands for a leaf value. -/
def isLeaf (id : Value) : Except Failure Bool := do
  return (← t.representation id).isLeaf

/-- **The text of a leaf id**: that of the first value with its key. -/
def leafText (id : Value) : Except Failure String := do
  match ← t.representation id with
  | .leaf v => v.leafText
  | _ => throw (Failure.notALeaf id).raised

/-- **The text of an id with its kind**: the bare text of a leaf, and for
everything else the kind name, a number sign, and the shape or mark. -/
def annotated (id : Value) : Except Failure String := do
  match ← t.representation id with
  | .leaf v => v.leafText
  | .marker m => return (← t.kindName id) ++ "#" ++ m.text
  | .shape s => return (← t.kindName id) ++ "#" ++ s.text

/-- **The kind names and texts of the ids** from one on. A start below zero is
an unknown id itself. -/
def listing (start : Int) : Except Failure (List (String × String)) :=
  if start < 0 then .error (t.unknownId (.int start))
  else (List.range' start.toNat (t.nextId - start.toNat)).mapM fun (id : Nat) => do
    return (← t.kindName (.int id), ← t.annotated (.int id))

/-- **Which ids are leaves**, from zero up to the next id. -/
def leafMask : Array Bool := t.representations.map Representation.isLeaf

end Tables

end HashConsing
