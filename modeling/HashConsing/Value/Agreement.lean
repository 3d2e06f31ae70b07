import HashConsing.Value

/-!
# When two values agree

Sets and dictionaries do not keep a member that agrees with one they hold
already. Values agree across types when they denote the same number: the
integer one, the word one, the truth value and the floating point number one
all agree. Two numbers that are *not a number* never do. Texts and byte
strings agree when equal, tuples item by item, sets as sets, and nodes when
they are the same object; the same object has the same text.

What agrees may still be told apart at the leaves of a tree; that finer
comparison is `HashConsing.LeafKey`.
-/

namespace HashConsing

/-- A real number or an infinity. -/
inductive Extended where
  | finite (r : Rat)
  | infinite (negative : Bool)
  deriving DecidableEq

/-- The real number or infinity that a double denotes. -/
def Double.extended? (x : Double) : Option Extended :=
  if x.isNaN then none
  else some (match x.value? with
    | some r => .finite r
    | none => .infinite x.isNegative)

namespace Value

/-- **The number a value denotes**, by its real and imaginary parts. -/
def number? : Value → Option (Extended × Extended)
  | bool b => some (.finite (if b then 1 else 0), .finite 0)
  | int n => some (.finite n, .finite 0)
  | word w => some (.finite w.value, .finite 0)
  | float x => do return (← x.extended?, .finite 0)
  | complex re im => do return (← re.extended?, ← im.extended?)
  | _ => none

mutual

/-- **Agreement of values**, of which a set keeps only one. -/
def agrees : Value → Value → Bool
  | null, null => true
  | ellipsis, ellipsis => true
  | text s, text t => s == t
  | bytes a, bytes b => a == b
  | tuple xs, tuple ys => agreesEach xs ys
  | frozenset xs, frozenset ys => xs.length == ys.length && eachWithin xs ys
  | node head _, node head' _ => head.ref == head'.ref && head.text == head'.text
  | v, w =>
    match v.number?, w.number? with
    | some a, some b => a == b
    | _, _ => false

/-- Agreement position by position. -/
def agreesEach : List Value → List Value → Bool
  | [], [] => true
  | x :: xs, y :: ys => agrees x y && agreesEach xs ys
  | _, _ => false

/-- Each value of the first list agrees with one of the second. -/
def eachWithin : List Value → List Value → Bool
  | [], _ => true
  | x :: xs, ys => ys.any (fun y => agrees x y) && eachWithin xs ys

end

/-- **Values of which no two agree**: a value that agrees with an earlier one is
left out. -/
def distinct (values : List Value) : List Value :=
  values.foldl (fun kept v => if kept.any (agrees · v) then kept else kept ++ [v]) []

/-- An entry put into a dictionary: an agreeing key keeps its place and takes
the new value. -/
def insertEntry (entries : List (Value × Value)) (key value : Value) :
    List (Value × Value) :=
  if entries.any (agrees ·.1 key) then
    entries.map fun entry => if agrees entry.1 key then (entry.1, value) else entry
  else entries ++ [(key, value)]

/-- The frozen set of some values, in the order in which it goes through them. -/
def frozensetOf (values : List Value) : Value := frozenset (distinct values)

/-- The set of some values, in the order in which it goes through them. -/
def setOf (values : List Value) : Value := set (distinct values)

/-- The dictionary of some entries. -/
def dictOf (entries : List (Value × Value)) : Value :=
  dict (entries.foldl (fun kept entry => insertEntry kept entry.1 entry.2) [])

end Value

end HashConsing
