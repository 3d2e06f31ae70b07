import HashConsing.Double.Shortest
import HashConsing.Text.Numeral
import HashConsing.Text.Quoted

/-!
# The text of a value

Leaf values are shown as texts, in renderings, in events and in messages. A
text at the top shows itself; anywhere inside another value it is quoted. So
there are two texts of a value, the *plain* and the *quoted* one, which differ
on texts and on words only.

Writing fails on one kind of value: an integer beyond the digit limit, alone
or inside another value, among them the nodes whose text shows one.
-/

namespace HashConsing.Value

/-- Texts between brackets, with commas between neighbours. -/
def bracketed (opening closing : String) (parts : List String) : String :=
  opening ++ ", ".intercalate parts ++ closing

/-- The text of a tuple: a single item keeps a comma, so that the parentheses
are not mistaken for grouping. -/
def tupleText (parts : List String) : String :=
  match parts with
  | [part] => "(" ++ part ++ ",)"
  | _ => bracketed "(" ")" parts

/-- The text of a set. An empty one cannot be told from an empty dictionary by
its braces and is written as a call instead. -/
def setText (parts : List String) : String :=
  if parts.isEmpty then "set()" else bracketed "\x7b" "\x7d" parts

mutual

/-- **The quoted text of a value**, as it stands inside other values. -/
def quoted : Value → Except Failure String
  | null => .ok "None"
  | ellipsis => .ok "Ellipsis"
  | bool b => .ok (if b then "True" else "False")
  | int n => Text.writeInteger n
  | word w => .ok w.shown
  | float x => .ok x.text
  | complex re im => .ok (Double.complexText re im)
  | text s => .ok (Text.quote s)
  | bytes data => .ok (Text.quoteBytes data)
  | tuple items => do return tupleText (← quotedEach items)
  | frozenset members => do
    let parts ← quotedEach members
    return bracketed "frozenset(" ")" (if parts.isEmpty then [] else [setText parts])
  | list items => do return bracketed "[" "]" (← quotedEach items)
  | set members => do return setText (← quotedEach members)
  | dict entries => do return bracketed "\x7b" "\x7d" (← quotedEntries entries)
  | node head _ => match head.text with
    | some shown => .ok shown
    | none => .error .integerTooLong

/-- The quoted texts of some values. -/
def quotedEach : List Value → Except Failure (List String)
  | [] => .ok []
  | v :: rest => do return (← quoted v) :: (← quotedEach rest)

/-- The texts of a dictionary's entries. -/
def quotedEntries : List (Value × Value) → Except Failure (List String)
  | [] => .ok []
  | (key, v) :: rest => do
    return ((← quoted key) ++ ": " ++ (← quoted v)) :: (← quotedEntries rest)

end

/-- **The plain text of a value.** -/
def plain : Value → Except Failure String
  | text s => .ok s
  | word w => .ok (toString w.value)
  | v => v.quoted

/-- **The text of a leaf**: its plain text, with a mark of its own for the
absence of a value. -/
def leafText : Value → Except Failure String
  | null => .ok "<null>"
  | v => v.plain

end HashConsing.Value
