import HashConsing.Failure
import HashConsing.Text.CharClass

/-!
# Integers as texts

Labels and leaf values turn integers into texts and back. Both directions are
limited to the same number of decimal digits, so that no conversion takes more
than quadratic time in something small.

Reading is liberal: blanks around the numeral, one sign, the decimal digits of
any script, and single low lines between digits are all accepted.
-/

namespace HashConsing.Text

/-! ## Writing -/

/-- The least magnitude that has more digits than the limit. -/
def integerBound : Nat := Nat.pow 10 Failure.digitLimit

/-- **The decimal text of an integer**, if it is within the digit limit. -/
def writeInteger (n : Int) : Except Failure String :=
  if n.natAbs < integerBound then .ok (toString n) else .error .integerTooLong

theorem writeInteger_of_lt {n : Int} (h : n.natAbs < integerBound) :
    writeInteger n = .ok (toString n) := if_pos h

/-! ## Reading -/

/-- A character of a numeral: the value of a digit, or a low line. -/
inductive NumeralChar where
  | digit (value : Nat)
  | lowLine

/-- The characters that may stand between the sign and the end of a numeral. -/
def numeralChar? (c : Char) : Option NumeralChar :=
  if c = '_' then some .lowLine else (digitValue? c).map .digit

/-- The blanks around a numeral: those of a text, without the information
separators and the escape-like controls of the first 128 code points. -/
def isNumeralBlank (c : Char) : Bool :=
  if c.toNat < 0x7f then c = ' ' || (0x9 ≤ c.toNat && c.toNat ≤ 0xd) else isBlank c

/-- The leading characters of a text that can belong to a numeral, and the
rest of the text. -/
def spanNumeral : List Char → List NumeralChar × List Char
  | [] => ([], [])
  | c :: text =>
    match numeralChar? c with
    | none => ([], c :: text)
    | some n => let (ns, rest) := spanNumeral text; (n :: ns, rest)

/-- **The digits of a numeral**, if it begins and ends with a digit and has no
two low lines in a row. -/
def digits? : List NumeralChar → Option (List Nat)
  | [] => none
  | [.digit d] => some [d]
  | .digit d :: .lowLine :: ns => (digits? ns).map (d :: ·)
  | .digit d :: .digit e :: ns => (digits? (.digit e :: ns)).map (d :: ·)
  | .lowLine :: _ => none

/-- The number that a sequence of decimal digits denotes. -/
def ofDigits (digits : List Nat) : Nat :=
  digits.foldl (fun n d => 10 * n + d) 0

/-- **Reads an integer.** A malformed numeral is refused before a numeral
that is too long, and that before anything but blanks behind it. -/
def readInteger (text : String) : Except Failure Int :=
  let unsigned := text.toList.dropWhile isNumeralBlank
  let (negative, unsigned) : Bool × List Char :=
    match unsigned with
    | '+' :: rest => (false, rest)
    | '-' :: rest => (true, rest)
    | _ => (false, unsigned)
  let (numeral, rest) := spanNumeral unsigned
  match digits? numeral with
  | none => .error (.notANumeral text)
  | some digits =>
    if digits.length > Failure.digitLimit then .error (.numeralTooLong digits.length)
    else if rest.all isNumeralBlank then
      let magnitude : Int := ofDigits digits
      .ok (if negative then -magnitude else magnitude)
    else .error (.notANumeral text)

end HashConsing.Text
