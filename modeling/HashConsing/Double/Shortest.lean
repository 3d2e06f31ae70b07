import HashConsing.Double

/-!
# The shortest decimal of a number

A number is written with the fewest decimal digits that read back as the same
number, and with the nearest such digits where there is a choice. What reads
back is an interval around the number, bounded by the midpoints to its
neighbours; the midpoints themselves read back when the significand is even.

The search goes through the grids of 1, 2, … significant digits. On each grid
only the two points next to the number can lie in the interval if any does.
-/

namespace HashConsing.Double

/-! ## The interval that reads back -/

/-- The lower neighbour is half as far as the upper one: the number is a power
of two above the least exponent. -/
def isBinadeStart (x : Double) : Bool := x.fraction == 0 && x.biasedExponent > 1

/-- The midpoint to the lower neighbour. -/
def lowerMidpoint (x : Double) : Rat :=
  x.magnitude - 2 ^ (x.exponent - if x.isBinadeStart then 2 else 1)

/-- The midpoint to the upper neighbour. -/
def upperMidpoint (x : Double) : Rat := x.magnitude + 2 ^ (x.exponent - 1)

/-- **A magnitude reads back** as the number nearest to it. -/
def readsBack (x : Double) (r : Rat) : Bool :=
  if x.significand % 2 = 0 then x.lowerMidpoint ≤ r && r ≤ x.upperMidpoint
  else x.lowerMidpoint < r && r < x.upperMidpoint

/-! ## The search -/

/-- A decimal: a whole number of units, the unit a power of ten. -/
structure Decimal where
  units : Nat
  exponent : Int
  deriving DecidableEq, Repr

/-- The magnitude of a decimal. -/
def Decimal.value (d : Decimal) : Rat := d.units * 10 ^ d.exponent

/-- The power of ten of the leading digit. An estimate from the power of two is
off by no more than one. -/
def leadingExponent (x : Double) : Int :=
  let estimate := (Nat.log2 x.significand + x.exponent) * 30103 / 100000
  if 10 ^ (estimate + 1) ≤ x.magnitude then estimate + 1
  else if 10 ^ estimate ≤ x.magnitude then estimate
  else estimate - 1

/-- The decimal of the given number of digits that reads back, if any: the
nearer of the two grid points around the number, and of two equally near ones
that with an even last digit. -/
def onGrid? (x : Double) (digits : Nat) : Option Decimal :=
  let exponent := x.leadingExponent - digits + 1
  let below := (x.magnitude / 10 ^ exponent).floor.toNat
  let low : Decimal := ⟨below, exponent⟩
  let high : Decimal := ⟨below + 1, exponent⟩
  match x.readsBack low.value, x.readsBack high.value with
  | false, false => none
  | true, false => some low
  | false, true => some high
  | true, true =>
    let distanceBelow := x.magnitude - low.value
    let distanceAbove := high.value - x.magnitude
    if distanceBelow < distanceAbove then some low
    else if distanceAbove < distanceBelow then some high
    else if below % 2 = 0 then some low else some high

/-- **The shortest decimal** of a finite number other than zero. Seventeen
digits always suffice. -/
def shortest (x : Double) : Decimal :=
  ((List.range' 1 17).findSome? x.onGrid?).getD ⟨0, 0⟩

/-! ## The text of a number -/

/-- A list of digits without the zeros at its end. -/
def trimZeros (digits : List Char) : List Char :=
  (digits.reverse.dropWhile (· == '0')).reverse

/-- The exponent part of a number: a sign and at least two digits. -/
def exponentText (e : Int) : List Char :=
  let digits := Nat.toDigits 10 e.natAbs
  'e' :: (if e < 0 then '-' else '+')
    :: (List.replicate (2 - digits.length) '0' ++ digits)

/-- **Digits around a point.** The point stands after `point` digits; where
that is more than sixteen, or more than three places before the first digit,
the first digit stands before the point and an exponent follows. A whole
number ends in `.0` if the point is kept. -/
def placePoint (keepPoint : Bool) (digits : List Char) (point : Int) : List Char :=
  if point ≤ -4 || 16 < point then
    let tail := digits.drop 1
    digits.take 1 ++ (if tail.isEmpty then [] else '.' :: tail) ++ exponentText (point - 1)
  else if point ≤ 0 then
    '0' :: '.' :: (List.replicate point.natAbs '0' ++ digits)
  else
    let whole := point.natAbs
    if digits.length ≤ whole then
      digits ++ List.replicate (whole - digits.length) '0'
        ++ (if keepPoint then ['.', '0'] else [])
    else digits.take whole ++ '.' :: digits.drop whole

/-- The text of a number without its sign. -/
def unsignedText (keepPoint : Bool) (x : Double) : List Char :=
  if x.isNaN then ['n', 'a', 'n']
  else if x.isSpecial then ['i', 'n', 'f']
  else if x.significand = 0 then placePoint keepPoint ['0'] 1
  else
    let shortest := x.shortest
    let digits := Nat.toDigits 10 shortest.units
    placePoint keepPoint (trimZeros digits) (digits.length + shortest.exponent)

/-- The sign of a number. What is no number has none. -/
def hasMinus (x : Double) : Bool := x.isNegative && !x.isNaN

/-- **The text of a number.** -/
def text (x : Double) : String :=
  String.ofList ((if x.hasMinus then ['-'] else []) ++ x.unsignedText true)

/-- **The text of a complex number**: the imaginary part alone where the real
part is positive zero, otherwise both parts in parentheses. Whole parts show
no point. -/
def complexText (re im : Double) : String :=
  let minus (x : Double) : List Char := if x.hasMinus then ['-'] else []
  if re.bits = 0 then
    String.ofList (minus im ++ im.unsignedText false ++ ['j'])
  else
    let sign := if im.hasMinus then '-' else '+'
    String.ofList ('(' :: (minus re ++ re.unsignedText false
      ++ sign :: (im.unsignedText false ++ ['j', ')'])))

end HashConsing.Double
