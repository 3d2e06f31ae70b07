/-!
# Double-precision numbers

A number of double precision is given by its 64 bits: a sign, eleven bits of
biased exponent and 52 bits of fraction. Leaf values are told apart by their
bits, so negative zero is not zero; only the many encodings of *not a number*
count as one.

This module reads the fields and the exact value off the bits. The decimal
text of a number is the subject of `HashConsing.Double.Shortest`.
-/

namespace HashConsing

/-- **A number of double precision**, given by its encoding. -/
@[ext]
structure Double where
  /-- The sign, the biased exponent and the fraction, from the top down. -/
  bits : UInt64
  deriving DecidableEq, Repr

namespace Double

/-! ## Fields -/

/-- The sign bit is set. -/
def isNegative (x : Double) : Bool := x.bits.toNat ≥ 1 <<< 63

/-- The eleven bits of the exponent, which is biased by 1023. -/
def biasedExponent (x : Double) : Nat := (x.bits.toNat >>> 52) % (1 <<< 11)

/-- The 52 bits of the fraction. -/
def fraction (x : Double) : Nat := x.bits.toNat % (1 <<< 52)

/-- The greatest exponent is kept for infinities and for what is no number. -/
def isSpecial (x : Double) : Bool := x.biasedExponent == (1 <<< 11) - 1

/-- Not a number. -/
def isNaN (x : Double) : Bool := x.isSpecial && x.fraction != 0

/-- **The representative of a number's encodings**: all encodings of *not a
number* become one, every other number keeps its own. -/
def canonical (x : Double) : Double :=
  if x.isNaN then ⟨0x7ff8000000000000⟩ else x

theorem canonical_of_isNaN {x y : Double} (hx : x.isNaN = true) (hy : y.isNaN = true) :
    x.canonical = y.canonical := by simp [canonical, hx, hy]

theorem canonical_of_not_isNaN {x : Double} (h : x.isNaN = false) : x.canonical = x := by
  simp [canonical, h]

/-! ## Exact values -/

/-- The integer part of a finite number's scaled form: the fraction with its
leading bit, which is implicit except at the least exponent. -/
def significand (x : Double) : Nat :=
  if x.biasedExponent = 0 then x.fraction else x.fraction + (1 <<< 52)

/-- Zero, of either sign. -/
def isZero (x : Double) : Bool := !x.isSpecial && x.significand == 0

/-- The power of two that scales the significand. -/
def exponent (x : Double) : Int := (max x.biasedExponent 1 : Nat) - 1075

/-- The magnitude of a finite number. -/
def magnitude (x : Double) : Rat := x.significand * 2 ^ x.exponent

/-- **The exact value** of a finite number. Both zeros have the value zero. -/
def value? (x : Double) : Option Rat :=
  if x.isSpecial then none
  else some (if x.isNegative then -x.magnitude else x.magnitude)

end Double

end HashConsing
