import HashConsing.Text.Numeral
import Mathlib.Data.Nat.Digits.Defs

/-!
# Numerals read back

Labels are the decimal texts of canonical ids. Reading such a text gives the id back,
unless it has more digits than may be read: `Text.readInteger_toString_eq`.
-/

namespace HashConsing.Text

section Digits

variable {c : Char} (hc : c.isDigit = true)

include hc

/-- The code points of the digits of decimal texts. -/
theorem toNat_of_isDigit : 48 ≤ c.toNat ∧ c.toNat ≤ 57 := by
  simpa [Char.isDigit, UInt32.le_iff_toNat_le] using hc

/-- A digit is worth its distance from zero. -/
theorem digitValue?_of_isDigit : digitValue? c = some (c.toNat - '0'.toNat) := by
  obtain ⟨hlow, hhigh⟩ := toNat_of_isDigit hc
  have hmod : (c.toNat - 48) % 10 = c.toNat - 48 := Nat.mod_eq_of_lt (by omega)
  unfold digitValue? digitRanges
  rw [List.find?_cons_of_pos (by simp; omega), Option.map_some]
  exact congrArg some hmod

/-- A digit belongs to a numeral. -/
theorem numeralChar?_of_isDigit : numeralChar? c = some (.digit (c.toNat - '0'.toNat)) := by
  obtain ⟨hlow, hhigh⟩ := toNat_of_isDigit hc
  have hlowLine : c ≠ '_' := by
    rintro rfl
    exact absurd hhigh (by decide)
  rw [numeralChar?, if_neg hlowLine, digitValue?_of_isDigit hc, Option.map_some]

/-- A digit is no blank. -/
theorem isNumeralBlank_of_isDigit : isNumeralBlank c = false := by
  obtain ⟨hlow, hhigh⟩ := toNat_of_isDigit hc
  have hspace : c ≠ ' ' := by
    rintro rfl
    exact absurd hlow (by decide)
  unfold isNumeralBlank
  rw [if_pos (by omega)]
  simp only [hspace, decide_false, Bool.false_or, Bool.and_eq_false_iff, decide_eq_false_iff_not]
  omega

end Digits

/-- Digits are all read as a numeral. -/
theorem spanNumeral_of_isDigit {cs : List Char} (hcs : ∀ c ∈ cs, c.isDigit = true) :
    spanNumeral cs = (cs.map fun c => .digit (c.toNat - '0'.toNat), []) := by
  induction cs with
  | nil => rfl
  | cons c cs ih =>
    obtain ⟨hc, hcs⟩ := List.forall_mem_cons.1 hcs
    rw [spanNumeral, numeralChar?_of_isDigit hc, ih hcs]
    rfl

/-- A numeral of digits only has these digits. -/
theorem digits?_map_digit {ds : List Nat} (hds : ds ≠ []) :
    digits? (ds.map .digit) = some ds := by
  induction ds with
  | nil => exact absurd rfl hds
  | cons d ds ih =>
    cases ds with
    | nil => rfl
    | cons e ds =>
      rw [List.map_cons, List.map_cons, digits?, ← List.map_cons, ih (by simp)]
      rfl

/-- The number that digits denote. -/
theorem ofDigits_map_toNat (cs : List Char) :
    ofDigits (cs.map fun c => c.toNat - '0'.toNat) = Nat.ofDigitChars 10 cs 0 := by
  rw [ofDigits, List.foldl_map]
  rfl

/-- A numeral without sign, and with nothing around it, is read by its digits, if there are
not too many of them. -/
theorem readInteger_of_span {text : String} {c : Char} {cs : List Char}
    {ns : List NumeralChar} {ds : List Nat} (htext : text.toList = c :: cs)
    (hc : c.isDigit = true) (hspan : spanNumeral (c :: cs) = (ns, []))
    (hds : digits? ns = some ds) : readInteger text
      = if ds.length ≤ Failure.digitLimit then .ok (ofDigits ds)
        else .error (.numeralTooLong ds.length) := by
  have hplus : c ≠ '+' := by
    rintro rfl
    exact absurd hc (by decide)
  have hminus : c ≠ '-' := by
    rintro rfl
    exact absurd hc (by decide)
  have hblank : isNumeralBlank c = false := isNumeralBlank_of_isDigit hc
  by_cases hlength : ds.length ≤ Failure.digitLimit
  · simp [readInteger, htext, hblank, hplus, hminus, hspan, hds, hlength]
  · simp [readInteger, htext, hblank, hplus, hminus, hspan, hds, hlength]

theorem integerBound_eq : integerBound = 10 ^ Failure.digitLimit := by
  delta integerBound
  -- The power is too large to be worked out.
  generalize Failure.digitLimit = limit
  exact Nat.pow_eq

theorem length_toDigits_le_iff {n : Nat} :
    (Nat.toDigits 10 n).length ≤ Failure.digitLimit ↔ n < integerBound := by
  rw [integerBound_eq]
  exact Nat.length_toDigits_le_iff (by decide) (by simp [Failure.digitLimit])

/-- **The decimal text of a number reads as the number**, unless it is too long to be read. -/
theorem readInteger_toString_eq (n : Nat) : readInteger (toString n)
    = if n < integerBound then .ok n
      else .error (.numeralTooLong (Nat.toDigits 10 n).length) := by
  have htext : (toString n).toList = Nat.toDigits 10 n := Nat.toList_repr
  have hdigit : ∀ c ∈ Nat.toDigits 10 n, c.isDigit = true := fun c =>
    Nat.isDigit_of_mem_toDigits (by decide) (by decide)
  have hlength : (Nat.toDigits 10 n).length ≤ Failure.digitLimit ↔ n < integerBound :=
    length_toDigits_le_iff
  have hvalue : Nat.ofDigitChars 10 (Nat.toDigits 10 n) 0 = n := Nat.ofDigitChars_ten_toDigits
  cases hcs : Nat.toDigits 10 n with
  | nil => exact absurd hcs Nat.toDigits_ne_nil
  | cons c cs =>
    rw [hcs] at htext hdigit hlength hvalue
    have hdigits : digits? ((c :: cs).map fun c => .digit (c.toNat - '0'.toNat))
        = some ((c :: cs).map fun c => c.toNat - '0'.toNat) := by
      rw [← digits?_map_digit (by simp), List.map_map]
      rfl
    rw [readInteger_of_span htext (hdigit c List.mem_cons_self) (spanNumeral_of_isDigit hdigit)
      hdigits, ofDigits_map_toNat, hvalue, List.length_map]
    simp only [hlength]

theorem readInteger_toString {n : Nat} (h : n < integerBound) :
    readInteger (toString n) = .ok n := (readInteger_toString_eq n).trans (if_pos h)

/-- **Numbers of up to 64 bits** are written and read. -/
theorem le_integerBound {n : Nat} (h : n ≤ 2 ^ 64) : n ≤ integerBound :=
  calc n ≤ 2 ^ 64 := h
    _ ≤ 10 ^ 20 := by decide
    _ ≤ 10 ^ Failure.digitLimit := Nat.pow_le_pow_right (by decide) (by simp [Failure.digitLimit])
    _ = integerBound := integerBound_eq.symm

end HashConsing.Text
