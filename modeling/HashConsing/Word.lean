/-!
# Words

A word is an integer of a machine type: it has a fixed number of bits, with or
without a sign. It counts as the number it holds, but it keeps its type, also
where two types have the same range.

How a word is shown inside other values has changed over time, sometimes with
its type and sometimes without, so every word comes with that text.
-/

namespace HashConsing

/-- The types of machine integers. -/
inductive WordType where
  | int8
  | int16
  | int32
  | int64
  | longlong
  | uint8
  | uint16
  | uint32
  | uint64
  | ulonglong
  deriving DecidableEq, Repr

namespace WordType

/-- The name of a type, as messages show it. -/
def name : WordType → String
  | int8 => "int8"
  | int16 => "int16"
  | int32 => "int32"
  | int64 => "int64"
  | longlong => "longlong"
  | uint8 => "uint8"
  | uint16 => "uint16"
  | uint32 => "uint32"
  | uint64 => "uint64"
  | ulonglong => "ulonglong"

/-- The least integer of a type. -/
def least : WordType → Int
  | int8 => -0x80
  | int16 => -0x8000
  | int32 => -0x80000000
  | int64 | longlong => -0x8000000000000000
  | uint8 | uint16 | uint32 | uint64 | ulonglong => 0

/-- The greatest integer of a type. -/
def greatest : WordType → Int
  | int8 => 0x7f
  | int16 => 0x7fff
  | int32 => 0x7fffffff
  | int64 | longlong => 0x7fffffffffffffff
  | uint8 => 0xff
  | uint16 => 0xffff
  | uint32 => 0xffffffff
  | uint64 | ulonglong => 0xffffffffffffffff

/-- A type is known by its name. -/
@[simp] theorem name_inj {a b : WordType} : a.name = b.name ↔ a = b := by
  refine ⟨fun h => ?_, congrArg name⟩
  cases a <;> cases b <;> first | rfl | exact absurd h (by decide)

/-- No type has room for more than 64 bits. -/
theorem natAbs_lt (type : WordType) {n : Int} (hleast : type.least ≤ n)
    (hgreatest : n ≤ type.greatest) : n.natAbs < 0x10000000000000000 := by
  cases type <;> simp only [least, greatest] at hleast hgreatest <;> omega

end WordType

/-- **A word**: an integer of a machine type, with the text that shows it inside
other values. -/
structure Word where
  type : WordType
  value : Int
  /-- The text of the word inside other values. -/
  shown : String
  least_le : type.least ≤ value
  le_greatest : value ≤ type.greatest
  deriving DecidableEq, Repr

namespace Word

theorem natAbs_value_lt (w : Word) : w.value.natAbs < 0x10000000000000000 :=
  w.type.natAbs_lt w.least_le w.le_greatest

end Word

end HashConsing
