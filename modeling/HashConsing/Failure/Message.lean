import HashConsing.Failure
import HashConsing.Value.Text

/-!
# The wording of failures

A message shows what a failure is about, and writing that may fail itself: an
id may be an integer that is too long. Then there is no message, and the
failure to write one takes the place of the failure that was to be reported
(`Failure.raised`).

Four of the messages can be asked for over any values, not only over those that
occur while labeling. What is at fault is quoted there, what is said about it
stands as plain text.
-/

namespace HashConsing

/-- **A value says something**: it is not absent, not false, not zero and not
empty. -/
def Value.isTelling : Value → Bool
  | .null => false
  | .ellipsis => true
  | .bool b => b
  | .int n => n != 0
  | .word w => w.value != 0
  | .float x => !x.isZero
  | .complex re im => !(re.isZero && im.isZero)
  | .text s => !s.isEmpty
  | .bytes data => !data.isEmpty
  | .tuple items => !items.isEmpty
  | .frozenset members => !members.isEmpty
  | .list items => !items.isEmpty
  | .set members => !members.isEmpty
  | .dict entries => !entries.isEmpty
  | .node _ _ => true

/-- **The text of several values**: nothing for none, the plain text of a single
one, and for more the text of the tuple they make. -/
def Value.textOf : List Value → Except Failure String
  | [] => .ok ""
  | [v] => v.plain
  | values => (tuple values).quoted

namespace Failure

/-! ## Wordings over any values -/

/-- **An unknown kind** and a reason, which is left out unless it says
something. -/
def kindText (kind reason : Value) : Except Failure String := do
  let text := "No property metadata for node kind " ++ (← kind.quoted)
  if reason.isTelling then return text ++ ": " ++ (← reason.plain) else return text

/-- **A property that does not hold what is expected.** Of what it holds, the
type is named. -/
def shapeText (kind property expected actual : Value) : Except Failure String := do
  return s!"{← kind.plain}.{← property.plain}: expected {← expected.plain}, "
    ++ s!"got {actual.typeName}"

/-- **An unknown id** and the first one that is not allocated. -/
def idText (id : Value) (frontier : String) : Except Failure String := do
  return s!"Canonical id {← id.quoted} is not allocated (valid range: [0, {frontier}))"

/-- **An id that is no leaf.** -/
def leafIdText (id : Value) : Except Failure String := do
  return s!"Canonical id {← id.plain} is not a leaf value"

/-! ## Messages -/

/-- The advice at the end of both messages about the digit limit. -/
def digitLimitAdvice : String :=
  "use sys.set_int_max_str_digits() to increase the limit"

/-- What is said of a piece that declares no property. -/
def malformedReason (piece : String) : String :=
  "malformed field declaration " ++ Text.quote piece

/-- **The message of a failure**, or the failure to write one. -/
def message : Failure → Except Failure String
  | unknownKind kind reason => kindText (.text kind) ((reason.map Value.text).getD .null)
  | malformedField kind piece => kindText (.text kind) (.text (malformedReason piece))
  | shapeMismatch kind property expected actual =>
    shapeText (.text kind) (.text property) (.text expected) actual
  | unknownId id frontier => idText id (toString frontier)
  | notALeaf id => leafIdText id
  | unhashable typeName => .ok ("unhashable type: " ++ Text.quote typeName)
  | integerTooLong =>
    .ok (s!"Exceeds the limit ({digitLimit} digits) for integer string conversion; "
      ++ digitLimitAdvice)
  | numeralTooLong digits =>
    .ok (s!"Exceeds the limit ({digitLimit} digits) for integer string conversion: "
      ++ s!"value has {digits} digits; " ++ digitLimitAdvice)
  | notANumeral text =>
    .ok ("invalid literal for int() with base 10: "
      ++ String.ofList ((Text.quote text).toList.take 200))
  | summaryTooNarrow width => .ok s!"summary_width must be >= 10, got {width}"
  | indentNotBlank indent =>
    .ok ("indent must contain only whitespace, got " ++ Text.quote indent)
  | outsideWord => .ok "Python int too large to convert to C long"
  | tooFewNodes expected found =>
    .ok s!"iterator too short: Expected {expected} but iterator had only {found} items."
  | noSuchChild => .ok "tuple index out of range"
  | notEquivalent actualRoot expectedRoot actual expected =>
    .ok ("Sources not structurally equivalent: "
      ++ s!"root={actualRoot} != expected root={expectedRoot}\n"
      ++ s!"  actual:\n{actual}\n"
      ++ s!"  expected:\n{expected}")
  | syntaxError _ filename => .ok filename
  | refusedSource reason => .ok reason

theorem message_malformedField (kind piece : String) :
    (malformedField kind piece).message
      = .ok ("No property metadata for node kind " ++ Text.quote kind ++ ": "
          ++ malformedReason piece) := by
  have hreason : malformedReason piece ≠ "" := fun h =>
    absurd (String.append_eq_empty_iff.1 h).1 (by decide)
  have htelling : (Value.text (malformedReason piece)).isTelling = true := by
    rw [Value.isTelling, String.isEmpty_eq_false_iff.2 hreason]
    rfl
  rw [message, kindText, htelling]
  rfl

/-- **The message of a malformed declaration tells its kind and its piece.** -/
theorem eq_of_message_malformedField {kind piece kind' piece' : String}
    (h : (malformedField kind piece).message = (malformedField kind' piece').message) :
    kind = kind' ∧ piece = piece' := by
  rw [message_malformedField, message_malformedField, Except.ok.injEq] at h
  simp only [String.append_assoc, String.append_right_inj] at h
  obtain ⟨hkind, hreason⟩ := Text.quote_append_inj h
  have hpiece := (String.append_right_inj _).1 ((String.append_right_inj _).1 hreason)
  exact ⟨hkind, Text.quote_injective hpiece⟩

/-- **What is reported where a failure is to be**: the failure itself, or the one
that comes up while its message is written. -/
def raised (failure : Failure) : Failure :=
  match failure.message with
  | .ok _ => failure
  | .error obstacle => obstacle

end Failure

end HashConsing
