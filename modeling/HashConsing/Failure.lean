import HashConsing.Value

/-!
# Failures

Everything that can go wrong has one constructor here, which carries what it is
about: the kind, the property, the id or the value itself, not a text of it.
The wording stands in `HashConsing.Failure.Message`.

The failures fall into four groups: trees that do not fit their grammar
(`unknownKind`, `shapeMismatch`), questions about ids that have no answer
(`unknownId`, `notALeaf`), settings and declarations that are refused, and
texts and numbers that are beyond a limit.
-/

namespace HashConsing

/-- **What can go wrong.** -/
inductive Failure where
  /-- A node kind has no property metadata. -/
  | unknownKind (kind : String) (reason : Option String)
  /-- A piece of the declaration of a node kind declares no property. -/
  | malformedField (kind piece : String)
  /-- The value of a property disagrees with what is declared of it. -/
  | shapeMismatch (kind property expected : String) (actual : Value)
  /-- A query names something that is not an allocated id, all of which are
  below the frontier. -/
  | unknownId (id : Value) (frontier : Nat)
  /-- The text of a leaf is asked of an id that is none. -/
  | notALeaf (id : Value)
  /-- A value that may change cannot be a leaf. -/
  | unhashable (typeName : String)
  /-- An integer is too long to be written. -/
  | integerTooLong
  /-- A numeral is too long to be read. -/
  | numeralTooLong (digits : Nat)
  /-- A label is not the text of an integer. -/
  | notANumeral (text : String)
  /-- A summary width leaves no room for a summary. -/
  | summaryTooNarrow (width : String)
  /-- An indentation unit shows something. -/
  | indentNotBlank (indent : String)
  /-- An integer does not fit a signed word of 64 bits. -/
  | outsideWord
  /-- A walk ends before the number of nodes that was announced. -/
  | tooFewNodes (expected found : Nat)
  /-- A child is asked for at a position where there is none. -/
  | noSuchChild
  /-- Two sources that should be equivalent are not; their root labels and
  their renderings. -/
  | notEquivalent (actualRoot expectedRoot actual expected : String)
  /-- A source does not parse. -/
  | syntaxError (category filename : String)
  /-- A source is refused before it is parsed. -/
  | refusedSource (reason : String)

/-- **What becomes of a computation** that may fail, and that may never end. -/
abbrev Outcome := ExceptT Failure Option

namespace Failure

/-- The greatest number of decimal digits an integer is written or read with. -/
def digitLimit : Nat := 4300

/-- **A computation in steps succeeds** only if each of its steps does. -/
theorem exists_of_bind_eq_ok {α β : Type} {x : Except Failure α}
    {f : α → Except Failure β} {r : β} (h : (x >>= f) = .ok r) :
    ∃ a, x = .ok a ∧ f a = .ok r := by
  cases x with
  | error failure => cases h
  | ok a => exact ⟨a, rfl, h⟩

/-- **A computation in steps fails** where one of its steps does. -/
theorem eq_error_of_bind_eq_error {α β : Type} {x : Except Failure α}
    {f : α → Except Failure β} {failure : Failure} (h : (x >>= f) = .error failure) :
    x = .error failure ∨ ∃ a, x = .ok a ∧ f a = .error failure := by
  cases x with
  | error failure' =>
    cases h
    exact .inl rfl
  | ok a => exact .inr ⟨a, rfl, h⟩

end Failure

end HashConsing
