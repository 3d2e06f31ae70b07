import HashConsing.Failure
import HashConsing.Grammar
import HashConsing.Text.WordChar
import HashConsing.Text.Words

/-!
# Declarations

A grammar can be declared in the notation of abstract syntax descriptions: the
name of a node kind, followed by its properties in parentheses, each with a
type, a mark for how often it occurs, and a name. So

    Call(expr func, expr* args, keyword* keywords)

declares the kind `Call` with one child and two lists of children. Blank space
is free, line breaks included.

Reading a text of declarations takes two steps. `constructors` cuts the text
into kinds and the texts of their parentheses; it accepts every text and
ignores what stands between declarations. `readFields` then reads each property
and refuses what is none.
-/

namespace HashConsing

open Text

/-! ## Cutting a text into constructors -/

/-- **A node kind and the text between its parentheses**, which is empty where
there are none. -/
structure Constructor where
  kind : List Char
  body : List Char
  deriving DecidableEq, Repr

/-- The first word of a text and what follows it. -/
def nextWord? (text : List Char) : Option (List Char × List Char) :=
  match text.dropWhile (fun c => !isWordChar c) with
  | [] => none
  | c :: rest => some ((c :: rest).takeWhile isWordChar, (c :: rest).dropWhile isWordChar)

/-- The text between parentheses at the start of a text, blanks aside, and what
follows them. Where no parenthesis is opened, or it is never closed, nothing is
taken. -/
def parenthesized (text : List Char) : List Char × List Char :=
  match text.dropWhile isBlank with
  | '(' :: inside =>
    match inside.dropWhile (· != ')') with
    | [] => ([], text)
    | _ :: rest => (inside.takeWhile (· != ')'), rest)
  | _ => ([], text)

theorem length_dropWhile_le {α : Type} (p : α → Bool) (xs : List α) :
    (xs.dropWhile p).length ≤ xs.length := (List.dropWhile_sublist p).length_le

theorem length_nextWord?_lt {text word rest : List Char}
    (h : nextWord? text = some (word, rest)) : rest.length < text.length := by
  unfold nextWord? at h
  have hle := length_dropWhile_le (fun c => !isWordChar c) text
  cases hd : text.dropWhile (fun c => !isWordChar c) with
  | nil => simp [hd] at h
  | cons c tail =>
    rw [hd] at h hle
    simp only [Option.some.injEq, Prod.mk.injEq] at h
    obtain ⟨-, rfl⟩ := h
    have hc : isWordChar c = true := by
      have hne : text.dropWhile (fun c => !isWordChar c) ≠ [] := by simp [hd]
      have := List.head_dropWhile_not (fun c => !isWordChar c) hne
      simpa [hd] using this
    have := length_dropWhile_le isWordChar tail
    simp only [List.dropWhile_cons, hc, if_true, List.length_cons] at hle ⊢
    omega

theorem length_parenthesized_le (text : List Char) :
    (parenthesized text).2.length ≤ text.length := by
  unfold parenthesized
  have hle := length_dropWhile_le isBlank text
  split
  next inside hb =>
    rw [hb] at hle
    have hle' := length_dropWhile_le (fun c => c != ')') inside
    split
    next => simp
    next rest hp =>
      rw [hp] at hle'
      simp only [List.length_cons] at hle hle' ⊢
      omega
  next => simp

/-- **The constructors of a text**: every word that is not inside the
parentheses of another, with its parentheses. -/
def constructors (text : List Char) : List Constructor :=
  match _h : nextWord? text with
  | none => []
  | some (word, rest) =>
    ⟨word, (parenthesized rest).1⟩ :: constructors (parenthesized rest).2
termination_by text.length
decreasing_by
  exact Nat.lt_of_le_of_lt (length_parenthesized_le _) (length_nextWord?_lt ‹_›)

/-! ## Reading the properties of a constructor -/

/-- The texts between commas. -/
def pieces : List Char → List (List Char)
  | [] => [[]]
  | c :: text =>
    if c = ',' then [] :: pieces text
    else match pieces text with
    | [] => [[c]]
    | piece :: rest => (c :: piece) :: rest

/-- How often what a property declares occurs. -/
inductive Quantifier where
  | one
  | optional
  | many
  deriving DecidableEq, Repr

/-- A property as it is declared. -/
structure Field where
  type : List Char
  quantifier : Quantifier
  name : List Char
  deriving DecidableEq, Repr

/-- The types of raw data. -/
def dataTypes : List String := ["identifier", "string", "int", "constant"]

/-- **What a declared property holds.** Raw data is raw data however often it
occurs. -/
def Field.kind (field : Field) : PropertyKind :=
  if dataTypes.contains (String.ofList field.type) then .leaf
  else match field.quantifier with
  | .many => .childList
  | _ => .child

/-- The property that is declared. -/
def Field.property (field : Field) : Property := ⟨String.ofList field.name, field.kind⟩

/-- The mark behind a type, if there is one, and what follows it. -/
def readQuantifier : List Char → Quantifier × List Char
  | '*' :: rest => (.many, rest)
  | '?' :: rest => (.optional, rest)
  | text => (.one, text)

/-- **Reads one property** from a text without blanks at its ends: a word, at
most one mark, blanks, and a word. -/
def readField? (text : List Char) : Option Field :=
  let type := text.takeWhile isWordChar
  let (quantifier, rest) := readQuantifier (text.dropWhile isWordChar)
  let name := rest.dropWhile isBlank
  if type.isEmpty || name.isEmpty || name.length == rest.length || !name.all isWordChar then none
  else some ⟨type, quantifier, name⟩

/-- **Reads the properties of a constructor.** Pieces with nothing but blanks
are left out. -/
def readFields (c : Constructor) : Except Failure (List Field) :=
  ((pieces c.body).map strip).filter (fun piece => !piece.isEmpty) |>.mapM fun piece =>
    match readField? piece with
    | some field => .ok field
    | none => .error (.malformedField (String.ofList c.kind) (String.ofList piece))

/-- **Reads a grammar.** A kind that is declared again has the properties of its
last declaration, at the place of its first. -/
def readGrammar (text : String) : Except Failure Grammar :=
  (constructors text.toList).foldlM (fun grammar c => do
    let fields ← readFields c
    return grammar.declare (String.ofList c.kind) (fields.map Field.property)) []

end HashConsing
