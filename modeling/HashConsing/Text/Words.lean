import HashConsing.Text.CharClass

/-!
# Words and blanks

A text is read here as a sequence of words with blanks around them. Three
operations forget how much blank space there was: `words` lists the words,
`strip` removes the blanks at both ends, and `shorten` joins the words by
single spaces and cuts the result to a width.

The equation everything else follows from is `words_append_blank`: a blank
separates the words before it from the words after it.
-/

namespace HashConsing.Text

/-! ## The words of a text -/

/-- The words of a text whose first letters, most recent first, have been read
already. -/
def wordsAfter (letters : List Char) : List Char → List (List Char)
  | [] => if letters.isEmpty then [] else [letters.reverse]
  | c :: text =>
    if isBlank c then
      if letters.isEmpty then wordsAfter [] text
      else letters.reverse :: wordsAfter [] text
    else wordsAfter (c :: letters) text

/-- **The words of a text**: its maximal runs of characters that are not
blank, in order. -/
def words (text : List Char) : List (List Char) := wordsAfter [] text

@[simp] theorem words_nil : words [] = [] := rfl

theorem wordsAfter_append_blank {c : Char} (hc : isBlank c = true)
    (letters before after : List Char) :
    wordsAfter letters (before ++ c :: after)
      = wordsAfter letters before ++ words after := by
  induction before generalizing letters with
  | nil => cases letters <;> simp [wordsAfter, words, hc]
  | cons a before ih =>
    simp only [List.cons_append, wordsAfter, ih]
    cases letters <;> by_cases ha : isBlank a <;> simp [ha]

/-- **Words split at a blank.** -/
theorem words_append_blank {c : Char} (hc : isBlank c = true)
    (before after : List Char) :
    words (before ++ c :: after) = words before ++ words after :=
  wordsAfter_append_blank hc [] before after

/-- A word is read to its end when nothing but letters is left. -/
theorem wordsAfter_of_letters {letters text : List Char}
    (h : ∀ c ∈ text, isBlank c = false) (hne : letters ≠ [] ∨ text ≠ []) :
    wordsAfter letters text = [letters.reverse ++ text] := by
  induction text generalizing letters with
  | nil => simp_all [wordsAfter]
  | cons c text ih =>
    have hc : isBlank c = false := h c (by simp)
    have step : wordsAfter (c :: letters) text = [(c :: letters).reverse ++ text] :=
      ih (fun d hd => h d (by simp [hd])) (Or.inl (by simp))
    simp [wordsAfter, hc, step]

/-! ## Removing the blanks at the ends -/

/-- **The text without the blanks at its ends.** -/
def strip (text : List Char) : List Char :=
  ((text.dropWhile isBlank).reverse.dropWhile isBlank).reverse

/-- A text holds nothing but blanks. -/
def isBlankText (text : List Char) : Bool := text.all isBlank

/-! ## Shortening -/

/-- The words of a text with one space between neighbours. -/
def joinWords (ws : List (List Char)) : List Char := [' '].intercalate ws

/-- **A text cut to a width.** Its words are joined by single spaces; what is
longer than the width loses its end to three dots. -/
def shorten (width : Nat) (text : List Char) : List Char :=
  let joined := joinWords (words text)
  if joined.length ≤ width then joined
  else joined.take (width - 3) ++ ['.', '.', '.']

/-- **A shortened text fits its width**, provided the dots do. -/
theorem length_shorten_le {width : Nat} (h : 3 ≤ width) (text : List Char) :
    (shorten width text).length ≤ width := by
  simp only [shorten]
  split
  · assumption
  · simp only [List.length_append, List.length_take, List.length_cons, List.length_nil]
    omega

end HashConsing.Text
