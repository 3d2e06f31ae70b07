import Mathlib.Data.List.Basic

/-!
# Runs of characters

A text that is cut into runs of characters of one class can be put together again only if one
can see where each run ends: something must follow that does not belong to the class. Then the run
can be told from what follows it (`Text.run_unique`).
-/

namespace HashConsing.Text

/-- A text begins with no character of a class, if it begins at all. -/
def BeginsOutside (p : Char → Bool) (text : List Char) : Prop := ∀ c ∈ text.head?, p c = false

section Beginnings

variable {p : Char → Bool} {text : List Char} (h : BeginsOutside p text)

include h

theorem BeginsOutside.take (n : Nat) : BeginsOutside p (text.take n) := by
  cases n with
  | zero => rintro _ ⟨⟩
  | succ n =>
    cases text with
    | nil => rintro _ ⟨⟩
    | cons c text => exact h

theorem BeginsOutside.append {rest : List Char} (hrest : BeginsOutside p rest) :
    BeginsOutside p (text ++ rest) := by
  cases text with
  | nil => exact hrest
  | cons c text => exact h

end Beginnings

section Span

variable {p : Char → Bool} {run rest : List Char} (hrest : BeginsOutside p rest)

include hrest

theorem takeWhile_of_beginsOutside : rest.takeWhile p = [] := by
  cases rest with
  | nil => rfl
  | cons c rest => exact List.takeWhile_cons_of_neg (by simp [hrest c rfl])

theorem dropWhile_of_beginsOutside : rest.dropWhile p = rest := by
  cases rest with
  | nil => rfl
  | cons c rest => exact List.dropWhile_cons_of_neg (by simp [hrest c rfl])

/-- **A run of characters of a class ends** where something else begins. -/
theorem takeWhile_run (hrun : ∀ c ∈ run, p c = true) : (run ++ rest).takeWhile p = run := by
  rw [List.takeWhile_append_of_pos hrun, takeWhile_of_beginsOutside hrest, List.append_nil]

/-- What follows a run of characters of a class is left behind it. -/
theorem dropWhile_run (hrun : ∀ c ∈ run, p c = true) : (run ++ rest).dropWhile p = rest := by
  rw [List.dropWhile_append_of_pos hrun, dropWhile_of_beginsOutside hrest]

/-- **A text is a run and what follows it in one way only.** -/
theorem run_unique {run' rest' : List Char} (hrest' : BeginsOutside p rest')
    (hrun : ∀ c ∈ run, p c = true) (hrun' : ∀ c ∈ run', p c = true)
    (h : run ++ rest = run' ++ rest') : run = run' ∧ rest = rest' := by
  have htake := congrArg (List.takeWhile p) h
  have hdrop := congrArg (List.dropWhile p) h
  rw [takeWhile_run hrest hrun, takeWhile_run hrest' hrun'] at htake
  rw [dropWhile_run hrest hrun, dropWhile_run hrest' hrun'] at hdrop
  exact ⟨htake, hdrop⟩

end Span

end HashConsing.Text
