import HashConsing.Proofs.Runs
import HashConsing.Report
import Mathlib.Data.List.Chain

/-!
# Summaries are tidy

The summary of a node or a list is its description with single spaces between the words. Where
that is too long its end gives way to three dots. The cut can fall anywhere: within a word, so
that the dots belong to the word, or right behind a space, so that they are a word of their own.
Either way the summary is *tidy*: its only blanks are spaces, one at a time and between words
(`Text.Tidy`).

Tidy texts are those that do not change when their words are joined (`Text.tidy_joinWords_words`
and `Text.Tidy.joinWords_words`). So whatever has been shortened is cut as it stands if it is
shortened again, and only the lesser of the two widths matters (`Text.shorten_shorten`).

Texts are read here up to their first blank and then from behind it (`Text.blank_induction`),
which is where their words split.
-/

namespace HashConsing

namespace Text

variable {text word rest : List Char} {c : Char}

/-! ## Words -/

/-- **Texts, blank by blank**: a text has no blank, or it has a first one, with letters before
it and a text behind it. -/
@[elab_as_elim]
theorem blank_induction {motive : List Char → Prop}
    (letters : ∀ word, (∀ a ∈ word, isBlank a = false) → motive word)
    (blank : ∀ word c rest, (∀ a ∈ word, isBlank a = false) → isBlank c = true →
      motive rest → motive (word ++ c :: rest))
    (text : List Char) : motive text := by
  -- The letters before the first blank are collected on the way to it.
  suffices h : ∀ word, (∀ a ∈ word, isBlank a = false) → motive (word ++ text) from
    h [] (List.forall_mem_nil _)
  induction text with
  | nil => exact fun word hword => (List.append_nil word).symm ▸ letters word hword
  | cons c text ih =>
    intro word hword
    cases hc : isBlank c with
    | true => exact blank word c text hword hc (ih [] (List.forall_mem_nil _))
    | false =>
      have hlonger : ∀ a ∈ word ++ [c], isBlank a = false :=
        List.forall_mem_append.2 ⟨hword, List.forall_mem_singleton.2 hc⟩
      rw [List.append_cons]
      exact ih _ hlonger

/-- Letters make one word. -/
theorem words_of_letters (hword : ∀ a ∈ word, isBlank a = false) (hne : word ≠ []) :
    words word = [word] :=
  wordsAfter_of_letters hword (.inr hne)

/-- Letters make one word, unless there are none. -/
theorem words_of_letters_eq_filter (hword : ∀ a ∈ word, isBlank a = false) :
    words word = [word].filter (· ≠ []) := by
  by_cases hne : word = []
  · subst hne
    rfl
  · rw [words_of_letters hword hne, List.filter_singleton, decide_eq_true hne]
    rfl

/-- **Words are what lies between blanks**, unless nothing does. -/
theorem words_eq_filter_splitOnP (text : List Char) :
    words text = (text.splitOnP isBlank).filter (· ≠ []) := by
  induction text using blank_induction with
  | letters word hword =>
    rw [words_of_letters_eq_filter hword, List.splitOnP_eq_singleton hword]
  | blank word c rest hword hc ih =>
    rw [words_append_blank hc, words_of_letters_eq_filter hword, ih, ← List.filter_append,
      List.splitOnP_append_cons word rest hc, List.splitOnP_eq_singleton hword]

/-- No word is empty. -/
theorem nil_notMem_words : [] ∉ words text := by
  simp [words_eq_filter_splitOnP]

/-! ## Joined words -/

@[simp] theorem joinWords_nil : joinWords [] = [] := rfl

@[simp] theorem joinWords_singleton (word : List Char) : joinWords [word] = word :=
  List.intercalate_singleton

theorem joinWords_cons {ws : List (List Char)} (h : ws ≠ []) (word : List Char) :
    joinWords (word :: ws) = word ++ ' ' :: joinWords ws := by
  rw [joinWords, List.intercalate_cons_of_ne_nil h, List.append_assoc]
  rfl

theorem joinWords_ne_nil {ws : List (List Char)} (hnil : [] ∉ ws) (hne : ws ≠ []) :
    joinWords ws ≠ [] := by
  cases ws with
  | nil => exact absurd rfl hne
  | cons word ws =>
    by_cases hws : ws = []
    · subst hws
      rw [joinWords_singleton]
      exact fun h => hnil (List.mem_singleton.2 h.symm)
    · rw [joinWords_cons hws]
      exact List.append_ne_nil_of_right_ne_nil _ (List.cons_ne_nil _ _)

/-- A text without blanks is its words joined, there being one word or none. -/
theorem joinWords_words_of_letters (hword : ∀ a ∈ word, isBlank a = false) :
    joinWords (words word) = word := by
  by_cases hne : word = []
  · subst hne
    rfl
  · rw [words_of_letters hword hne, joinWords_singleton]

/-- The letters before the first blank are the first word, if there are any. -/
theorem joinWords_words_append_blank (hword : ∀ a ∈ word, isBlank a = false)
    (hne : word ≠ []) (hc : isBlank c = true) (hrest : words rest ≠ []) :
    joinWords (words (word ++ c :: rest)) = word ++ ' ' :: joinWords (words rest) := by
  rw [words_append_blank hc, words_of_letters hword hne]
  exact joinWords_cons hrest word

/-! ## Tidy texts -/

/-- **A tidy text** has no other blanks than spaces, has them one at a time, and neither begins
nor ends with one. -/
structure Tidy (text : List Char) : Prop where
  eq_space : ∀ a ∈ text, isBlank a = true → a = ' '
  apart : text.IsChain fun a b => isBlank a = false ∨ isBlank b = false
  first : BeginsOutside isBlank text
  last : ∀ a ∈ text.getLast?, isBlank a = false

/-- Letters are tidy. -/
theorem tidy_of_letters (hword : ∀ a ∈ word, isBlank a = false) : Tidy word where
  eq_space a ha hblank := absurd ((hword a ha).symm.trans hblank) Bool.false_ne_true
  apart := List.isChain_iff_forall_rel_of_append_cons_cons.2 fun a _ _ _ h =>
    .inl (hword a (h ▸ List.mem_append_right _ List.mem_cons_self))
  first a ha := hword a (List.mem_of_mem_head? ha)
  last a ha := hword a (List.mem_of_getLast? ha)

/-- **Tidy texts are put together** with a space between them. -/
theorem Tidy.append_space (h : Tidy text) (hne : text ≠ []) (hrest : Tidy rest)
    (hrest' : rest ≠ []) : Tidy (text ++ ' ' :: rest) where
  eq_space a ha hblank := by
    rcases List.mem_append.1 ha with ha | ha
    · exact h.eq_space a ha hblank
    · exact (List.mem_cons.1 ha).elim id fun ha => hrest.eq_space a ha hblank
  apart := by
    have hbehind : (' ' :: rest).IsChain fun a b => isBlank a = false ∨ isBlank b = false :=
      hrest.apart.cons fun a ha => .inr (hrest.first a ha)
    exact h.apart.append hbehind fun a ha _ _ => .inl (h.last a ha)
  first := by
    rw [BeginsOutside, List.head?_append_of_ne_nil _ hne]
    exact h.first
  last := by
    rw [List.getLast?_append_of_ne_nil _ (List.cons_ne_nil _ _),
      List.getLast?_cons_of_ne_nil hrest']
    exact hrest.last

/-- **Behind a space of a tidy text** there is a tidy text, and something stands on both sides
of the space. -/
theorem Tidy.of_append_space (h : Tidy (text ++ ' ' :: rest)) :
    text ≠ [] ∧ rest ≠ [] ∧ Tidy rest := by
  have hspace : isBlank ' ' ≠ false := Bool.ne_false_iff.2 isBlank_space
  have hrest : rest ≠ [] := by
    rintro rfl
    exact hspace (h.last ' ' (by simp))
  obtain ⟨-, hbehind, -⟩ := List.isChain_append.1 h.apart
  obtain ⟨hnext, hapart⟩ := List.isChain_cons.1 hbehind
  have hlast : ∀ a ∈ rest.getLast?, isBlank a = false := by
    rw [← List.getLast?_cons_of_ne_nil hrest,
      ← List.getLast?_append_of_ne_nil text (List.cons_ne_nil ' ' rest)]
    exact h.last
  refine ⟨?_, hrest, ?_, hapart, ?_, hlast⟩
  · rintro rfl
    exact hspace (h.first ' ' rfl)
  · exact fun a ha => h.eq_space a (List.mem_append_right _ (List.mem_cons_of_mem _ ha))
  · exact fun a ha => (hnext a ha).resolve_left hspace

/-- **A tidy text stays tidy when its end gives way** to letters, wherever it is cut. -/
theorem Tidy.take_append (h : Tidy text) (n : Nat) (hword : ∀ a ∈ word, isBlank a = false)
    (hne : word ≠ []) : Tidy (text.take n ++ word) where
  eq_space a ha hblank := by
    rcases List.mem_append.1 ha with ha | ha
    · exact h.eq_space a (List.mem_of_mem_take ha) hblank
    · exact (tidy_of_letters hword).eq_space a ha hblank
  apart := (h.apart.take n).append (tidy_of_letters hword).apart fun _ _ b hb =>
    .inr (hword b (List.mem_of_mem_head? hb))
  first := (h.first.take n).append (tidy_of_letters hword).first
  last := by
    rw [List.getLast?_append_of_ne_nil _ hne]
    exact (tidy_of_letters hword).last

/-- **Words are joined tidily.** -/
theorem tidy_joinWords_words (text : List Char) : Tidy (joinWords (words text)) := by
  induction text using blank_induction with
  | letters word hword =>
    rw [joinWords_words_of_letters hword]
    exact tidy_of_letters hword
  | blank word c rest hword hc ih =>
    by_cases hne : word = []
    · subst hne
      rw [words_append_blank hc]
      exact ih
    by_cases hrest : words rest = []
    · rw [words_append_blank hc, hrest, List.append_nil, joinWords_words_of_letters hword]
      exact tidy_of_letters hword
    · rw [joinWords_words_append_blank hword hne hc hrest]
      exact (tidy_of_letters hword).append_space hne ih (joinWords_ne_nil nil_notMem_words hrest)

/-- **A tidy text is its words joined.** -/
theorem Tidy.joinWords_words (h : Tidy text) : joinWords (words text) = text := by
  induction text using blank_induction with
  | letters word hword => exact joinWords_words_of_letters hword
  | blank word c rest hword hc ih =>
    obtain rfl : c = ' ' := h.eq_space c (List.mem_append_right _ List.mem_cons_self) hc
    obtain ⟨hne, hrest, hbehind⟩ := h.of_append_space
    have hjoined : joinWords (words rest) = rest := ih hbehind
    have hwords : words rest ≠ [] := by
      intro hnone
      rw [hnone, joinWords_nil] at hjoined
      exact hrest hjoined.symm
    rw [joinWords_words_append_blank hword hne hc hwords, hjoined]

/-! ## Shortened texts -/

section Shorten

variable {width wide : Nat}

theorem shorten_of_le (h : (joinWords (words text)).length ≤ width) :
    shorten width text = joinWords (words text) :=
  if_pos h

theorem shorten_of_lt (h : width < (joinWords (words text)).length) :
    shorten width text = (joinWords (words text)).take (width - 3) ++ ['.', '.', '.'] :=
  if_neg (Nat.not_le_of_lt h)

/-- Texts are shortened alike if their words are joined to the same. -/
theorem shorten_congr {other : List Char}
    (h : joinWords (words text) = joinWords (words other)) :
    shorten width text = shorten width other := by
  rw [shorten, h, ← shorten]

/-- A text that is cut takes all of the width. -/
theorem length_shorten_of_lt (hroom : 3 ≤ width) (h : width < (joinWords (words text)).length) :
    (shorten width text).length = width := by
  rw [shorten_of_lt h, List.length_append, List.length_take,
    Nat.min_eq_left ((Nat.sub_le width 3).trans h.le)]
  exact Nat.sub_add_cancel hroom

/-- **Shortened texts are tidy.** -/
theorem tidy_shorten (width : Nat) (text : List Char) : Tidy (shorten width text) := by
  have htidy : Tidy (joinWords (words text)) := tidy_joinWords_words text
  by_cases hfits : (joinWords (words text)).length ≤ width
  · rw [shorten_of_le hfits]
    exact htidy
  · have hdots : ∀ a ∈ ['.', '.', '.'], isBlank a = false := by
      intro a ha
      obtain rfl : a = '.' := by simpa using ha
      decide
    rw [shorten_of_lt (Nat.lt_of_not_le hfits)]
    exact htidy.take_append _ hdots (List.cons_ne_nil _ _)

/-- **Tidy texts that fit are left as they are**, and no others. -/
theorem shorten_eq_self_iff (hroom : 3 ≤ width) :
    shorten width text = text ↔ Tidy text ∧ text.length ≤ width := by
  constructor
  · intro h
    rw [← h]
    exact ⟨tidy_shorten width text, length_shorten_le hroom text⟩
  · rintro ⟨htidy, hfits⟩
    have hjoined : joinWords (words text) = text := htidy.joinWords_words
    rw [shorten_of_le (hjoined.symm ▸ hfits), hjoined]

/-- **Only the lesser width matters** when a text is shortened again. -/
theorem shorten_shorten (hroom : 3 ≤ width) (hwide : width ≤ wide) (text : List Char) :
    shorten width (shorten wide text) = shorten width text := by
  have hjoined : joinWords (words (shorten wide text)) = shorten wide text :=
    (tidy_shorten wide text).joinWords_words
  by_cases hfits : (joinWords (words text)).length ≤ wide
  -- Nothing was cut the first time, so the same words are shortened the second time.
  · rw [shorten_of_le hfits] at hjoined ⊢
    exact shorten_congr hjoined
  have hlong : wide < (joinWords (words text)).length := Nat.lt_of_not_le hfits
  have hlength : (shorten wide text).length = wide :=
    length_shorten_of_lt (hroom.trans hwide) hlong
  by_cases heq : wide = width
  · subst heq
    exact (shorten_eq_self_iff hroom).2 ⟨tidy_shorten wide text, hlength.le⟩
  -- The dots of the first time are cut off the second time.
  have hless : width < wide := Nat.lt_of_le_of_ne hwide (Ne.symm heq)
  have hdots : width - 3 ≤ ((joinWords (words text)).take (wide - 3)).length := by
    rw [List.length_take]
    omega
  calc shorten width (shorten wide text)
      = (shorten wide text).take (width - 3) ++ ['.', '.', '.'] := by
        rw [shorten_of_lt (hjoined.symm ▸ hlength.symm ▸ hless), hjoined]
    _ = (joinWords (words text)).take (width - 3) ++ ['.', '.', '.'] := by
        rw [shorten_of_lt hlong, List.take_append_of_le_length hdots, List.take_take,
          Nat.min_eq_left (Nat.sub_le_sub_right hwide 3)]
    _ = shorten width text := (shorten_of_lt (hless.trans hlong)).symm

end Shorten

end Text

/-! ## Summaries -/

namespace Reporter

open Text

theorem toList_summary (r : Reporter) (text : String) :
    (r.summary text).toList = shorten r.settings.summaryWidth text.toList :=
  String.toList_ofList

/-- **Summaries are a normal form.** The width of summaries is whatever the settings say, ten at
least. A summary has no more characters than that, and it is tidy. Nothing of a text matters to it
but the words, which are what lies between blanks: the summary is these with single spaces between
them, and where that is too long it takes all of the width, the end having given way to three dots.
What has been summarized to some width has the same summary as before to any lesser width, and to
the same width as well. -/
theorem summary_normal (r : Reporter) (text : String) :
    let width := r.settings.summaryWidth
    let wordsOf (s : String) := (s.toList.splitOnP isBlank).filter (· ≠ [])
    let joined := [' '].intercalate (wordsOf text)
    (r.summary text).length ≤ width
    ∧ Tidy (r.summary text).toList
    ∧ (∀ other : String, wordsOf other = wordsOf text → r.summary other = r.summary text)
    ∧ (joined.length ≤ width → (r.summary text).toList = joined)
    ∧ (width < joined.length → (r.summary text).length = width
        ∧ (r.summary text).toList = joined.take (width - 3) ++ "...".toList)
    ∧ ∀ wide : Reporter, width ≤ wide.settings.summaryWidth →
        r.summary (wide.summary text) = r.summary text := by
  intro width wordsOf joined
  have hroom : 3 ≤ width := Nat.le_trans (by decide) r.settings.wide
  have hwords (s : String) : wordsOf s = words s.toList := (words_eq_filter_splitOnP s.toList).symm
  have hjoined : joined = joinWords (words text.toList) := congrArg joinWords (hwords text)
  rw [← String.length_toList, toList_summary, hjoined]
  refine ⟨length_shorten_le hroom text.toList, tidy_shorten width text.toList, ?_,
    shorten_of_le, ?_, ?_⟩
  · intro other hother
    rw [hwords, hwords] at hother
    refine String.toList_inj.1 ?_
    rw [toList_summary, toList_summary]
    exact shorten_congr (congrArg joinWords hother)
  · exact fun hlong => ⟨length_shorten_of_lt hroom hlong, shorten_of_lt hlong⟩
  · intro wide hwide
    refine String.toList_inj.1 ?_
    rw [toList_summary, toList_summary, toList_summary]
    exact shorten_shorten hroom hwide text.toList

/-- Four words that are cut right behind a space, and then once more. -/
theorem summary_normal_cut :
    let wide : Reporter := { settings := { summaryWidth := 18 } }
    let narrow : Reporter := { settings := { summaryWidth := 12 } }
    let text := " word \n\t word word\u2003word"
    wide.summary text = "word word word ..."
    ∧ narrow.summary text = "word word..."
    ∧ narrow.summary (wide.summary text) = narrow.summary text := by
  intro wide narrow text
  obtain ⟨-, -, -, -, hwide, -⟩ := wide.summary_normal text
  obtain ⟨-, -, -, -, hnarrow, hagain⟩ := narrow.summary_normal text
  refine ⟨?_, ?_, hagain wide (by decide)⟩
  · exact String.toList_inj.1 ((hwide (by decide)).2.trans (by decide))
  · exact String.toList_inj.1 ((hnarrow (by decide)).2.trans (by decide))

end Reporter

end HashConsing
