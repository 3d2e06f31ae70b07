import HashConsing.Proofs.GrammarInForce
import HashConsing.Proofs.Runs
import Mathlib.Data.List.Forall2
import Mathlib.Data.List.TakeWhile

/-!
# Printed declarations

The notation of declarations is free in many places: blanks may stand around the properties of
a constructor and before its parentheses, parentheses without properties may be left out, and
any blanks set constructors apart. `Prints` says which texts declarations may be printed as.

Whichever of these texts is chosen, reading it gives back what was printed
(`readGrammar_printed`). The two steps of reading are undone one by one. A word ends where
something stands that is no word character, so the text is cut into the constructors that were
printed (`Prints.constructors`); and no comma and no closing parenthesis is part of a printed
property, so each constructor is cut into its properties (`PrintsFields.readFields`).
-/

namespace HashConsing

/-! ## Words and blanks -/

namespace Text

/-- Blanks and word characters beyond the first 128 code points have none in common. -/
theorem blankRanges_wordRanges :
    ∀ r ∈ blankRanges, ∀ s ∈ wordRanges, r.2 < s.1 ∨ s.2 < r.1 := by
  decide +kernel

/-- The blanks among the first 128 code points stand before the digits. -/
theorem blankRanges_ascii : ∀ r ∈ blankRanges, r.2 < 48 ∨ 0x80 ≤ r.1 := by decide

/-- Letters and digits do not stand before the digits. -/
theorem le_toNat_of_isAlphanum {c : Char} (h : c.isAlphanum = true) : 48 ≤ c.toNat := by
  replace h : (decide (c.val ≥ 'A'.val ∧ c.val ≤ 'Z'.val)
      || (c.val ≥ 'a'.val && c.val ≤ 'z'.val) || c.isDigit) = true := h
  have hval : c.val.toNat = c.toNat := rfl
  have hA : 'A'.val.toNat = 65 := rfl
  have ha : 'a'.val.toNat = 97 := rfl
  have h0 : '0'.val.toNat = 48 := rfl
  simp only [Char.isDigit, Bool.or_eq_true, Bool.and_eq_true, decide_eq_true_eq,
    UInt32.le_iff_toNat_le, ge_iff_le, hval] at h
  omega

/-- **A blank is no word character.** -/
theorem isWordChar_of_isBlank {c : Char} (h : isBlank c = true) : isWordChar c = false := by
  obtain ⟨r, hr, hlow, hhigh⟩ := inRanges_iff.1 h
  rw [← Bool.not_eq_true]
  intro hword
  unfold isWordChar at hword
  split at hword
  next hascii =>
    have hblank : c.toNat < 48 := by
      rcases blankRanges_ascii r hr with hlt | hge <;> omega
    rcases Bool.or_eq_true_iff.1 hword with halphanum | hlowLine
    · exact absurd (le_toNat_of_isAlphanum halphanum) (Nat.not_le.2 hblank)
    · obtain rfl : c = '_' := eq_of_beq hlowLine
      exact absurd hblank (by decide)
  next =>
    obtain ⟨s, hs, hlow', hhigh'⟩ := inRanges_iff.1 hword
    rcases blankRanges_wordRanges r hr s hs with hlt | hlt <;> omega

/-- **A word** is one or more word characters. -/
def IsWord (text : List Char) : Prop := text ≠ [] ∧ ∀ c ∈ text, isWordChar c = true

theorem IsWord.reverse {text : List Char} (h : IsWord text) : IsWord text.reverse :=
  ⟨fun heq => h.1 (List.reverse_eq_nil_iff.1 heq), fun c hc => h.2 c (List.mem_reverse.1 hc)⟩

instance : DecidablePred IsWord := fun text =>
  decidable_of_iff ((!text.isEmpty && text.all isWordChar) = true) (by simp [IsWord])

theorem isBlank_of_isBlankText {text : List Char} (h : isBlankText text = true) :
    ∀ c ∈ text, isBlank c = true := List.all_eq_true.1 h

/-- A word begins with no blank. -/
theorem IsWord.beginsOutside_isBlank {word : List Char} (h : IsWord word) (rest : List Char) :
    BeginsOutside isBlank (word ++ rest) := by
  obtain ⟨hne, hall⟩ := h
  cases word with
  | nil => exact absurd rfl hne
  | cons c word =>
    rintro _ ⟨⟩
    rw [← Bool.not_eq_true]
    intro hblank
    exact Bool.false_ne_true ((isWordChar_of_isBlank hblank).symm.trans (hall c List.mem_cons_self))

/-- A blank text, followed by what begins with no word character, begins with none. -/
theorem beginsOutside_isWordChar_of_blank {gap rest : List Char} (hgap : isBlankText gap = true)
    (hne : gap ≠ []) : BeginsOutside isWordChar (gap ++ rest) := by
  cases gap with
  | nil => exact absurd rfl hne
  | cons c gap =>
    rintro _ ⟨⟩
    exact isWordChar_of_isBlank (isBlank_of_isBlankText hgap c List.mem_cons_self)

/-- **Blanks at both ends are removed**, and nothing else is. -/
theorem strip_of_blank {before core after : List Char} (hbefore : isBlankText before = true)
    (hafter : isBlankText after = true) (hfirst : BeginsOutside isBlank core)
    (hlast : BeginsOutside isBlank core.reverse) (hne : core ≠ []) :
    strip (before ++ (core ++ after)) = core := by
  have hfirst' : BeginsOutside isBlank (core ++ after) := by
    cases core with
    | nil => exact absurd rfl hne
    | cons c core => exact hfirst
  have hafter' : ∀ c ∈ after.reverse, isBlank c = true := fun c hc =>
    isBlank_of_isBlankText hafter c (List.mem_reverse.1 hc)
  rw [strip, dropWhile_run hfirst' (isBlank_of_isBlankText hbefore), List.reverse_append,
    dropWhile_run hlast hafter', List.reverse_reverse]

/-- Nothing is left of a blank text. -/
theorem strip_blank {text : List Char} (h : isBlankText text = true) : strip text = [] := by
  rw [strip, List.dropWhile_eq_nil_iff.2 (isBlank_of_isBlankText h)]
  rfl

end Text

open Text

/-! ## What is printed -/

/-- The mark of a quantifier. -/
def Quantifier.mark : Quantifier → List Char
  | one => []
  | optional => ['?']
  | many => ['*']

/-- **A declared node kind** with its properties. -/
structure Declaration where
  kind : List Char
  fields : List Field

/-- **A property is printed** as its type with the mark behind it, one or more blanks and its
name, with any blanks around. -/
inductive Field.Prints (field : Field) : List Char → Prop where
  | intro (before gap after : List Char) (htype : IsWord field.type) (hname : IsWord field.name)
      (hbefore : isBlankText before = true) (hgap : isBlankText gap = true) (hne : gap ≠ [])
      (hafter : isBlankText after = true) :
      Prints field
        (before ++ (field.type ++ (field.quantifier.mark ++ (gap ++ field.name)) ++ after))

/-- **Properties are printed** with commas between them. -/
inductive PrintsFields : List Field → List Char → Prop where
  | one {field : Field} {text : List Char} (h : field.Prints text) : PrintsFields [field] text
  | cons {field : Field} {fields : List Field} {text rest : List Char} (h : field.Prints text)
      (hrest : PrintsFields fields rest) : PrintsFields (field :: fields) (text ++ ',' :: rest)

/-- **A declaration is printed** as its kind with the properties between parentheses, before
which there may be blanks. If there are no properties, the parentheses may hold blanks or be
left out. -/
inductive Declaration.Prints : Declaration → List Char → Prop where
  | bare {kind : List Char} (hkind : IsWord kind) : Prints ⟨kind, []⟩ kind
  | blank {kind : List Char} (gap inside : List Char) (hkind : IsWord kind)
      (hgap : isBlankText gap = true) (hinside : isBlankText inside = true) :
      Prints ⟨kind, []⟩ (kind ++ (gap ++ '(' :: (inside ++ [')'])))
  | fields {kind inside : List Char} {fields : List Field} (gap : List Char) (hkind : IsWord kind)
      (hgap : isBlankText gap = true) (hinside : PrintsFields fields inside) :
      Prints ⟨kind, fields⟩ (kind ++ (gap ++ '(' :: (inside ++ [')'])))

/-- **Declarations are printed** with one or more blanks between them. More blanks may stand
before the first and behind the last. -/
inductive Prints : List Declaration → List Char → Prop where
  | nil : Prints [] []
  | blank {ds : List Declaration} {c : Char} {text : List Char} (hc : isBlank c = true)
      (h : Prints ds text) : Prints ds (c :: text)
  | last {d : Declaration} {text : List Char} (h : d.Prints text) : Prints [d] text
  | cons {d : Declaration} {ds : List Declaration} {c : Char} {text rest : List Char}
      (h : d.Prints text) (hc : isBlank c = true) (hrest : Prints ds rest) :
      Prints (d :: ds) (text ++ c :: rest)

/-! ## Reading properties -/

/-- What is no word character, no blank and no mark is no part of a printed property. -/
theorem Field.Prints.not_mem {field : Field} {text : List Char} (h : field.Prints text) {c : Char}
    (hword : isWordChar c = false) (hblank : isBlank c = false) (hmark : c ≠ '?' ∧ c ≠ '*') :
    c ∉ text := by
  obtain ⟨before, gap, after, htype, hname, hbefore, hgap, -, hafter⟩ := h
  have hnotBlank : ∀ {gap}, isBlankText gap = true → c ∉ gap := fun hgap hc =>
    Bool.false_ne_true (hblank.symm.trans (isBlank_of_isBlankText hgap c hc))
  have hnotWord : ∀ {word}, IsWord word → c ∉ word := fun hw hc =>
    Bool.false_ne_true (hword.symm.trans (hw.2 c hc))
  have hnotMark : c ∉ field.quantifier.mark := by
    cases field.quantifier <;> simp [Quantifier.mark, hmark]
  simp only [List.mem_append, not_or]
  exact ⟨hnotBlank hbefore, ⟨hnotWord htype, hnotMark, hnotBlank hgap, hnotWord hname⟩,
    hnotBlank hafter⟩

/-- **A mark is read** if what follows it is a blank. -/
theorem readQuantifier_mark (quantifier : Quantifier) {gap rest : List Char}
    (hgap : isBlankText gap = true) (hne : gap ≠ []) :
    readQuantifier (quantifier.mark ++ (gap ++ rest)) = (quantifier, gap ++ rest) := by
  cases quantifier with
  | optional => rfl
  | many => rfl
  | one =>
    cases gap with
    | nil => exact absurd rfl hne
    | cons c gap =>
      have hblank : isBlank c = true := isBlank_of_isBlankText hgap c List.mem_cons_self
      have hstar : c ≠ '*' := by
        rintro rfl
        exact absurd hblank (by decide)
      have hquestion : c ≠ '?' := by
        rintro rfl
        exact absurd hblank (by decide)
      show readQuantifier (c :: (gap ++ rest)) = _
      unfold readQuantifier
      split
      next heq => exact absurd (List.cons.inj heq).1 hstar
      next heq => exact absurd (List.cons.inj heq).1 hquestion
      next => rfl

/-- Behind a type there is no word character: a mark or a blank. -/
theorem beginsOutside_mark (quantifier : Quantifier) {gap rest : List Char}
    (hgap : isBlankText gap = true) (hne : gap ≠ []) :
    BeginsOutside isWordChar (quantifier.mark ++ (gap ++ rest)) := by
  cases quantifier with
  | optional =>
    rintro _ ⟨⟩
    decide
  | many =>
    rintro _ ⟨⟩
    decide
  | one =>
    show BeginsOutside isWordChar (gap ++ rest)
    exact beginsOutside_isWordChar_of_blank hgap hne

/-- **A printed property is read**, without the blanks at its ends. -/
theorem Field.readField?_eq (field : Field) {gap : List Char} (htype : IsWord field.type)
    (hname : IsWord field.name) (hgap : isBlankText gap = true) (hne : gap ≠ []) :
    readField? (field.type ++ (field.quantifier.mark ++ (gap ++ field.name))) = some field := by
  have hbehind : BeginsOutside isWordChar (field.quantifier.mark ++ (gap ++ field.name)) :=
    beginsOutside_mark field.quantifier hgap hne
  have hnameFirst : BeginsOutside isBlank field.name := by
    simpa using hname.beginsOutside_isBlank []
  have hlength : field.name.length ≠ (gap ++ field.name).length := by
    have hpos : 0 < gap.length := List.length_pos_iff.2 hne
    rw [List.length_append]
    omega
  unfold readField?
  rw [takeWhile_run hbehind htype.2, dropWhile_run hbehind htype.2,
    readQuantifier_mark field.quantifier hgap hne]
  simp only [dropWhile_run hnameFirst (isBlank_of_isBlankText hgap)]
  simp [htype.1, hname.1, List.all_eq_true.2 hname.2, hne]

/-- A piece of a text declares a property. -/
def DeclaresField (piece : List Char) (field : Field) : Prop :=
  strip piece ≠ [] ∧ readField? (strip piece) = some field

/-- **A printed property is read** once the blanks around it are removed. -/
theorem Field.Prints.declaresField {field : Field} {text : List Char} (h : field.Prints text) :
    DeclaresField text field := by
  obtain ⟨before, gap, after, htype, hname, hbefore, hgap, hne, hafter⟩ := h
  set core : List Char := field.type ++ (field.quantifier.mark ++ (gap ++ field.name)) with hcore
  have hnonempty : core ≠ [] := by simp [hcore, htype.1]
  have hfirst : BeginsOutside isBlank core := htype.beginsOutside_isBlank _
  have hlast : BeginsOutside isBlank core.reverse := by
    simp only [hcore, List.reverse_append, List.append_assoc]
    exact hname.reverse.beginsOutside_isBlank _
  rw [DeclaresField, strip_of_blank hbefore hafter hfirst hlast hnonempty]
  exact ⟨hnonempty, field.readField?_eq htype hname hgap hne⟩

/-- A text without commas is one piece. -/
theorem pieces_of_not_mem {text : List Char} (h : ',' ∉ text) : pieces text = [text] := by
  induction text with
  | nil => rfl
  | cons c text ih =>
    obtain ⟨hc, htext⟩ := not_or.1 (List.mem_cons.not.1 h)
    rw [pieces, if_neg (Ne.symm hc), ih htext]

/-- **A comma ends a piece.** -/
theorem pieces_append {text : List Char} (h : ',' ∉ text) (rest : List Char) :
    pieces (text ++ ',' :: rest) = text :: pieces rest := by
  induction text with
  | nil => simp [pieces]
  | cons c text ih =>
    obtain ⟨hc, htext⟩ := not_or.1 (List.mem_cons.not.1 h)
    rw [List.cons_append, pieces, if_neg (Ne.symm hc), ih htext]

/-- There are no properties in a blank text. -/
theorem readFields_blank (kind : List Char) {text : List Char} (h : isBlankText text = true) :
    readFields ⟨kind, text⟩ = .ok [] := by
  have hcomma : ',' ∉ text := fun hmem =>
    absurd (isBlank_of_isBlankText h _ hmem) (by decide)
  simp [readFields, pieces_of_not_mem hcomma, strip_blank h]
  rfl

/-- **One property after the other is read.** -/
theorem readFields_of_pieces (kind : List Char) {text : List Char} {fields : List Field}
    (h : List.Forall₂ DeclaresField (pieces text) fields) :
    readFields ⟨kind, text⟩ = .ok fields := by
  unfold readFields
  show List.mapM _ (((pieces text).map strip).filter _) = _
  generalize pieces text = ps at h
  induction h with
  | nil => rfl
  | cons hpiece _ ih =>
    obtain ⟨hne, hread⟩ := hpiece
    rw [List.map_cons, List.filter_cons_of_pos (by simpa using hne), List.mapM_cons, ih, hread]
    rfl

/-- Printed properties are the pieces of their text. -/
theorem PrintsFields.pieces {fields : List Field} {text : List Char}
    (h : PrintsFields fields text) :
    List.Forall₂ DeclaresField (HashConsing.pieces text) fields := by
  induction h with
  | one h =>
    rw [pieces_of_not_mem (h.not_mem (by decide) (by decide) (by decide))]
    exact .cons h.declaresField .nil
  | cons h _ ih =>
    rw [pieces_append (h.not_mem (by decide) (by decide) (by decide))]
    exact .cons h.declaresField ih

/-- **Printed properties are read.** -/
theorem PrintsFields.readFields {fields : List Field} {text : List Char}
    (h : PrintsFields fields text) (kind : List Char) :
    HashConsing.readFields ⟨kind, text⟩ = .ok fields :=
  readFields_of_pieces kind h.pieces

/-- The closing parenthesis is no part of printed properties. -/
theorem PrintsFields.not_mem {fields : List Field} {text : List Char}
    (h : PrintsFields fields text) : ')' ∉ text := by
  induction h with
  | one h => exact h.not_mem (by decide) (by decide) (by decide)
  | cons h _ ih =>
    simp only [List.mem_append, List.mem_cons, not_or]
    exact ⟨h.not_mem (by decide) (by decide) (by decide), by decide, ih⟩

/-! ## Cutting a text into declarations -/

section Parentheses

variable {gap text inside : List Char} (rest : List Char)

/-- Nothing is taken where the first character that is no blank opens no parenthesis. -/
theorem parenthesized_of_beginsOutside (h : BeginsOutside (· == '(') (text.dropWhile isBlank)) :
    parenthesized text = ([], text) := by
  unfold parenthesized
  split
  next inside heq =>
    rw [heq] at h
    exact absurd (h '(' rfl) (by decide)
  next => rfl

/-- **What stands between parentheses is taken**, the blanks before them left aside. -/
theorem parenthesized_append (hgap : isBlankText gap = true) (hinside : ')' ∉ inside) :
    parenthesized (gap ++ '(' :: (inside ++ ')' :: rest)) = (inside, rest) := by
  have hopen : BeginsOutside isBlank ('(' :: (inside ++ ')' :: rest)) := by
    rintro _ ⟨⟩
    decide
  have hclose : BeginsOutside (· != ')') (')' :: rest) := by
    rintro _ ⟨⟩
    decide
  have hrun : ∀ c ∈ inside, (c != ')') = true := fun c hc =>
    bne_iff_ne.2 fun heq => hinside (heq ▸ hc)
  unfold parenthesized
  rw [dropWhile_run hopen (isBlank_of_isBlankText hgap)]
  simp only [dropWhile_run hclose hrun, takeWhile_run hclose hrun]

end Parentheses

section Constructors

variable {word text rest : List Char} {c : Char}

/-- There is no constructor in an empty text. -/
theorem constructors_nil : constructors [] = [] := by
  unfold constructors
  rfl

/-- What is no word character is passed over before a word. -/
theorem constructors_skip (hc : isWordChar c = false) :
    constructors (c :: text) = constructors text := by
  have hnext : nextWord? (c :: text) = nextWord? text := by
    rw [nextWord?, nextWord?, List.dropWhile_cons_of_pos (by simp [hc])]
  rw [constructors, constructors, hnext]

/-- **A word is the kind of a constructor**, and what stands between the parentheses behind it
is its body. -/
theorem constructors_word (hword : IsWord word) (hrest : BeginsOutside isWordChar rest) :
    constructors (word ++ rest)
      = ⟨word, (parenthesized rest).1⟩ :: constructors (parenthesized rest).2 := by
  have hnext : nextWord? (word ++ rest) = some (word, rest) := by
    obtain ⟨hne, hall⟩ := hword
    have htake := takeWhile_run hrest hall
    have hdrop := dropWhile_run hrest hall
    cases word with
    | nil => exact absurd rfl hne
    | cons d word =>
      have hd : isWordChar d = true := hall d List.mem_cons_self
      rw [List.cons_append] at htake hdrop ⊢
      rw [nextWord?, List.dropWhile_cons_of_neg (by simp [hd])]
      simp only [htake, hdrop]
  rw [constructors, hnext]

end Constructors

/-- A constructor that was cut out is that of a declaration. -/
def Constructor.Declares (c : Constructor) (d : Declaration) : Prop :=
  c.kind = d.kind ∧ readFields c = .ok d.fields

/-- **A printed declaration is cut out** of a text that goes on behind it with what belongs
neither to a word nor to parentheses. -/
theorem Declaration.Prints.constructors {d : Declaration} {text : List Char} (h : d.Prints text)
    {rest : List Char} (hword : BeginsOutside isWordChar rest)
    (hopen : BeginsOutside (· == '(') (rest.dropWhile isBlank)) :
    ∃ c : Constructor, HashConsing.constructors (text ++ rest)
      = c :: HashConsing.constructors rest ∧ c.Declares d := by
  have hbehind : ∀ {gap inside : List Char}, isBlankText gap = true →
      BeginsOutside isWordChar (gap ++ '(' :: inside) := by
    rintro (- | ⟨c, gap⟩) inside hgap
    · rintro _ ⟨⟩
      decide
    · exact beginsOutside_isWordChar_of_blank hgap (List.cons_ne_nil c gap)
  cases h with
  | bare hkind =>
    refine ⟨⟨_, []⟩, ?_, rfl, readFields_blank _ rfl⟩
    rw [constructors_word hkind hword, parenthesized_of_beginsOutside hopen]
  | @blank kind gap inside hkind hgap hinside =>
    have hclose : ')' ∉ inside := fun hmem =>
      absurd (isBlank_of_isBlankText hinside _ hmem) (by decide)
    refine ⟨⟨kind, inside⟩, ?_, rfl, readFields_blank kind hinside⟩
    simp only [List.append_assoc, List.cons_append, List.nil_append]
    rw [constructors_word hkind (hbehind hgap), parenthesized_append rest hgap hclose]
  | @fields kind inside _ gap hkind hgap hinside =>
    refine ⟨⟨kind, inside⟩, ?_, rfl, hinside.readFields kind⟩
    simp only [List.append_assoc, List.cons_append, List.nil_append]
    rw [constructors_word hkind (hbehind hgap), parenthesized_append rest hgap hinside.not_mem]

/-- The kind of a declaration is printed first. -/
theorem Declaration.Prints.exists_word {d : Declaration} {text : List Char} (h : d.Prints text) :
    ∃ rest, IsWord d.kind ∧ text = d.kind ++ rest := by
  cases h with
  | bare hkind => exact ⟨[], hkind, (List.append_nil _).symm⟩
  | blank _ _ hkind => exact ⟨_, hkind, rfl⟩
  | fields _ hkind => exact ⟨_, hkind, rfl⟩

/-- Behind blanks, a text of declarations opens no parenthesis. -/
theorem Prints.beginsOutside {ds : List Declaration} {text : List Char} (h : Prints ds text) :
    BeginsOutside (· == '(') (text.dropWhile isBlank) := by
  have hfirst : ∀ {d : Declaration} {text : List Char}, d.Prints text → ∀ rest,
      BeginsOutside (· == '(') ((text ++ rest).dropWhile isBlank) := by
    intro d text h rest
    obtain ⟨after, hkind, rfl⟩ := h.exists_word
    rw [List.append_assoc, dropWhile_of_beginsOutside (hkind.beginsOutside_isBlank _)]
    obtain ⟨hne, hall⟩ := hkind
    cases hd : d.kind with
    | nil => exact absurd hd hne
    | cons c kind =>
      rintro _ ⟨⟩
      refine beq_false_of_ne ?_
      rintro rfl
      exact absurd (hall '(' (hd ▸ List.mem_cons_self)) (by decide)
  induction h with
  | nil =>
    rintro _ ⟨⟩
  | blank hc _ ih =>
    rw [List.dropWhile_cons_of_pos hc]
    exact ih
  | last h => simpa using hfirst h []
  | cons h hc _ _ => exact hfirst h _

/-- **Printed declarations are the constructors of their text.** -/
theorem Prints.constructors {ds : List Declaration} {text : List Char} (h : Prints ds text) :
    List.Forall₂ Constructor.Declares (HashConsing.constructors text) ds := by
  induction h with
  | nil =>
    rw [constructors_nil]
    exact .nil
  | blank hc _ ih =>
    rw [constructors_skip (isWordChar_of_isBlank hc)]
    exact ih
  | last h =>
    have hword : BeginsOutside isWordChar [] := fun _ => nofun
    have hopen : BeginsOutside (· == '(') (List.dropWhile isBlank []) := fun _ => nofun
    obtain ⟨c, hcut, hdeclares⟩ := h.constructors hword hopen
    rw [List.append_nil] at hcut
    rw [hcut, constructors_nil]
    exact .cons hdeclares .nil
  | @cons d ds c text rest h hc hrest ih =>
    have hword : BeginsOutside isWordChar (c :: rest) := by
      rintro _ ⟨⟩
      exact isWordChar_of_isBlank hc
    have hopen : BeginsOutside (· == '(') ((c :: rest).dropWhile isBlank) :=
      (Prints.blank hc hrest).beginsOutside
    obtain ⟨constructor, hcut, hdeclares⟩ := h.constructors hword hopen
    rw [hcut, constructors_skip (isWordChar_of_isBlank hc)]
    exact .cons hdeclares ih

/-! ## The grammar that is read -/

/-- Declares one kind more. -/
def Grammar.declareNext (g : Grammar) (d : Declaration) : Grammar :=
  g.declare (String.ofList d.kind) (d.fields.map Field.property)

/-- **The grammar of some declarations**, made one after the other. -/
def Grammar.ofDeclarations (ds : List Declaration) : Grammar := ds.foldl Grammar.declareNext []

namespace Grammar

/-- A declaration adds its kind behind the others, if it is not known yet. -/
theorem kinds_declare (g : Grammar) (kind : String) (properties : List Property) :
    (g.declare kind properties).kinds
      = if kind ∈ g.kinds then g.kinds else g.kinds ++ [kind] := by
  unfold declare
  by_cases hknown : kind ∈ g.kinds
  · rw [if_pos (List.contains_iff_mem.2 hknown), if_pos hknown]
    unfold kinds
    rw [List.map_map]
    refine List.map_congr_left fun entry _ => ?_
    by_cases hkind : entry.1 = kind <;> simp [hkind]
  · rw [if_neg fun hcontains => hknown (List.contains_iff_mem.1 hcontains), if_neg hknown]
    simp [kinds]

theorem ofDeclarations_concat (ds : List Declaration) (d : Declaration) :
    ofDeclarations (ds ++ [d]) = (ofDeclarations ds).declareNext d := by
  simp [ofDeclarations]

/-- **The kinds stand in the order of their first declarations.** -/
theorem kinds_ofDeclarations (ds : List Declaration) :
    (ofDeclarations ds).kinds = (ds.map fun d => String.ofList d.kind).eraseDups := by
  induction ds using List.reverseRecOn with
  | nil => rfl
  | append_singleton ds d ih =>
    rw [ofDeclarations_concat, declareNext, kinds_declare, ih, List.map_append,
      List.eraseDups_append]
    generalize ds.map (fun d => String.ofList d.kind) = kinds
    by_cases hknown : String.ofList d.kind ∈ kinds
    · simp [List.removeAll, hknown]
    · simp [List.removeAll, hknown, List.eraseDups_cons]

/-- **A kind has the properties of its last declaration.** -/
theorem properties?_ofDeclarations (before : List Declaration) (d : Declaration)
    {after : List Declaration} (hlast : ∀ e ∈ after, e.kind ≠ d.kind) :
    (ofDeclarations (before ++ d :: after)).properties? (String.ofList d.kind)
      = some (d.fields.map Field.property) := by
  induction after using List.reverseRecOn with
  | nil =>
    rw [ofDeclarations_concat]
    exact properties?_declare_self _ _
  | append_singleton after e ih =>
    have hkind : String.ofList d.kind ≠ String.ofList e.kind := fun heq =>
      hlast e (by simp) (String.ofList_injective heq).symm
    rw [← List.cons_append, ← List.append_assoc, ofDeclarations_concat, declareNext,
      properties?_declare_of_ne _ _ hkind]
    exact ih fun e' he' => hlast e' (List.mem_append_left _ he')

end Grammar

/-- Constructors of declarations make the grammar of the declarations. -/
theorem foldlM_declareConstructor {cs : List Constructor} {ds : List Declaration}
    (h : List.Forall₂ Constructor.Declares cs ds) (g : Grammar) :
    cs.foldlM declareConstructor g = .ok (ds.foldl Grammar.declareNext g) := by
  induction h generalizing g with
  | nil => rfl
  | @cons c d cs ds hdeclares _ ih =>
    obtain ⟨hkind, hfields⟩ := hdeclares
    have hstep : declareConstructor g c = .ok (g.declareNext d) := by
      rw [declareConstructor, hfields, hkind]
      rfl
    rw [List.foldlM_cons, hstep]
    exact ih _

/-- **Reading a printed grammar gives back what was declared.** However declarations were
printed, the kinds stand in the order in which they occur first, and each kind has the
properties of its last declaration, in order: raw data where the type is one of raw data,
and otherwise a list of children or one child, as the mark says. -/
theorem readGrammar_printed {ds : List Declaration} {text : List Char} (h : Prints ds text) :
    ∃ g : Grammar, readGrammar (String.ofList text) = .ok g
      ∧ g.kinds = (ds.map fun d => String.ofList d.kind).eraseDups
      ∧ ∀ before d after, ds = before ++ d :: after → (∀ e ∈ after, e.kind ≠ d.kind) →
        g.properties? (String.ofList d.kind) = some (d.fields.map fun field =>
          ⟨String.ofList field.name,
            if String.ofList field.type ∈ ["identifier", "string", "int", "constant"] then .leaf
            else if field.quantifier = .many then .childList
            else .child⟩) := by
  refine ⟨Grammar.ofDeclarations ds, ?_, Grammar.kinds_ofDeclarations ds, ?_⟩
  · rw [readGrammar, String.toList_ofList]
    exact foldlM_declareConstructor h.constructors []
  · rintro before d after rfl hlast
    rw [Grammar.properties?_ofDeclarations before d hlast]
    refine congrArg some (List.map_congr_left fun field _ => ?_)
    rw [Field.property, Field.kind, dataTypes]
    simp only [List.contains_iff_mem]
    cases field.quantifier <;> rfl

/-- Five declarations, printed with and without parentheses, with blanks and line breaks, the
last of them in place of the first. -/
theorem readGrammar_printed_redeclared :
    ∃ g : Grammar, readGrammar "A ( x? p )\nB( int* k,\n y*  ls) \tC ()  D A(z q)\n" = .ok g
      ∧ g.kinds = ["A", "B", "C", "D"]
      ∧ g.properties? "A" = some [⟨"q", .child⟩]
      ∧ g.properties? "B" = some [⟨"k", .leaf⟩, ⟨"ls", .childList⟩]
      ∧ g.properties? "C" = some [] := by
  have hp : Field.Prints ⟨['x'], .optional, ['p']⟩ [' ', 'x', '?', ' ', 'p', ' '] :=
    .intro [' '] [' '] [' '] (by decide) (by decide) rfl rfl nofun rfl
  have hk : Field.Prints ⟨['i', 'n', 't'], .many, ['k']⟩ [' ', 'i', 'n', 't', '*', ' ', 'k'] :=
    .intro [' '] [' '] [] (by decide) (by decide) rfl rfl nofun rfl
  have hls : Field.Prints ⟨['y'], .many, ['l', 's']⟩ ['\n', ' ', 'y', '*', ' ', ' ', 'l', 's'] :=
    .intro ['\n', ' '] [' ', ' '] [] (by decide) (by decide) rfl rfl nofun rfl
  have hq : Field.Prints ⟨['z'], .one, ['q']⟩ ['z', ' ', 'q'] :=
    .intro [] [' '] [] (by decide) (by decide) rfl rfl nofun rfl
  have hA : Declaration.Prints ⟨['A'], _⟩ _ := .fields [' '] (by decide) rfl (.one hp)
  have hB : Declaration.Prints ⟨['B'], _⟩ _ := .fields [] (by decide) rfl (.cons hk (.one hls))
  have hC : Declaration.Prints ⟨['C'], []⟩ _ := .blank [' '] [] (by decide) rfl rfl
  have hD : Declaration.Prints ⟨['D'], []⟩ _ := .bare (by decide)
  have hA' : Declaration.Prints ⟨['A'], _⟩ _ := .fields [] (by decide) rfl (.one hq)
  have hall := Prints.cons hA (c := '\n') (by decide) <| .cons hB (c := ' ') (by decide) <|
    .blank (c := '\t') (by decide) <| .cons hC (c := ' ') (by decide) <|
    .blank (c := ' ') (by decide) <| .cons hD (c := ' ') (by decide) <|
    .cons hA' (c := '\n') (by decide) .nil
  obtain ⟨g, hread, hkinds, hproperties⟩ := readGrammar_printed hall
  refine ⟨g, hread, hkinds.trans (by decide), ?_, ?_, ?_⟩
  · exact hproperties (_ :: _ :: _ :: _ :: []) _ [] rfl (by decide)
  · exact hproperties (_ :: []) _ (_ :: _ :: _ :: []) rfl (by decide)
  · exact hproperties (_ :: _ :: []) _ (_ :: _ :: []) rfl (by decide)

end HashConsing
