import HashConsing.Text.Unprintable

/-!
# Quotations

A quotation shows a text unambiguously inside another one: it stands between
quotation marks, and what could be mistaken or not be seen is escaped. Single
marks are used unless the text holds a single mark and no double one.

Texts and byte strings are quoted by the same rules, except that a byte has no
printable form outside the visible part of the first 128 code points.

A quotation can be read back, wherever it stands in a text: it ends at the first
mark that is not part of an escape, and each escape stands for one character
(`readQuoted?`). So quotations tell texts apart, and they also tell where they
end (`quote_append_inj`).
-/

namespace HashConsing.Text

/-- The single quotation mark. -/
def singleMark : Char := '\x27'

/-- The double quotation mark. -/
def doubleMark : Char := '\x22'

/-- **The mark that encloses a quotation**: the double one only where that
spares escaping single ones. -/
def enclosingMark (text : List Char) : Char :=
  if text.contains singleMark && !text.contains doubleMark then doubleMark
  else singleMark

/-- A number in hexadecimal digits, filled up with zeros to a width. -/
def hexadecimal (width n : Nat) : List Char :=
  let digits := Nat.toDigits 16 n
  List.replicate (width - digits.length) '0' ++ digits

/-- The escapes that have a letter of their own. -/
def letterEscape? (c : Char) : Option Char :=
  if c = '\n' then some 'n'
  else if c = '\r' then some 'r'
  else if c = '\t' then some 't'
  else none

/-- The code point of a character in hexadecimal digits, behind a letter that says
how many there are: the fewest of two, four or eight that hold it. -/
def codeEscape (c : Char) : List Char :=
  if c.toNat < 0x100 then 'x' :: hexadecimal 2 c.toNat
  else if c.toNat < 0x10000 then 'u' :: hexadecimal 4 c.toNat
  else 'U' :: hexadecimal 8 c.toNat

/-- **One character of a quotation.** The enclosing mark and the backslash are
preceded by a backslash; what is hidden is written as an escape. -/
def quoteChar (mark : Char) (hidden : Char → Bool) (c : Char) : List Char :=
  if c = mark || c = '\\' then ['\\', c]
  else match letterEscape? c with
  | some letter => ['\\', letter]
  | none => if hidden c then '\\' :: codeEscape c else [c]

/-- A text between its marks, with what is hidden escaped. -/
def enclose (hidden : Char → Bool) (text : List Char) : List Char :=
  let mark := enclosingMark text
  mark :: text.flatMap (quoteChar mark hidden) ++ [mark]

/-- **A quoted text.** Unprintable characters are escaped. -/
def quote (text : String) : String :=
  String.ofList (enclose isUnprintable text.toList)

/-- **A quoted byte string**, marked by a leading letter. Bytes are shown as
characters where these are visible. -/
def quoteBytes (bytes : List UInt8) : String :=
  let chars := bytes.map fun b => Char.ofNat b.toNat
  String.ofList ('b' :: enclose (fun c => c.toNat < 0x20 || 0x7e < c.toNat) chars)

/-! ## Reading a quotation back -/

/-- The value of a hexadecimal digit. -/
def hexadecimalValue (c : Char) : Nat :=
  if c.toNat < 0x3a then c.toNat - 0x30 else c.toNat - 0x57

/-- The number that a sequence of hexadecimal digits denotes. -/
def ofHexadecimal (digits : List Char) : Nat :=
  digits.foldl (fun n c => 16 * n + hexadecimalValue c) 0

/-- The character whose code point stands at the beginning of a text, and the
rest of the text. -/
def readCode (width : Nat) (text : List Char) : Char × List Char :=
  (Char.ofNat (ofHexadecimal (text.take width)), text.drop width)

/-- **Reads what stands behind a backslash.** -/
def readEscape? : List Char → Option (Char × List Char)
  | 'n' :: rest => some ('\n', rest)
  | 'r' :: rest => some ('\r', rest)
  | 't' :: rest => some ('\t', rest)
  | 'x' :: rest => some (readCode 2 rest)
  | 'u' :: rest => some (readCode 4 rest)
  | 'U' :: rest => some (readCode 8 rest)
  | c :: rest => some (c, rest)
  | [] => none

/-- **Reads one character of a quotation.** The closing mark is none. -/
def readQuoted? (mark : Char) : List Char → Option (Char × List Char)
  | [] => none
  | c :: rest =>
    if c = mark then none
    else if c = '\\' then readEscape? rest
    else some (c, rest)

theorem hexadecimalValue_digitChar {n : Nat} (h : n < 16) :
    hexadecimalValue n.digitChar = n := by
  revert n
  decide

theorem ofHexadecimal_replicate_append (k : Nat) (digits : List Char) :
    ofHexadecimal (List.replicate k '0' ++ digits) = ofHexadecimal digits := by
  induction k with
  | zero => rfl
  | succ k ih => exact ih

theorem ofHexadecimal_toDigits (n : Nat) : ofHexadecimal (Nat.toDigits 16 n) = n := by
  induction n using Nat.strongRecOn with
  | ind n ih =>
    by_cases hn : n < 16
    · rw [Nat.toDigits_of_lt_base hn]
      exact (Nat.zero_add _).trans (hexadecimalValue_digitChar hn)
    · have hlast : hexadecimalValue (n % 16).digitChar = n % 16 :=
        hexadecimalValue_digitChar (Nat.mod_lt n (by decide))
      have hinit : ofHexadecimal (Nat.toDigits 16 (n / 16)) = n / 16 := ih (n / 16) (by omega)
      rw [Nat.toDigits_of_base_le (by decide) (Nat.le_of_not_lt hn), ofHexadecimal,
        List.foldl_append]
      change 16 * ofHexadecimal (Nat.toDigits 16 (n / 16)) + _ = n
      rw [hinit, hlast]
      exact Nat.div_add_mod n 16

theorem ofHexadecimal_hexadecimal (width n : Nat) :
    ofHexadecimal (hexadecimal width n) = n :=
  (ofHexadecimal_replicate_append _ _).trans (ofHexadecimal_toDigits n)

/-- A number below the power that belongs to a width has that many digits. -/
theorem length_hexadecimal {width n : Nat} (hw : 0 < width) (h : n < Nat.pow 16 width) :
    (hexadecimal width n).length = width := by
  have hle : (Nat.toDigits 16 n).length ≤ width :=
    (Nat.length_toDigits_le_iff (by decide) hw).2 h
  rw [hexadecimal, List.length_append, List.length_replicate]
  exact Nat.sub_add_cancel hle

theorem readCode_hexadecimal {width : Nat} (c : Char) (rest : List Char) (hw : 0 < width)
    (h : c.toNat < Nat.pow 16 width) :
    readCode width (hexadecimal width c.toNat ++ rest) = (c, rest) := by
  have hlength := length_hexadecimal hw h
  rw [readCode, List.take_left' hlength, List.drop_left' hlength, ofHexadecimal_hexadecimal,
    Char.ofNat_toNat]

theorem enclosingMark_eq (text : List Char) :
    enclosingMark text = singleMark ∨ enclosingMark text = doubleMark := by
  unfold enclosingMark
  split
  · exact .inr rfl
  · exact .inl rfl

/-- Behind a backslash stands an escape. -/
theorem readQuoted?_backslash (text rest : List Char) :
    readQuoted? (enclosingMark text) ('\\' :: rest) = readEscape? rest := by
  rcases enclosingMark_eq text with h | h <;> rw [h] <;> rfl

/-- An escaped mark reads as itself. -/
theorem readEscape?_mark (text rest : List Char) :
    readEscape? (enclosingMark text :: rest) = some (enclosingMark text, rest) := by
  rcases enclosingMark_eq text with h | h <;> rw [h] <;> rfl

theorem letterEscape?_eq_some {c letter : Char} (h : letterEscape? c = some letter) :
    (c = '\n' ∧ letter = 'n') ∨ (c = '\r' ∧ letter = 'r') ∨ (c = '\t' ∧ letter = 't') := by
  unfold letterEscape? at h
  repeat' split at h
  all_goals cases h
  · exact .inl ⟨‹_›, rfl⟩
  · exact .inr (.inl ⟨‹_›, rfl⟩)
  · exact .inr (.inr ⟨‹_›, rfl⟩)

/-- The letter of an escape reads as the character that is escaped. -/
theorem readEscape?_letter {c letter : Char} (h : letterEscape? c = some letter)
    (rest : List Char) : readEscape? (letter :: rest) = some (c, rest) := by
  rcases letterEscape?_eq_some h with ⟨rfl, rfl⟩ | ⟨rfl, rfl⟩ | ⟨rfl, rfl⟩ <;> rfl

/-- Eight digits hold every code point. -/
theorem toNat_lt (c : Char) : c.toNat < Nat.pow 16 8 := by
  have hvalid : c.val.toNat < 0x110000 := by
    rcases c.valid with h | h
    · exact Nat.lt_trans h (by decide)
    · exact h.2
  exact Nat.lt_trans hvalid (by decide)

/-- A code point that is escaped reads as its character. -/
theorem readEscape?_code (c : Char) (rest : List Char) :
    readEscape? (codeEscape c ++ rest) = some (c, rest) := by
  unfold codeEscape
  split
  next h => exact congrArg some (readCode_hexadecimal c rest (by decide) h)
  next =>
    split
    next h => exact congrArg some (readCode_hexadecimal c rest (by decide) h)
    next => exact congrArg some (readCode_hexadecimal c rest (by decide) (toNat_lt c))

/-- **What is written for a character reads as the character.** -/
theorem readQuoted?_quoteChar (text : List Char) (hidden : Char → Bool) (c : Char)
    (rest : List Char) :
    readQuoted? (enclosingMark text) (quoteChar (enclosingMark text) hidden c ++ rest)
      = some (c, rest) := by
  unfold quoteChar
  split
  next hself =>
    refine (readQuoted?_backslash text _).trans ?_
    rcases Bool.or_eq_true_iff.1 hself with h | h
    · rw [of_decide_eq_true h]
      exact readEscape?_mark text rest
    · rw [of_decide_eq_true h]
      rfl
  next hself =>
    split
    next letter hletter =>
      exact (readQuoted?_backslash text _).trans (readEscape?_letter hletter rest)
    next =>
      split
      next => exact (readQuoted?_backslash text _).trans (readEscape?_code c rest)
      next =>
        obtain ⟨hmark, hescape⟩ : c ≠ enclosingMark text ∧ c ≠ '\\' := by simpa using hself
        rw [List.singleton_append, readQuoted?, if_neg hmark, if_neg hescape]

/-- **What stands up to the closing mark** tells the text and where it ends. -/
theorem quoted_append_inj (text : List Char) (hidden : Char → Bool) :
    ∀ {s t as bs : List Char},
      s.flatMap (quoteChar (enclosingMark text) hidden) ++ enclosingMark text :: as
        = t.flatMap (quoteChar (enclosingMark text) hidden) ++ enclosingMark text :: bs →
      s = t ∧ as = bs := by
  have hread := readQuoted?_quoteChar text hidden
  have hmark : ∀ rest, readQuoted? (enclosingMark text) (enclosingMark text :: rest) = none :=
    fun rest => if_pos rfl
  intro s
  induction s with
  | nil =>
    intro t as bs h
    cases t with
    | nil => exact ⟨rfl, List.tail_eq_of_cons_eq h⟩
    | cons d t =>
      rw [List.flatMap_cons, List.append_assoc] at h
      have := (hmark as).symm.trans ((congrArg _ h).trans (hread d _))
      cases this
  | cons c s ih =>
    intro t as bs h
    rw [List.flatMap_cons, List.append_assoc] at h
    cases t with
    | nil =>
      have := (hread c _).symm.trans ((congrArg _ h).trans (hmark bs))
      cases this
    | cons d t =>
      rw [List.flatMap_cons, List.append_assoc] at h
      have := (hread c _).symm.trans ((congrArg _ h).trans (hread d _))
      obtain ⟨rfl, hrest⟩ := Prod.mk.inj (Option.some.inj this)
      obtain ⟨rfl, rfl⟩ := ih hrest
      exact ⟨rfl, rfl⟩

theorem enclose_append_inj {hidden : Char → Bool} {s t as bs : List Char}
    (h : enclose hidden s ++ as = enclose hidden t ++ bs) : s = t ∧ as = bs := by
  simp only [enclose, List.cons_append, List.append_assoc, List.nil_append] at h
  have hmark : enclosingMark s = enclosingMark t := List.head_eq_of_cons_eq h
  have hrest := List.tail_eq_of_cons_eq h
  rw [← hmark] at hrest
  exact quoted_append_inj s hidden hrest

/-- **A quotation tells its text and where it ends**, whatever follows it. -/
theorem quote_append_inj {s t as bs : String} (h : quote s ++ as = quote t ++ bs) :
    s = t ∧ as = bs := by
  have hchars := congrArg String.toList h
  simp only [quote, String.toList_append, String.toList_ofList] at hchars
  obtain ⟨hs, has⟩ := enclose_append_inj hchars
  exact ⟨String.toList_inj.1 hs, String.toList_inj.1 has⟩

/-- **Quotations tell texts apart.** -/
theorem quote_injective {s t : String} (h : quote s = quote t) : s = t :=
  (quote_append_inj (congrArg (· ++ "") h)).1

/-- **Quotations tell byte strings apart.** -/
theorem quoteBytes_injective {a b : List UInt8} (h : quoteBytes a = quoteBytes b) : a = b := by
  have hchars := List.tail_eq_of_cons_eq (String.ofList_injective h)
  have hbytes := (enclose_append_inj (congrArg (· ++ []) hchars)).1
  refine (List.map_inj_right fun x y hxy => UInt8.toNat_inj.1 ?_).1 hbytes
  have hchar : ∀ z : UInt8, (Char.ofNat z.toNat).toNat = z.toNat := fun z => by
    rw [Char.ofNat, dif_pos (.inl (Nat.lt_trans z.toNat_lt (by decide)))]
    rfl
  rw [← hchar x, ← hchar y, hxy]

/-! ## What a quotation shows -/

theorem exists_digit_of_mem_toDigits {n : Nat} {c : Char} (h : c ∈ Nat.toDigits 16 n) :
    ∃ d < 16, c = Nat.digitChar d := by
  induction n using Nat.strongRecOn with
  | ind n ih =>
    by_cases hn : n < 16
    · rw [Nat.toDigits_of_lt_base hn, List.mem_singleton] at h
      exact ⟨n, hn, h⟩
    · rw [Nat.toDigits_of_base_le (by decide) (Nat.le_of_not_lt hn), List.mem_append,
        List.mem_singleton] at h
      rcases h with h | h
      · exact ih (n / 16) (by omega) h
      · exact ⟨n % 16, Nat.mod_lt n (by decide), h⟩

theorem isUnprintable_hexadecimal {width n : Nat} {c : Char} (h : c ∈ hexadecimal width n) :
    isUnprintable c = false := by
  have hdigit : ∀ d < 16, isUnprintable (Nat.digitChar d) = false := by decide
  rcases List.mem_append.1 h with h | h
  · rw [List.eq_of_mem_replicate h]
    rfl
  · obtain ⟨d, hd, rfl⟩ := exists_digit_of_mem_toDigits h
    exact hdigit d hd

theorem isUnprintable_codeEscape {c d : Char} (h : d ∈ codeEscape c) :
    isUnprintable d = false := by
  unfold codeEscape at h
  split at h
  · rcases List.mem_cons.1 h with rfl | h
    · rfl
    · exact isUnprintable_hexadecimal h
  · split at h <;> rcases List.mem_cons.1 h with rfl | h
    · rfl
    · exact isUnprintable_hexadecimal h
    · rfl
    · exact isUnprintable_hexadecimal h

theorem isUnprintable_letterEscape {c letter : Char} (h : letterEscape? c = some letter) :
    isUnprintable letter = false := by
  rcases letterEscape?_eq_some h with ⟨-, rfl⟩ | ⟨-, rfl⟩ | ⟨-, rfl⟩ <;> rfl

theorem isUnprintable_enclosingMark (text : List Char) :
    isUnprintable (enclosingMark text) = false := by
  rcases enclosingMark_eq text with h | h <;> rw [h] <;> rfl

/-- **Everything in a quotation can be seen.** -/
theorem isUnprintable_quote {s : String} {c : Char} (h : c ∈ (quote s).toList) :
    isUnprintable c = false := by
  have hmark := isUnprintable_enclosingMark s.toList
  rw [quote, String.toList_ofList, enclose, List.mem_append, List.mem_cons,
    List.mem_singleton, List.mem_flatMap] at h
  rcases h with (rfl | ⟨d, -, h⟩) | rfl
  · exact hmark
  · unfold quoteChar at h
    split at h
    next hself =>
      rcases List.mem_cons.1 h with rfl | h
      · rfl
      · rw [List.mem_singleton.1 h]
        rcases Bool.or_eq_true_iff.1 hself with hd | hd
        · exact of_decide_eq_true hd ▸ hmark
        · exact of_decide_eq_true hd ▸ rfl
    next =>
      split at h
      next letter hletter =>
        rcases List.mem_cons.1 h with rfl | h
        · rfl
        · exact List.mem_singleton.1 h ▸ isUnprintable_letterEscape hletter
      next =>
        split at h
        next =>
          rcases List.mem_cons.1 h with rfl | h
          · rfl
          · exact isUnprintable_codeEscape h
        next hhidden =>
          rw [List.mem_singleton.1 h]
          exact Bool.eq_false_iff.2 hhidden
  · exact hmark

end HashConsing.Text
