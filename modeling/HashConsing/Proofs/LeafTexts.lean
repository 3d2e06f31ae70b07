import HashConsing.LeafKey
import HashConsing.Value.Text

/-!
# Texts of leaves

The tables keep the first value that had a key, so what a leaf shows must not depend on
which of several values with a key came first. For plain values it does not: their text
can be read off the key (`LeafKey.leafText?`). Encodings of *not a number* share a key, but
they also share a text; everything else that has a text is in the key as it is.

It is otherwise inside other values for words, whose key says nothing of how they are shown there,
and for frozen sets, which show their members in an order that the key does not keep.
-/

namespace HashConsing

/-! ## Numbers -/

namespace Double

variable (x : Double)

theorem isNaN_canonical : x.canonical.isNaN = x.isNaN := by
  unfold canonical
  split
  next hnan =>
    rw [hnan]
    decide
  next => rfl

/-- The sign of a number is that of its representative. -/
theorem hasMinus_canonical : x.canonical.hasMinus = x.hasMinus := by
  cases hnan : x.isNaN with
  | true => simp only [hasMinus, isNaN_canonical, hnan, Bool.not_true, Bool.and_false]
  | false => rw [canonical_of_not_isNaN hnan]

/-- The text of a number without its sign is that of its representative. -/
theorem unsignedText_canonical (keepPoint : Bool) :
    x.canonical.unsignedText keepPoint = x.unsignedText keepPoint := by
  cases hnan : x.isNaN with
  | true => simp only [unsignedText, isNaN_canonical, hnan, if_true]
  | false => rw [canonical_of_not_isNaN hnan]

/-- Positive zero is no other number's representative. -/
theorem bits_canonical_eq_zero_iff : x.canonical.bits = 0 ↔ x.bits = 0 := by
  cases hnan : x.isNaN with
  | true =>
    unfold canonical
    rw [if_pos hnan]
    refine iff_of_false (by decide) fun hzero => ?_
    rw [show x = ⟨0⟩ from Double.ext hzero] at hnan
    revert hnan
    decide
  | false => rw [canonical_of_not_isNaN hnan]

/-- **A number is written as its representative.** -/
theorem text_canonical : x.canonical.text = x.text := by
  unfold text
  rw [hasMinus_canonical, unsignedText_canonical]

/-- **A complex number is written as its representative.** -/
theorem complexText_canonical (re im : Double) :
    complexText re.canonical im.canonical = complexText re im := by
  unfold complexText
  simp only [hasMinus_canonical, unsignedText_canonical, bits_canonical_eq_zero_iff]

end Double

/-! ## Texts of keys -/

namespace LeafKey

mutual

/-- **The quoted text of whatever has a key**, or the failure to write it, where the key
determines it. -/
def quoted? : LeafKey → Option (Except Failure String)
  | atom .null => some (.ok "None")
  | atom .ellipsis => some (.ok "Ellipsis")
  | atom (.bool b) => some (.ok (if b then "True" else "False"))
  | atom (.int n) => some (Text.writeInteger n)
  | atom (.word _ _) => none
  | atom (.float x) => some (.ok x.text)
  | atom (.complex re im) => some (.ok (Double.complexText re im))
  | atom (.text s) => some (.ok (Text.quote s))
  | atom (.bytes data) => some (.ok (Text.quoteBytes data))
  | atom (.node _ shown) => some (shown.elim (.error .integerTooLong) .ok)
  | tuple items => (quotedEach? items).map (·.map Value.tupleText)
  | set _ => none

/-- The quoted texts of whatever has some keys. -/
def quotedEach? : List LeafKey → Option (Except Failure (List String))
  | [] => some (.ok [])
  | key :: rest => do
    let text ← quoted? key
    let texts ← quotedEach? rest
    return do return (← text) :: (← texts)

end

/-- **The text of a leaf with a key**, where the key determines it. -/
def leafText? : LeafKey → Option (Except Failure String)
  | atom .null => some (.ok "<null>")
  | atom (.word _ value) => some (.ok (toString value))
  | atom (.text s) => some (.ok s)
  | key => key.quoted?

theorem quotedEach?_cons_eq_some {key : LeafKey} {keys : List LeafKey}
    {shown : Except Failure (List String)} :
    quotedEach? (key :: keys) = some shown ↔ ∃ text texts, key.quoted? = some text
      ∧ quotedEach? keys = some texts ∧ (do return (← text) :: (← texts)) = shown := by
  simp only [quotedEach?, Option.bind_eq_bind, Option.bind_eq_some_iff, Option.pure_def,
    Option.some.injEq, exists_and_left]

end LeafKey

namespace Value

mutual

/-- **The quoted text of a value is that of its key.** -/
theorem quoted_of_leafKey : ∀ {v : Value} {key : LeafKey} {shown : Except Failure String},
    v.leafKey = .ok key → key.quoted? = some shown → v.quoted = shown
  | .null, _, _, hkey, hshown | .ellipsis, _, _, hkey, hshown | .bool _, _, _, hkey, hshown
  | .int _, _, _, hkey, hshown | .text _, _, _, hkey, hshown
  | .bytes _, _, _, hkey, hshown => by
    cases hkey
    exact Option.some.inj hshown
  | .float x, _, _, hkey, hshown => by
    cases hkey
    rw [← Option.some.inj hshown, x.text_canonical]
    rfl
  | .complex re im, _, _, hkey, hshown => by
    cases hkey
    rw [← Option.some.inj hshown, Double.complexText_canonical re im]
    rfl
  | .tuple items, _, _, hkey, hshown => by
    obtain ⟨keys, hkeys, hpure⟩ := Failure.exists_of_bind_eq_ok hkey
    cases hpure
    obtain ⟨texts, htexts, rfl⟩ := Option.map_eq_some_iff.1 hshown
    rw [quoted, quotedEach_of_leafKeys hkeys htexts]
    rfl
  | .frozenset members, _, _, hkey, hshown => by
    obtain ⟨keys, hkeys, hpure⟩ := Failure.exists_of_bind_eq_ok hkey
    cases hpure
    cases hshown
  | .word _, _, _, hkey, hshown => by
    cases hkey
    cases hshown
  | .node head _, _, _, hkey, hshown => by
    cases hkey
    rw [quoted, ← Option.some.inj hshown]
    cases head.text <;> rfl

/-- The quoted texts of some values are those of their keys. -/
theorem quotedEach_of_leafKeys : ∀ {vs : List Value} {keys : List LeafKey}
    {shown : Except Failure (List String)}, leafKeys vs = .ok keys →
    LeafKey.quotedEach? keys = some shown → quotedEach vs = shown
  | [], _, _, hkeys, hshown => by
    cases hkeys
    exact Option.some.inj hshown
  | v :: vs, keys, shown, hkeys, hshown => by
    obtain ⟨key, hkey, htail⟩ := Failure.exists_of_bind_eq_ok hkeys
    obtain ⟨rest, hrest, hpure⟩ := Failure.exists_of_bind_eq_ok htail
    cases hpure
    obtain ⟨text, texts, htext, htexts, rfl⟩ := LeafKey.quotedEach?_cons_eq_some.1 hshown
    rw [quotedEach, quoted_of_leafKey hkey htext, quotedEach_of_leafKeys hrest htexts]

end

/-- **The text of a leaf is that of its key.** -/
theorem leafText_of_leafKey {v : Value} {key : LeafKey} {shown : Except Failure String}
    (hkey : v.leafKey = .ok key) (hshown : key.leafText? = some shown) : v.leafText = shown := by
  cases v with
  | null | word _ | text _ =>
    cases hkey
    exact Option.some.inj hshown
  | tuple _ | frozenset _ =>
    obtain ⟨keys, hkeys, hpure⟩ := Failure.exists_of_bind_eq_ok hkey
    cases hpure
    exact quoted_of_leafKey hkey hshown
  | list _ | set _ | dict _ => cases hkey
  | _ =>
    have hquoted := quoted_of_leafKey hkey (by cases hkey; exact hshown)
    exact hquoted

/-! ## Plain values -/

/-- **Plain values**, without words, nodes and sets. Their text is determined by their key. -/
inductive Plain : Value → Prop where
  | null : Plain null
  | ellipsis : Plain ellipsis
  | bool (b : Bool) : Plain (bool b)
  | int (n : Int) : Plain (int n)
  | float (x : Double) : Plain (float x)
  | complex (re im : Double) : Plain (complex re im)
  | text (s : String) : Plain (text s)
  | bytes (data : List UInt8) : Plain (bytes data)
  | tuple {items : List Value} (each : ∀ v ∈ items, Plain v) : Plain (tuple items)

/-- A value whose key is an atom is plain, unless it is a node or a word. -/
theorem plain_of_leafKey_atom {v : Value} {a : Atom} (h : v.leafKey = .ok (.atom a))
    (hword : ∀ type n, a ≠ .word type n) (hnode : ∀ ref shown, a ≠ .node ref shown) :
    v.Plain := by
  cases v with
  | null => exact .null
  | ellipsis => exact .ellipsis
  | bool b => exact .bool b
  | int n => exact .int n
  | float x => exact .float x
  | complex re im => exact .complex re im
  | text s => exact .text s
  | bytes data => exact .bytes data
  | word w =>
    cases h
    exact absurd rfl (hword w.type w.value)
  | node head _ =>
    cases h
    exact absurd rfl (hnode head.ref head.text)
  | tuple _ | frozenset _ =>
    obtain ⟨keys, -, hpure⟩ := Failure.exists_of_bind_eq_ok h
    cases hpure
  | list _ | set _ | dict _ => cases h

/-- The keys of some values determine their texts if those of single ones do. -/
theorem exists_quotedEach? {items : List Value}
    (h : ∀ v ∈ items, ∃ key shown, v.leafKey = .ok key ∧ key.quoted? = some shown) :
    ∃ keys shown, leafKeys items = .ok keys ∧ LeafKey.quotedEach? keys = some shown := by
  induction items with
  | nil => exact ⟨[], _, rfl, rfl⟩
  | cons v items ih =>
    rw [List.forall_mem_cons] at h
    obtain ⟨key, text, hkey, htext⟩ := h.1
    obtain ⟨keys, texts, hkeys, htexts⟩ := ih h.2
    refine ⟨key :: keys, _, ?_,
      LeafKey.quotedEach?_cons_eq_some.2 ⟨text, texts, htext, htexts, rfl⟩⟩
    rw [leafKeys, hkey, hkeys]
    rfl

/-- **The key of a plain value determines its quoted text.** -/
theorem Plain.exists_quoted? {v : Value} (h : v.Plain) :
    ∃ key shown, v.leafKey = .ok key ∧ key.quoted? = some shown := by
  induction h with
  | tuple _ ih =>
    obtain ⟨keys, texts, hkeys, htexts⟩ := exists_quotedEach? ih
    refine ⟨.tuple keys, _, ?_, congrArg (Option.map _) htexts⟩
    rw [leafKey, hkeys]
    rfl
  | _ => exact ⟨_, _, rfl, rfl⟩

/-- **Values with the same key show the same text** if one of them is plain. -/
theorem Plain.leafText_eq {v w : Value} (h : v.Plain) (hkey : v.leafKey = w.leafKey) :
    v.leafText = w.leafText := by
  obtain ⟨key, shown, hv, hshown⟩ := h.exists_quoted?
  obtain ⟨text, htext⟩ : ∃ text, key.leafText? = some text := by
    unfold LeafKey.leafText?
    split
    all_goals exact ⟨_, by first | rfl | exact hshown⟩
  rw [leafText_of_leafKey hv htext, leafText_of_leafKey (hkey ▸ hv) htext]

end Value

end HashConsing
