import HashConsing.LeafKey
import HashConsing.Value.Agreement
import Mathlib.Data.List.Forall2
import Mathlib.Data.List.Sort

/-!
# Which leaves are the same

Keys tell leaf values apart, and they do so more finely than agreement: the integer one,
the number one and the truth value have three keys. `Value.Identified` says what the
difference between two values may be without their keys differing, and it says so of the
values alone: same type and agreement for values without parts, except that numbers go by
their encodings; item by item for tuples; for frozen sets, each member of either is
identified with one of the other.

A set drops members that agree, its key drops members that are identified. These are not
the same members, so the keys of two sets can coincide although one has more members than
the other. Equality of sets is therefore proved through what their keys hold
(`LeafKey.setOf_eq_setOf_iff`) and never by matching members one to one.

A value has no key if it can be changed, or if it is a tuple or a frozen set that holds such
a value at any depth (`Value.Unhashable`). There is no frozen set that holds one, so in what
really occurs the value is found inside tuples only (`Value.HoldsMutable`).
-/

namespace HashConsing

/-! ## Set keys -/

namespace LeafKey

/-- One key comes before another one. -/
def Before (k l : LeafKey) : Prop := compare k l = .lt

instance : Std.Irrefl Before where
  irrefl k h := by
    rw [Before, show compare k k = .eq from order_self k] at h
    cases h

instance : Std.Antisymm Before where
  antisymm k l h h' := by
    rw [Before, show compare k l = (compare l k).swap from order_swap k l, h'] at h
    cases h

/-- Putting a key among increasing ones leaves them increasing. -/
theorem pairwise_insertMember (k : LeafKey) {ms : List LeafKey} (h : ms.Pairwise Before) :
    (insertMember k ms).Pairwise Before := by
  induction ms with
  | nil => exact List.pairwise_singleton _ _
  | cons m ms ih =>
    obtain ⟨hm, hms⟩ := List.pairwise_cons.1 h
    rw [insertMember]
    split
    next hlt =>
      refine .cons (fun l hl => ?_) h
      rcases List.mem_cons.1 hl with rfl | hl
      · exact hlt
      · exact Std.TransCmp.lt_trans hlt (hm l hl)
    next => exact h
    next hgt =>
      refine .cons (fun l hl => ?_) (ih hms)
      rcases mem_insertMember.1 hl with rfl | hl
      · exact Std.OrientedCmp.lt_of_gt hgt
      · exact hm l hl

theorem pairwise_foldr_insertMember (ms : List LeafKey) :
    (ms.foldr insertMember []).Pairwise Before := by
  induction ms with
  | nil => exact .nil
  | cons m ms ih => exact pairwise_insertMember m ih

/-- **A set key is determined by which keys it holds**: neither their order nor how often
they were given matters. -/
theorem setOf_eq_setOf_iff {ks ls : List LeafKey} :
    setOf ks = setOf ls ↔ ∀ m, m ∈ ks ↔ m ∈ ls := by
  rw [setOf, setOf, set.injEq]
  constructor
  · intro h m
    rw [← mem_foldr_insertMember, h, mem_foldr_insertMember]
  · intro h
    refine (pairwise_foldr_insertMember ks).eq_of_mem_iff (pairwise_foldr_insertMember ls) ?_
    intro m
    rw [mem_foldr_insertMember, mem_foldr_insertMember, h]

end LeafKey

/-! ## Numbers -/

namespace Double

/-- **Two numbers are the same**: they have the same encoding, or neither is a number. So
the two zeros differ. -/
def Same (x y : Double) : Prop := x = y ∨ x.isNaN = true ∧ y.isNaN = true

/-- What is no number is represented by what is no number. -/
theorem isNaN_of_canonical_eq {x y : Double} (h : x.canonical = y) (hx : x.isNaN = true) :
    y.isNaN = true := by
  subst h
  rw [canonical, if_pos hx]
  decide

/-- **Numbers have the same representative exactly if they are the same.** -/
theorem canonical_eq_canonical_iff {x y : Double} : x.canonical = y.canonical ↔ x.Same y := by
  constructor
  · intro h
    cases hx : x.isNaN with
    | true =>
      cases hy : y.isNaN with
      | true => exact .inr ⟨hx, hy⟩
      | false =>
        rw [canonical_of_not_isNaN hy] at h
        rw [isNaN_of_canonical_eq h hx] at hy
        cases hy
    | false =>
      cases hy : y.isNaN with
      | true =>
        rw [canonical_of_not_isNaN hx] at h
        rw [isNaN_of_canonical_eq h.symm hy] at hx
        cases hx
      | false =>
        rw [canonical_of_not_isNaN hx, canonical_of_not_isNaN hy] at h
        exact .inl h
  · rintro (rfl | ⟨hx, hy⟩)
    · rfl
    · exact canonical_of_isNaN hx hy

end Double

namespace Value

/-! ## Values at the leaves -/

/-- **A value that can be changed**, or a tuple or frozen set that holds one at any depth. -/
inductive Unhashable : Value → Prop where
  | list (items : List Value) : Unhashable (list items)
  | set (members : List Value) : Unhashable (set members)
  | dict (entries : List (Value × Value)) : Unhashable (dict entries)
  | tuple {items : List Value} {item : Value} (held : item ∈ items)
      (below : Unhashable item) : Unhashable (tuple items)
  | frozenset {members : List Value} {member : Value} (held : member ∈ members)
      (below : Unhashable member) : Unhashable (frozenset members)

/-- **A value that can be changed**, or a tuple that holds one at any depth inside tuples. -/
inductive HoldsMutable : Value → Prop where
  | list (items : List Value) : HoldsMutable (list items)
  | set (members : List Value) : HoldsMutable (set members)
  | dict (entries : List (Value × Value)) : HoldsMutable (dict entries)
  | tuple {items : List Value} {item : Value} (held : item ∈ items)
      (below : HoldsMutable item) : HoldsMutable (tuple items)

/-- **Raw data**, which has no node in it, except perhaps inside a value that can be
changed. Members of frozen sets are hashable, or there would be no such set. -/
inductive LeafData : Value → Prop where
  | null : LeafData null
  | ellipsis : LeafData ellipsis
  | bool (b : Bool) : LeafData (bool b)
  | int (n : Int) : LeafData (int n)
  | word (w : Word) : LeafData (word w)
  | float (x : Double) : LeafData (float x)
  | complex (re im : Double) : LeafData (complex re im)
  | text (s : String) : LeafData (text s)
  | bytes (data : List UInt8) : LeafData (bytes data)
  | tuple {items : List Value} (data : ∀ item ∈ items, LeafData item) : LeafData (tuple items)
  | frozenset {members : List Value} (data : ∀ member ∈ members, LeafData member)
      (fixed : ∀ member ∈ members, ¬ Unhashable member) : LeafData (frozenset members)
  | list (items : List Value) : LeafData (list items)
  | set (members : List Value) : LeafData (set members)
  | dict (entries : List (Value × Value)) : LeafData (dict entries)

/-- **Two leaf values are identified.** Numbers go by their encodings, tuples by their
items, frozen sets by their members; all other values have to be of one type and agree. -/
def Identified : Value → Value → Prop
  | float x, float y => x.Same y
  | complex re im, complex re' im' => re.Same re' ∧ im.Same im'
  | tuple xs, tuple ys => xs.length = ys.length ∧
      ∀ i, (hx : i < xs.length) → (hy : i < ys.length) → Identified xs[i] ys[i]
  | frozenset xs, frozenset ys =>
      (∀ x, x ∈ xs → ∃ y, ∃ _ : y ∈ ys, Identified x y) ∧
        ∀ y, y ∈ ys → ∃ x, ∃ _ : x ∈ xs, Identified x y
  | v, w => v.typeName = w.typeName ∧ v.agrees w = true
termination_by v => sizeOf v
decreasing_by
  all_goals
    first
    | have := List.sizeOf_lt_of_mem (List.getElem_mem hx)
      simp only [tuple.sizeOf_spec]
      omega
    | have := List.sizeOf_lt_of_mem ‹_ ∈ xs›
      simp only [frozenset.sizeOf_spec]
      omega


theorem identified_tuple_iff {xs ys : List Value} :
    (tuple xs).Identified (tuple ys) ↔ xs.length = ys.length ∧
      ∀ i, (hx : i < xs.length) → (hy : i < ys.length) → xs[i].Identified ys[i] := by
  rw [Identified]

theorem identified_frozenset_iff {xs ys : List Value} :
    (frozenset xs).Identified (frozenset ys) ↔
      (∀ x ∈ xs, ∃ y ∈ ys, x.Identified y) ∧ ∀ y ∈ ys, ∃ x ∈ xs, x.Identified y := by
  rw [Identified]
  simp only [exists_prop]

/-! ## Keys of values with parts -/

section Parts

variable {vs : List Value} {ks : List LeafKey} {k : LeafKey}

/-- Some values have keys if each of them has one. -/
theorem leafKeys_eq_ok_iff : leafKeys vs = .ok ks ↔ vs.map leafKey = ks.map .ok := by
  induction vs generalizing ks with
  | nil =>
    rw [leafKeys, List.map_nil, Except.ok.injEq, eq_comm (a := []), eq_comm (a := []),
      List.map_eq_nil_iff]
  | cons v vs ih =>
    rw [leafKeys, List.map_cons]
    constructor
    · intro h
      obtain ⟨k, hk, h⟩ := Failure.exists_of_bind_eq_ok h
      obtain ⟨ls, hls, ⟨⟩⟩ := Failure.exists_of_bind_eq_ok h
      rw [hk, ih.1 hls, List.map_cons]
    · intro h
      obtain ⟨k, ls, rfl, hk, hls⟩ := List.map_eq_cons_iff.1 h.symm
      rw [← hk, ih.2 hls.symm]
      rfl

theorem leafKey_tuple_eq_ok_iff :
    (tuple vs).leafKey = .ok k ↔ ∃ ks, vs.map leafKey = ks.map .ok ∧ k = .tuple ks := by
  rw [leafKey]
  constructor
  · intro h
    obtain ⟨ks, hks, ⟨⟩⟩ := Failure.exists_of_bind_eq_ok h
    exact ⟨ks, leafKeys_eq_ok_iff.1 hks, rfl⟩
  · rintro ⟨ks, hks, rfl⟩
    rw [leafKeys_eq_ok_iff.2 hks]
    rfl

theorem leafKey_frozenset_eq_ok_iff :
    (frozenset vs).leafKey = .ok k ↔ ∃ ks, vs.map leafKey = ks.map .ok ∧ k = .setOf ks := by
  rw [leafKey]
  constructor
  · intro h
    obtain ⟨ks, hks, ⟨⟩⟩ := Failure.exists_of_bind_eq_ok h
    exact ⟨ks, leafKeys_eq_ok_iff.1 hks, rfl⟩
  · rintro ⟨ks, hks, rfl⟩
    rw [leafKeys_eq_ok_iff.2 hks]
    rfl

/-- Each of some values with keys has the key at its index. -/
theorem leafKey_getElem (h : vs.map leafKey = ks.map .ok) {i : Nat} (hv : i < vs.length)
    (hk : i < ks.length) : vs[i].leafKey = .ok ks[i] := by
  have hi := congrArg (·[i]?) h
  simpa [hv, hk] using hi

theorem length_keys (h : vs.map leafKey = ks.map .ok) : ks.length = vs.length := by
  have hlength := congrArg List.length h
  simpa using hlength.symm

/-- The keys of some values are those that one of the values has. -/
theorem mem_keys_iff (h : vs.map leafKey = ks.map .ok) : k ∈ ks ↔ ∃ v ∈ vs, v.leafKey = .ok k := by
  have hmem : .ok k ∈ vs.map leafKey ↔ k ∈ ks := by
    rw [h]
    simp
  rw [← hmem, List.mem_map]

/-- Some values have keys exactly if each of them has one. -/
theorem exists_keys_iff :
    (∃ ks : List LeafKey, vs.map leafKey = ks.map .ok) ↔ ∀ v ∈ vs, ∃ k, v.leafKey = .ok k := by
  constructor
  · rintro ⟨ks, hks⟩ v hv
    obtain ⟨k, -, hk⟩ := List.mem_map.1 (hks ▸ List.mem_map_of_mem hv)
    exact ⟨k, hk.symm⟩
  · intro h
    induction vs with
    | nil => exact ⟨[], rfl⟩
    | cons v vs ih =>
      obtain ⟨k, hk⟩ := h v List.mem_cons_self
      obtain ⟨ks, hks⟩ := ih fun w hw => h w (List.mem_cons_of_mem _ hw)
      exact ⟨k :: ks, by rw [List.map_cons, List.map_cons, hk, hks]⟩

/-- **Keys by position.** If keys of single values are equal exactly if the values are
related, lists of keys are equal exactly if the values at each index are. -/
theorem keys_eq_keys_iff {R : Value → Value → Prop} {ws : List Value} {ls : List LeafKey}
    (hks : vs.map leafKey = ks.map .ok) (hls : ws.map leafKey = ls.map .ok)
    (hR : ∀ v ∈ vs, ∀ w ∈ ws, ∀ {k l}, v.leafKey = .ok k → w.leafKey = .ok l → (k = l ↔ R v w)) :
    ks = ls ↔ vs.length = ws.length ∧
      ∀ i, (hv : i < vs.length) → (hw : i < ws.length) → R vs[i] ws[i] := by
  have hk := length_keys hks
  have hl := length_keys hls
  have hat : ∀ i (hv : i < vs.length) (hw : i < ws.length),
      ks[i] = ls[i] ↔ R vs[i] ws[i] := fun i hv hw =>
    hR _ (List.getElem_mem hv) _ (List.getElem_mem hw)
      (leafKey_getElem hks hv (hk ▸ hv)) (leafKey_getElem hls hw (hl ▸ hw))
  rw [List.ext_getElem_iff]
  constructor
  · rintro ⟨hlength, h⟩
    refine ⟨by rw [← hk, ← hl, hlength], fun i hv hw => ?_⟩
    exact (hat i hv hw).1 (h i (hk ▸ hv) (hl ▸ hw))
  · rintro ⟨hlength, h⟩
    refine ⟨by rw [hk, hl, hlength], fun i hi hi' => ?_⟩
    exact (hat i (hk ▸ hi) (hl ▸ hi')).2 (h i (hk ▸ hi) (hl ▸ hi'))

/-- **Keys as classes.** If keys of single values are equal exactly if the values are
related, set keys are equal exactly if each value is related to one on the other side. -/
theorem setOf_eq_setOf_iff_related {R : Value → Value → Prop} {ws : List Value}
    {ls : List LeafKey} (hks : vs.map leafKey = ks.map .ok) (hls : ws.map leafKey = ls.map .ok)
    (hR : ∀ v ∈ vs, ∀ w ∈ ws, ∀ {k l}, v.leafKey = .ok k → w.leafKey = .ok l → (k = l ↔ R v w)) :
    LeafKey.setOf ks = LeafKey.setOf ls ↔
      (∀ v ∈ vs, ∃ w ∈ ws, R v w) ∧ ∀ w ∈ ws, ∃ v ∈ vs, R v w := by
  rw [LeafKey.setOf_eq_setOf_iff]
  constructor
  · intro h
    constructor
    · intro v hv
      obtain ⟨k, hk⟩ := exists_keys_iff.1 ⟨ks, hks⟩ v hv
      have hmem : k ∈ ls := (h k).1 ((mem_keys_iff hks).2 ⟨v, hv, hk⟩)
      obtain ⟨w, hw, hl⟩ := (mem_keys_iff hls).1 hmem
      exact ⟨w, hw, (hR v hv w hw hk hl).1 rfl⟩
    · intro w hw
      obtain ⟨l, hl⟩ := exists_keys_iff.1 ⟨ls, hls⟩ w hw
      have hmem : l ∈ ks := (h l).2 ((mem_keys_iff hls).2 ⟨w, hw, hl⟩)
      obtain ⟨v, hv, hk⟩ := (mem_keys_iff hks).1 hmem
      exact ⟨v, hv, (hR v hv w hw hk hl).1 rfl⟩
  · rintro ⟨hleft, hright⟩ m
    constructor
    · intro hm
      obtain ⟨v, hv, hk⟩ := (mem_keys_iff hks).1 hm
      obtain ⟨w, hw, hvw⟩ := hleft v hv
      obtain ⟨l, hl⟩ := exists_keys_iff.1 ⟨ls, hls⟩ w hw
      rw [(hR v hv w hw hk hl).2 hvw]
      exact (mem_keys_iff hls).2 ⟨w, hw, hl⟩
    · intro hm
      obtain ⟨w, hw, hl⟩ := (mem_keys_iff hls).1 hm
      obtain ⟨v, hv, hvw⟩ := hright w hw
      obtain ⟨k, hk⟩ := exists_keys_iff.1 ⟨ks, hks⟩ v hv
      rw [← (hR v hv w hw hk hl).2 hvw]
      exact (mem_keys_iff hks).2 ⟨v, hv, hk⟩

end Parts

/-! ## Values without keys -/

/-- A tuple has a key if each of its items has one. -/
theorem exists_leafKey_tuple_iff {items : List Value} :
    (∃ k, (tuple items).leafKey = .ok k) ↔ ∀ v ∈ items, ∃ k, v.leafKey = .ok k := by
  rw [← exists_keys_iff]
  simp only [leafKey_tuple_eq_ok_iff]
  exact ⟨fun ⟨_, ks, hks, _⟩ => ⟨ks, hks⟩, fun ⟨ks, hks⟩ => ⟨_, ks, hks, rfl⟩⟩

/-- A frozen set has a key if each of its members has one. -/
theorem exists_leafKey_frozenset_iff {members : List Value} :
    (∃ k, (frozenset members).leafKey = .ok k) ↔ ∀ v ∈ members, ∃ k, v.leafKey = .ok k := by
  rw [← exists_keys_iff]
  simp only [leafKey_frozenset_eq_ok_iff]
  exact ⟨fun ⟨_, ks, hks, _⟩ => ⟨ks, hks⟩, fun ⟨ks, hks⟩ => ⟨_, ks, hks, rfl⟩⟩

/-- **Hashable values are those with a key.** -/
theorem exists_leafKey_iff : ∀ v : Value, (∃ k, v.leafKey = .ok k) ↔ ¬ v.Unhashable
  | tuple items => by
    have ih : ∀ item ∈ items, (∃ k, item.leafKey = .ok k) ↔ ¬ item.Unhashable :=
      fun item _ => exists_leafKey_iff item
    rw [exists_leafKey_tuple_iff]
    constructor
    · rintro h (_ | _ | _ | ⟨held, below⟩ | _)
      exact (ih _ held).1 (h _ held) below
    · intro h item hitem
      exact (ih item hitem).2 fun below => h (.tuple hitem below)
  | frozenset members => by
    have ih : ∀ member ∈ members, (∃ k, member.leafKey = .ok k) ↔ ¬ member.Unhashable :=
      fun member _ => exists_leafKey_iff member
    rw [exists_leafKey_frozenset_iff]
    constructor
    · rintro h (_ | _ | _ | _ | ⟨held, below⟩)
      exact (ih _ held).1 (h _ held) below
    · intro h member hmember
      exact (ih member hmember).2 fun below => h (.frozenset hmember below)
  | list items => iff_of_false nofun fun h => h (.list items)
  | set members => iff_of_false nofun fun h => h (.set members)
  | dict entries => iff_of_false nofun fun h => h (.dict entries)
  | null | ellipsis | bool _ | int _ | word _ | float _ | complex _ _ | text _ | bytes _
  | node _ _ => iff_of_true ⟨_, rfl⟩ nofun
termination_by v => sizeOf v
decreasing_by
  all_goals
    have := List.sizeOf_lt_of_mem ‹_ ∈ _›
    simp only [tuple.sizeOf_spec, frozenset.sizeOf_spec]
    omega

/-- In raw data, what can be changed is found inside tuples only. -/
theorem unhashable_iff_holdsMutable {v : Value} (hv : LeafData v) :
    v.Unhashable ↔ v.HoldsMutable := by
  induction hv with
  | tuple data ih =>
    constructor
    · rintro (_ | _ | _ | ⟨held, below⟩ | _)
      exact .tuple held ((ih _ held).1 below)
    · rintro (_ | _ | _ | ⟨held, below⟩)
      exact .tuple held ((ih _ held).2 below)
  | frozenset data fixed ih =>
    refine iff_of_false ?_ nofun
    rintro (_ | _ | _ | _ | ⟨held, below⟩)
    exact fixed _ held below
  | list items => exact iff_of_true (.list items) (.list items)
  | set members => exact iff_of_true (.set members) (.set members)
  | dict entries => exact iff_of_true (.dict entries) (.dict entries)
  | _ => exact iff_of_false nofun nofun

mutual

/-- A value without a key is refused for the type of a value that can be changed. -/
theorem eq_unhashable_of_leafKey : ∀ {v : Value} {failure : Failure},
    v.leafKey = .error failure → ∃ typeName, failure = .unhashable typeName
  | list _, _, h | set _, _, h | dict _, _, h => ⟨_, (Except.error.inj h).symm⟩
  | tuple items, _, h => by
    rw [leafKey] at h
    rcases Failure.eq_error_of_bind_eq_error h with h | ⟨_, _, ⟨⟩⟩
    exact eq_unhashable_of_leafKeys h
  | frozenset members, _, h => by
    rw [leafKey] at h
    rcases Failure.eq_error_of_bind_eq_error h with h | ⟨_, _, ⟨⟩⟩
    exact eq_unhashable_of_leafKeys h
  | null, _, h | ellipsis, _, h | bool _, _, h | int _, _, h | word _, _, h | float _, _, h
  | complex _ _, _, h | text _, _, h | bytes _, _, h | node _ _, _, h => nomatch h

theorem eq_unhashable_of_leafKeys : ∀ {vs : List Value} {failure : Failure},
    leafKeys vs = .error failure → ∃ typeName, failure = .unhashable typeName
  | [], _, h => nomatch h
  | v :: vs, _, h => by
    rw [leafKeys] at h
    rcases Failure.eq_error_of_bind_eq_error h with h | ⟨_, _, h⟩
    · exact eq_unhashable_of_leafKey h
    · rcases Failure.eq_error_of_bind_eq_error h with h | ⟨_, _, ⟨⟩⟩
      exact eq_unhashable_of_leafKeys h

end

/-! ## Identified values -/

@[simp] theorem agrees_null : null.agrees null = true := rfl

@[simp] theorem agrees_ellipsis : ellipsis.agrees ellipsis = true := rfl

@[simp] theorem agrees_text {s t : String} : (text s).agrees (text t) = true ↔ s = t :=
  beq_iff_eq

@[simp] theorem agrees_bytes {a b : List UInt8} : (bytes a).agrees (bytes b) = true ↔ a = b :=
  beq_iff_eq

@[simp] theorem agrees_bool {b c : Bool} : (bool b).agrees (bool c) = true ↔ b = c := by
  revert b c
  decide

@[simp] theorem agrees_int {m n : Int} : (int m).agrees (int n) = true ↔ m = n := by
  show ((Extended.finite m, Extended.finite 0) == (.finite n, .finite 0)) = true ↔ _
  simp

@[simp] theorem agrees_word {v w : Word} :
    (word v).agrees (word w) = true ↔ v.value = w.value := by
  show ((Extended.finite v.value, Extended.finite 0) == (.finite w.value, .finite 0)) = true ↔ _
  simp

/-- The type of a word is none of the types of other values that have a key. -/
theorem typeName_word_ne (w : Word) : ∀ name ∈ ["NoneType", "ellipsis", "bool", "int", "float",
    "complex", "str", "bytes", "tuple", "frozenset"], w.type.name ≠ name := by
  cases w.type <;> decide

/-- **Keys are equal exactly if the values are identified.** -/
theorem leafKey_eq_leafKey_iff {v w : Value} {k l : LeafKey} (hv : LeafData v) (hw : LeafData w)
    (hk : v.leafKey = .ok k) (hl : w.leafKey = .ok l) : k = l ↔ v.Identified w := by
  induction hv generalizing w k l with
  | @tuple xs data ih =>
    obtain ⟨ks, hks, rfl⟩ := leafKey_tuple_eq_ok_iff.1 hk
    cases hw with
    | @tuple ys data' =>
      obtain ⟨ls, hls, rfl⟩ := leafKey_tuple_eq_ok_iff.1 hl
      rw [identified_tuple_iff, LeafKey.tuple.injEq]
      exact keys_eq_keys_iff hks hls fun x hx y hy _ _ hk hl => ih x hx (data' y hy) hk hl
    | frozenset =>
      obtain ⟨ls, -, rfl⟩ := leafKey_frozenset_eq_ok_iff.1 hl
      simp [LeafKey.setOf, Identified, typeName]
    | list | set | dict => cases hl
    | word n =>
      cases hl
      simp [Identified, typeName, fun name hname => (typeName_word_ne n name hname).symm]
    | _ =>
      cases hl
      simp [Identified, typeName]
  | @frozenset xs data fixed ih =>
    obtain ⟨ks, hks, rfl⟩ := leafKey_frozenset_eq_ok_iff.1 hk
    cases hw with
    | @frozenset ys data' fixed' =>
      obtain ⟨ls, hls, rfl⟩ := leafKey_frozenset_eq_ok_iff.1 hl
      rw [identified_frozenset_iff]
      exact setOf_eq_setOf_iff_related hks hls fun x hx y hy _ _ hk hl =>
        ih x hx (data' y hy) hk hl
    | tuple =>
      obtain ⟨ls, -, rfl⟩ := leafKey_tuple_eq_ok_iff.1 hl
      simp [LeafKey.setOf, Identified, typeName]
    | list | set | dict => cases hl
    | word n =>
      cases hl
      simp [LeafKey.setOf, Identified, typeName,
        fun name hname => (typeName_word_ne n name hname).symm]
    | _ =>
      cases hl
      simp [LeafKey.setOf, Identified, typeName]
  | list | set | dict => cases hk
  | word n =>
    cases hk
    have hne := typeName_word_ne n
    cases hw with
    | tuple =>
      obtain ⟨ls, -, rfl⟩ := leafKey_tuple_eq_ok_iff.1 hl
      simp [Identified, typeName, hne]
    | frozenset =>
      obtain ⟨ls, -, rfl⟩ := leafKey_frozenset_eq_ok_iff.1 hl
      simp [LeafKey.setOf, Identified, typeName, hne]
    | list | set | dict => cases hl
    | _ =>
      cases hl
      simp [Identified, typeName, hne]
  | _ =>
    cases hk
    cases hw with
    | word n =>
      cases hl
      simp [Identified, typeName, fun name hname => (typeName_word_ne n name hname).symm]
    | tuple =>
      obtain ⟨ls, -, rfl⟩ := leafKey_tuple_eq_ok_iff.1 hl
      simp [Identified, typeName]
    | frozenset =>
      obtain ⟨ls, -, rfl⟩ := leafKey_frozenset_eq_ok_iff.1 hl
      simp [LeafKey.setOf, Identified, typeName]
    | list | set | dict => cases hl
    | _ =>
      cases hl
      simp [Identified, typeName, Double.canonical_eq_canonical_iff]

/-- **Keys tell leaf values apart exactly as far as they are not identified.** Raw data is
refused, for the type of a value that can be changed, exactly if it is such a value or a tuple
that holds one at any depth. Any two other values have keys, and these are equal exactly if the
values are identified. -/
theorem leafKey_identifies {v w : Value} (hv : LeafData v) (hw : LeafData w) :
    (v.HoldsMutable ↔ ∃ typeName, v.leafKey = .error (.unhashable typeName)) ∧
      (¬ v.HoldsMutable → ¬ w.HoldsMutable →
        ∃ k l, v.leafKey = .ok k ∧ w.leafKey = .ok l ∧ (k = l ↔ v.Identified w)) := by
  rw [← unhashable_iff_holdsMutable hv, ← unhashable_iff_holdsMutable hw]
  constructor
  · rw [← not_iff_not, ← exists_leafKey_iff v]
    constructor
    · rintro ⟨k, hk⟩ ⟨typeName, h⟩
      rw [hk] at h
      cases h
    · intro h
      cases hkey : v.leafKey with
      | ok k => exact ⟨k, rfl⟩
      | error failure =>
        obtain ⟨typeName, rfl⟩ := eq_unhashable_of_leafKey hkey
        exact absurd ⟨typeName, hkey⟩ h
  · intro hfixed hfixed'
    obtain ⟨k, hk⟩ := (exists_leafKey_iff v).2 hfixed
    obtain ⟨l, hl⟩ := (exists_leafKey_iff w).2 hfixed'
    exact ⟨k, l, hk, hl, leafKey_eq_leafKey_iff hv hw hk hl⟩

/-- Two encodings of *not a number* make a frozen set of two members, which has the key of a
set of one. The sets of the integer one and of the truth value have different keys, although
their members agree. -/
theorem leafKey_identifies_sets :
    (∃ k, (frozenset [float ⟨0x7ff8000000000000⟩, float ⟨0xfff8000000000000⟩]).leafKey = .ok k ∧
        (frozenset [float ⟨0x7ff8000000000000⟩]).leafKey = .ok k) ∧
      ∃ k l, (frozenset [int 1]).leafKey = .ok k ∧ (frozenset [bool true]).leafKey = .ok l
        ∧ k ≠ l := by
  have hdata : ∀ vs : List Value, (∀ v ∈ vs, LeafData v ∧ ¬ v.Unhashable) →
      LeafData (frozenset vs) := fun vs h =>
    .frozenset (fun v hv => (h v hv).1) fun v hv => (h v hv).2
  have hfloat : ∀ x, LeafData (float x) ∧ ¬ (float x).Unhashable := fun x => ⟨.float x, nofun⟩
  constructor
  · obtain ⟨k, l, hk, hl, hiff⟩ := (leafKey_identifies
      (hdata [float ⟨0x7ff8000000000000⟩, float ⟨0xfff8000000000000⟩] (by simp [hfloat]))
      (hdata [float ⟨0x7ff8000000000000⟩] (by simp [hfloat]))).2 nofun nofun
    have hsame : k = l := by
      rw [hiff, identified_frozenset_iff]
      simp only [List.mem_cons, List.not_mem_nil, or_false, forall_eq_or_imp, forall_eq,
        exists_eq_or_imp, exists_eq_left, Identified, Double.Same]
      decide
    exact ⟨k, hk, hsame ▸ hl⟩
  · obtain ⟨k, l, hk, hl, hiff⟩ := (leafKey_identifies
      (hdata [int 1] (by simp [LeafData.int 1, show ¬ (int 1).Unhashable from nofun]))
      (hdata [bool true]
        (by simp [LeafData.bool true, show ¬ (bool true).Unhashable from nofun]))).2 nofun nofun
    refine ⟨k, l, hk, hl, ?_⟩
    rw [Ne, hiff, identified_frozenset_iff]
    simp [Identified, typeName]

end Value

end HashConsing
