import HashConsing.Proofs.Numerals
import HashConsing.Proofs.Permanence
import HashConsing.Proofs.Writing

/-!
# Which questions have answers

An id is asked about by any value at all. `Tables.Names` says which values name an id: the
integers and the words from zero up to the next id. For these every question finds what the
tables have at that place, and the answers fit together: either all of them speak of a leaf
(`Tables.AnsweredAsLeaf`) or all of them of a mark or a shape (`Tables.AnsweredAsStructure`).
For all other values every question fails in the same way (`Tables.Unanswered`), and that is
the report of an unknown id, unless the value cannot be shown in the report: then an integer
in it is too long.

Kind names are what the front-end says they are, so a node may have the one of leaves. Only
where there is no such node do kind names tell leaves from the rest.
-/

namespace HashConsing

/-! ## Where answers come from -/

namespace Tables

section Questions

variable (t : Tables) (id : Value) (n : Nat)

/-- **A value names an allocated id**: it is an integer, or a word of any type, from zero up to
the next id. A truth value is neither. -/
def Names : Prop :=
  (id = .int n ∨ ∃ w : Word, id = .word w ∧ w.value = n) ∧ n < t.nextId

/-- **The answers about the id of a leaf**: its text is that of the value it stands for, and lacks
only where the value cannot be shown. -/
structure AnsweredAsLeaf : Prop where
  isLeaf : t.isLeaf id = .ok true
  leafMask : t.leafMask[n]? = some true
  exists_leaf : ∃ v, t.representation id = .ok (.leaf v)
    ∧ t.leafText id = v.leafText ∧ t.annotated id = v.leafText
    ∧ WritesIff v.Showable v.leafText

/-- **The answers about any other id**: it has no text of a leaf, and this is what is reported,
unless the id is too long for the report. -/
structure AnsweredAsStructure : Prop where
  isLeaf : t.isLeaf id = .ok false
  leafMask : t.leafMask[n]? = some false
  marker : n < firstId → ∃ m : Marker, n = m.id ∧ t.representation id = .ok (.marker m)
  shape : firstId ≤ n → ∃ s, t.representation id = .ok (.shape s)
  leafText : t.leafText id
    = .error (if n < Text.integerBound then .notALeaf id else .integerTooLong)
  annotated : ∃ text, t.annotated id = .ok text

/-- **No question about a value has an answer.** What is reported is that the id is unknown, if the
value can be shown. -/
structure Unanswered : Prop where
  representation : t.representation id = .error (t.unknownId id)
  kindName : t.kindName id = .error (t.unknownId id)
  isLeaf : t.isLeaf id = .error (t.unknownId id)
  leafText : t.leafText id = .error (t.unknownId id)
  annotated : t.annotated id = .error (t.unknownId id)
  shown : id.Showable → t.unknownId id = .unknownId id t.nextId
  tooLong : ¬id.Showable → t.unknownId id = .integerTooLong

end Questions

variable {t : Tables} {id : Value} {n : Nat}

/-- The number of a value that names an id. -/
theorem idNumber?_eq_some_iff :
    id.idNumber? = some (n : Int) ↔ id = .int n ∨ ∃ w : Word, id = .word w ∧ w.value = n := by
  cases id <;> simp [Value.idNumber?]

/-- **The allocated ids are those that are named.** -/
theorem allocated_eq_ok_iff : t.allocated id = .ok n ↔ t.Names id n := by
  constructor
  · intro h
    unfold allocated at h
    split at h
    next m hm =>
      split at h
      next hrange =>
        obtain ⟨hnonneg, hlt⟩ := hrange
        obtain ⟨k, rfl⟩ := Int.eq_ofNat_of_zero_le hnonneg
        obtain rfl : k = n := Except.ok.inj h
        exact ⟨idNumber?_eq_some_iff.1 hm, Int.ofNat_lt.1 hlt⟩
      next => cases h
    next => cases h
  · rintro ⟨hid, hlt⟩
    exact allocated_eq_ok (idNumber?_eq_some_iff.2 hid) hlt

/-- What names no id is unknown. -/
theorem allocated_eq_error (h : ∀ n, ¬t.Names id n) :
    t.allocated id = .error (t.unknownId id) := by
  unfold allocated
  split
  next m hm =>
    refine if_neg ?_
    rintro ⟨hnonneg, hlt⟩
    obtain ⟨k, rfl⟩ := Int.eq_ofNat_of_zero_le hnonneg
    exact h k ⟨idNumber?_eq_some_iff.1 hm, Int.ofNat_lt.1 hlt⟩
  next => rfl

/-- A number that names an id names no other one. -/
theorem Names.unique {m : Nat} (h : t.Names id n) (h' : t.Names id m) : n = m :=
  Except.ok.inj ((allocated_eq_ok_iff.2 h).symm.trans (allocated_eq_ok_iff.2 h'))

/-- A question that is answered about all ids, and about nothing else. -/
theorem exists_ok_iff_names {α : Type} {answer : Except Failure α}
    (hnamed : ∀ n, t.Names id n → ∃ a, answer = .ok a)
    (hunnamed : (∀ n, ¬t.Names id n) → answer = .error (t.unknownId id)) :
    (∃ a, answer = .ok a) ↔ ∃ n, t.Names id n := by
  constructor
  · rintro ⟨a, ha⟩
    by_contra hno
    rw [hunnamed (not_exists.1 hno)] at ha
    cases ha
  · rintro ⟨n, hid⟩
    exact hnamed n hid

/-- **What is reported about an unknown id.** -/
theorem unknownId_eq (h : id.Showable) : t.unknownId id = .unknownId id t.nextId :=
  Failure.raised_eq_self (Failure.idText_writesIff id _) h

theorem unknownId_eq_integerTooLong (h : ¬id.Showable) : t.unknownId id = .integerTooLong :=
  Failure.raised_eq_integerTooLong (Failure.idText_writesIff id _) h

/-- **What names no id has no answers.** -/
theorem unanswered (h : ∀ n, ¬t.Names id n) : t.Unanswered id := by
  have ha : t.allocated id = .error (t.unknownId id) := allocated_eq_error h
  have hr : t.representation id = .error (t.unknownId id) := by
    unfold representation
    rw [ha]
    rfl
  refine ⟨hr, ?_, ?_, ?_, ?_, unknownId_eq, unknownId_eq_integerTooLong⟩
  · unfold kindName
    rw [ha]
    rfl
  · unfold isLeaf
    rw [hr]
    rfl
  · unfold leafText
    rw [hr]
    rfl
  · unfold annotated
    rw [hr]
    rfl

/-- **What names an id can be shown**, unless the id is too long. -/
theorem Names.showable_iff (h : t.Names id n) : id.Showable ↔ n < Text.integerBound := by
  obtain ⟨rfl | ⟨w, rfl, hw⟩, -⟩ := h
  · exact Value.showable_int
  · -- No word is too long.
    have hlt : n < Text.integerBound := by
      have hword : w.value.natAbs < 2 ^ 64 := w.natAbs_value_lt
      rw [hw] at hword
      exact Nat.lt_of_lt_of_le hword (Text.le_integerBound le_rfl)
    exact iff_of_true (Value.showable_of_inside_eq_nil (by simp) (by simp) rfl) hlt

namespace Coherent

variable (h : t.Coherent) (hid : t.Names id n)

include h in
/-- **There is one entry for each id.** -/
theorem size_leafMask : t.leafMask.size = t.nextId := by
  rw [leafMask, Array.size_map, h.size_representations]

section Answers

variable {r : Representation} (hr : t.representations[n]? = some r)

include hr in
theorem leafMask_eq : t.leafMask[n]? = some r.isLeaf := by
  rw [leafMask, Array.getElem?_map, hr, Option.map_some]

include hid hr

theorem representation_eq : t.representation id = .ok r :=
  representation_eq_ok (allocated_eq_ok_iff.2 hid) hr

theorem isLeaf_eq : t.isLeaf id = .ok r.isLeaf := by
  unfold isLeaf
  rw [representation_eq hid hr]
  rfl

include h in
theorem kindName_eq_kindName : t.kindName id = .ok r.kindName := by
  refine kindName_eq_ok (allocated_eq_ok_iff.2 hid) ?_
  rw [h.kindName_eq, hr, Option.map_some]

/-- An id that stands for no leaf has no text of a leaf. -/
theorem leafText_eq_error (hleaf : r.isLeaf = false) : t.leafText id
    = .error (if n < Text.integerBound then .notALeaf id else .integerTooLong) := by
  have hwrites := Failure.leafIdText_writesIff id
  have hraised : (Failure.notALeaf id).raised
      = if n < Text.integerBound then .notALeaf id else .integerTooLong := by
    split
    next h => exact Failure.raised_eq_self hwrites (hid.showable_iff.2 h)
    next h => exact Failure.raised_eq_integerTooLong hwrites (mt hid.showable_iff.1 h)
  unfold leafText
  rw [representation_eq hid hr, ← hraised]
  cases r with
  | leaf v => cases hleaf
  | marker m => rfl
  | shape s => rfl

end Answers

include hid

theorem answeredAsLeaf {v : Value} (hr : t.representations[n]? = some (.leaf v)) :
    t.AnsweredAsLeaf id n where
  isLeaf := isLeaf_eq hid hr
  leafMask := leafMask_eq hr
  exists_leaf := by
    have hrepresentation := representation_eq hid hr
    refine ⟨v, hrepresentation, ?_, ?_, v.leafText_writesIff⟩
    · unfold leafText
      rw [hrepresentation]
      rfl
    · unfold annotated
      rw [hrepresentation]
      rfl

include h

theorem answeredAsStructure {r : Representation} (hr : t.representations[n]? = some r)
    (hleaf : r.isLeaf = false) : t.AnsweredAsStructure id n where
  isLeaf := hleaf ▸ isLeaf_eq hid hr
  leafMask := hleaf ▸ leafMask_eq hr
  marker hn := by
    obtain ⟨m, hm⟩ := Marker.exists_id_of_lt hn
    exact ⟨m, hm, representation_eq hid (h.marker_iff.2 hm)⟩
  shape hn := by
    cases r with
    | leaf v => cases hleaf
    | marker m => exact absurd hr (h.ne_marker_of_first_le hn)
    | shape s => exact ⟨s, representation_eq hid hr⟩
  leafText := leafText_eq_error hid hr hleaf
  annotated := by
    unfold annotated
    rw [representation_eq hid hr, h.kindName_eq_kindName hid hr]
    cases r with
    | leaf v => cases hleaf
    | marker m => exact ⟨_, rfl⟩
    | shape s => exact ⟨_, rfl⟩

omit hid in
/-- **The answers about what an id stands for**: there is one where an id is named. -/
theorem representation_eq_ok_iff {r : Representation} : t.representation id = .ok r ↔
    ∃ n, t.Names id n ∧ t.representations[n]? = some r := by
  constructor
  · intro hr
    by_contra hno
    by_cases hid : ∃ n, t.Names id n
    · obtain ⟨n, hid⟩ := hid
      obtain ⟨r', hr'⟩ := h.exists_representation.2 hid.2
      obtain rfl := Except.ok.inj (hr.symm.trans (representation_eq hid hr'))
      exact hno ⟨n, hid, hr'⟩
    · rw [(unanswered (not_exists.1 hid)).representation] at hr
      cases hr
  · rintro ⟨n, hid, hr⟩
    exact representation_eq hid hr

omit hid in
/-- **What an id stands for, its kind name and whether it is a leaf** are answered where an id is
named, and nowhere else. -/
theorem answered_iff : ((∃ r, t.representation id = .ok r) ↔ ∃ n, t.Names id n)
    ∧ ((∃ name, t.kindName id = .ok name) ↔ ∃ n, t.Names id n)
    ∧ ((∃ leaf, t.isLeaf id = .ok leaf) ↔ ∃ n, t.Names id n) := by
  have hstands : ∀ n, t.Names id n → ∃ r, t.representations[n]? = some r :=
    fun n hid => h.exists_representation.2 hid.2
  refine ⟨?_, ?_, ?_⟩
  · refine exists_ok_iff_names (fun n hid => ?_) fun hno => (unanswered hno).representation
    obtain ⟨r, hr⟩ := hstands n hid
    exact ⟨r, representation_eq hid hr⟩
  · refine exists_ok_iff_names (fun n hid => ?_) fun hno => (unanswered hno).kindName
    obtain ⟨r, hr⟩ := hstands n hid
    exact ⟨_, h.kindName_eq_kindName hid hr⟩
  · refine exists_ok_iff_names (fun n hid => ?_) fun hno => (unanswered hno).isLeaf
    obtain ⟨r, hr⟩ := hstands n hid
    exact ⟨_, isLeaf_eq hid hr⟩

omit hid in
/-- **Leaves and nodes of that kind have the kind name of leaves**, and nothing else. -/
theorem kindName_eq_leaf_iff : t.kindName id = .ok "Leaf" ↔
    t.isLeaf id = .ok true ∨ ∃ cs, t.representation id = .ok (.shape (.node "Leaf" cs)) := by
  by_cases hid : ∃ n, t.Names id n
  · obtain ⟨n, hid⟩ := hid
    obtain ⟨r, hr⟩ := h.exists_representation.2 hid.2
    rw [h.kindName_eq_kindName hid hr, isLeaf_eq hid hr, representation_eq hid hr]
    cases r with
    | marker m => cases m <;> simp [Representation.kindName, Marker.text, Representation.isLeaf]
    | leaf v => exact iff_of_true rfl (.inl rfl)
    | shape s =>
      cases s <;>
        simp [Representation.kindName, shapeKindName, Shape.kind?, Representation.isLeaf]
  · obtain ⟨hrepresentation, hkindName, hleaf, -⟩ := unanswered (not_exists.1 hid)
    rw [hrepresentation, hkindName, hleaf]
    simp

/-- **Every named id has answers that fit together.** -/
theorem answered : t.AnsweredAsLeaf id n ∨ t.AnsweredAsStructure id n := by
  obtain ⟨r, hr⟩ := h.exists_representation.2 hid.2
  cases r with
  | leaf v => exact .inl (answeredAsLeaf hid hr)
  | marker m => exact .inr (h.answeredAsStructure hid hr rfl)
  | shape s => exact .inr (h.answeredAsStructure hid hr rfl)

end Coherent

end Tables

/-! ## What ids stand for -/

namespace Progress

variable {P : Representation → Prop} {s : Progress} (report : Nat → Report)
  (hs : ∀ r ∈ s.tables.representations, P r)

include hs

theorem forall_representations_internLeaf (key : LeafKey) {v : Value} (hleaf : P (.leaf v)) :
    ∀ r ∈ (s.internLeaf key v report).2.tables.representations, P r := by
  unfold internLeaf
  cases s.tables.leafId? key with
  | some id => exact hs
  | none =>
    intro r hr
    rcases Array.mem_push.1 hr with hold | rfl
    · exact hs r hold
    · exact hleaf

theorem forall_representations_internShape {shape : Shape} (hshape : P (.shape shape)) :
    ∀ r ∈ (s.internShape shape report).2.tables.representations, P r := by
  unfold internShape
  cases s.tables.shapeId? shape with
  | some id => exact hs
  | none =>
    intro r hr
    rcases Array.mem_push.1 hr with hold | rfl
    · exact hs r hold
    · exact hshape

end Progress

/-- **The kind of a node was read off something**, and it is known. Other representations have no
such kind. -/
def Representation.KindRead (fe : Frontend) (r : Representation) : Prop :=
  ∀ kind cs, r = .shape (.node kind cs) → ∃ v ps, fe.kindOf v = kind ∧ fe.properties? kind = some ps

/-- **Along every trail the kinds of nodes were read off something.** -/
theorem Trail.kindRead {fe : Frontend} {reporter : Reporter} {s s' : Progress}
    {places : List PropertyKind} {Ts : List (Rose Nat)}
    (trail : Trail fe (.trees reporter) s places Ts s')
    (hs : ∀ r ∈ s.tables.representations, r.KindRead fe) :
    ∀ r ∈ s'.tables.representations, r.KindRead fe := by
  induction trail with
  | nil | absent => exact hs
  | cons _ _ ihfirst ihrest => exact ihrest (ihfirst hs)
  | leaf s _ => exact Progress.forall_representations_internLeaf _ hs _ (by rintro _ _ ⟨⟩)
  | list _ ih => exact Progress.forall_representations_internShape _ (ih hs) (by rintro _ _ ⟨⟩)
  | node known _ ih =>
    refine Progress.forall_representations_internShape _ (ih hs) ?_
    rintro _ _ ⟨⟩
    exact ⟨_, _, rfl, known⟩

/-! ## Histories -/

/-- The word zero, of eight bits without a sign. -/
def Word.zeroByte : Word := ⟨.uint8, 0, "np.uint8(0)", by decide, by decide⟩

/-- A node that holds an integer that is too long to be written, and so has no text. -/
def Value.longNumber : Value :=
  .node ⟨9, "Node", "Name", none, none⟩ [("text", .int Text.integerBound)]

namespace Canonicalizer

open Tables

namespace History

variable {fe : Frontend} {reporter : Reporter} {calls : List Call} {c : Canonicalizer}

/-- **The kinds of nodes were read off something**, whatever has been labeled. -/
theorem kindRead (h : (create fe reporter).History calls c) :
    ∀ r ∈ c.tables.representations, r.KindRead fe := by
  induction h with
  | nil =>
    intro r hr
    obtain rfl | rfl : r = .marker .absent ∨ r = .marker .listShape := by
      simpa [create, empty] using hr
    · rintro _ _ ⟨⟩
    · rintro _ _ ⟨⟩
  | snoc before last ih =>
    obtain ⟨⟨result, s⟩, hending, rfl⟩ := Option.map_eq_some_iff.1 last
    rw [before.frontend_eq] at hending
    cases result with
    | error failure =>
      obtain ⟨_, _, trail⟩ := Trailed.label hending
      exact trail.kindRead ih
    | ok T =>
      have trail : Trail fe (.trees _) _ [.child] [T] s := Trailed.label hending
      exact trail.kindRead ih

/-- **Questions are answered about exactly the allocated ids, and the answers agree.** Whatever has
been labeled, with success or not:

There is one entry in the mask of leaves for each id. What an id stands for, its kind name and
whether it is a leaf are answered exactly about the values that name an id, and no answer is looked
for where there is none. About a named id either all answers say that it is a leaf or all say that
it is not. About any other value every question fails with the report that the id is unknown,
unless the value cannot be shown in this report: then an integer is too long. Leaves have the kind
name of leaves, and nothing else has it where no node can be of that kind. -/
theorem answers_agree (h : (create fe reporter).History calls c) :
    let t := c.tables
    t.leafMask.size = t.nextId
    ∧ (∀ id : Value, ((∃ r, t.representation id = .ok r) ↔ ∃ n, t.Names id n)
      ∧ ((∃ name, t.kindName id = .ok name) ↔ ∃ n, t.Names id n)
      ∧ ((∃ leaf, t.isLeaf id = .ok leaf) ↔ ∃ n, t.Names id n))
    ∧ (∀ id n, t.allocated id = .ok n → n < t.representations.size ∧ n < t.kindNames.size)
    ∧ (∀ id n, t.Names id n → t.AnsweredAsLeaf id n ∨ t.AnsweredAsStructure id n)
    ∧ (∀ id, (∀ n, ¬t.Names id n) → t.Unanswered id)
    ∧ (∀ id, t.kindName id = .ok "Leaf" ↔
        t.isLeaf id = .ok true ∨ ∃ cs, t.representation id = .ok (.shape (.node "Leaf" cs)))
    ∧ ((∀ v, fe.kindOf v = "Leaf" → fe.properties? "Leaf" = none) →
        ∀ id, t.kindName id = .ok "Leaf" ↔ t.isLeaf id = .ok true) := by
  intro t
  have hc : t.Coherent := h.coherent coherent_empty
  refine ⟨hc.size_leafMask, fun id => hc.answered_iff, fun id n hid => ?_,
    fun id n => hc.answered, fun id => unanswered, fun id => hc.kindName_eq_leaf_iff,
    fun hkind id => hc.kindName_eq_leaf_iff.trans (or_iff_left ?_)⟩
  · have hlt : n < t.nextId := (allocated_eq_ok_iff.1 hid).2
    exact ⟨hc.size_representations ▸ hlt, hc.size_kindNames ▸ hlt⟩
  · -- A node with the kind name of leaves would have been read off something.
    rintro ⟨cs, hnode⟩
    obtain ⟨n, -, hr⟩ := hc.representation_eq_ok_iff.1 hnode
    obtain ⟨v, ps, hv, hps⟩ := h.kindRead _ (Array.mem_of_getElem? hr) _ _ rfl
    rw [hkind v hv] at hps
    cases hps

/-- The answers after a labeling that failed between two others: the name is a leaf, the id of what
is absent may be asked about by a word, a truth value is no id, and neither is a node, which here is
too long for the report. -/
theorem answers_agree_blocks :
    ∃ (a b d : Labeled) (c : Canonicalizer) (n : Nat),
      (create Dialect.blocks.frontend {}).History (blockCalls a b d) c
      ∧ c.tables.AnsweredAsLeaf (.int n) n
      ∧ c.tables.kindName (.int n) = .ok "Leaf"
      ∧ c.tables.AnsweredAsStructure (.word .zeroByte) 0
      ∧ c.tables.isLeaf (.bool true) = .error (.unknownId (.bool true) c.tables.nextId)
      ∧ c.tables.isLeaf .longNumber = .error .integerTooLong := by
  obtain ⟨a, b, d, c, h, -, -, T, hT⟩ := exists_history_blockCalls
  have hc : c.tables.Coherent := h.coherent coherent_empty
  -- The id of the leaf in the name that was labeled last.
  have hlast : ⟨.name 6 "x", d⟩ ∈ blockCalls a b d := by simp [blockCalls]
  obtain ⟨Ts, -, hTs, -⟩ :=
    treeOf?_node_eq_some.1 (h.treeOf?_of_form coherent_empty hlast (form_name 6 "x") hT)
  obtain ⟨U, Us, hU, -⟩ := treesOf?_cons_eq_some.1 hTs
  obtain ⟨n, hn, -⟩ := treeOf?_leaf_eq_some.1 hU
  obtain ⟨v, hv, -⟩ := hc.leafId?_iff.1 hn
  have hnamed : c.tables.Names (.int n) n := ⟨.inl rfl, hc.lt_nextId hv⟩
  have hnull : c.tables.Names (.word .zeroByte) 0 :=
    ⟨.inr ⟨.zeroByte, rfl, rfl⟩, Nat.lt_of_lt_of_le (by decide) hc.first_le⟩
  have htruth : ∀ n, ¬c.tables.Names (.bool true) n := by
    rintro n ⟨heq | ⟨w, heq, -⟩, -⟩ <;> cases heq
  have hnode : ∀ n, ¬c.tables.Names .longNumber n := by
    rintro n ⟨heq | ⟨w, heq, -⟩, -⟩ <;> cases heq
  obtain ⟨-, -, -, hanswered, hunanswered, -, hkindName⟩ := h.answers_agree
  have hleaf : c.tables.AnsweredAsLeaf (.int n) n := by
    refine (hanswered _ n hnamed).resolve_right fun hother => ?_
    cases hother.isLeaf.symm.trans (Coherent.isLeaf_eq hnamed hv)
  have habsent : c.tables.AnsweredAsStructure (.word .zeroByte) 0 := by
    refine (hanswered _ 0 hnull).resolve_left fun hother => ?_
    cases hother.isLeaf.symm.trans (Coherent.isLeaf_eq hnull (hc.marker_iff (m := .absent).2 rfl))
  have hunknown : c.tables.unknownId (.bool true) = .unknownId (.bool true) c.tables.nextId :=
    (hunanswered _ htruth).shown (Value.showable_of_inside_eq_nil (by simp) (by simp) rfl)
  have htooLong : c.tables.unknownId .longNumber = .integerTooLong :=
    (hunanswered _ hnode).tooLong fun h => by simpa using Value.showable_node.1 h
  exact ⟨a, b, d, c, n, h, hleaf, (hkindName (fun _ _ => rfl) _).2 hleaf.isLeaf, habsent,
    hunknown ▸ (hunanswered _ htruth).isLeaf, htooLong ▸ (hunanswered _ hnode).isLeaf⟩

end History

end Canonicalizer

end HashConsing
