import HashConsing.Failure.Message
import HashConsing.LeafKey
import Mathlib.Data.List.Forall2

/-!
# What can be written

Writing a value fails in one way only: an integer in it has too many digits. Integers stand in a
value at any depth, inside tuples, lists, sets and dictionaries; where they stand in a node, the
text of the node is missing. `Value.Showable` says that there is nothing of this kind, and the
text of a value is there exactly if the value is showable (`Value.quoted_writesIff`).

For a leaf it can be seen from its key whether it is showable, so it does not matter which of
several values with a key is shown (`Value.writable_iff`).

Texts are written one after the other, and a failure ends the writing. So what is written
of several parts is there exactly if each of them can be written: `WritesIff.bind`.
-/

namespace HashConsing

/-! ## Writing under a condition -/

/-- **What is written exactly under a condition.** Otherwise an integer is too long. -/
inductive WritesIff (p : Prop) {α : Type} : Except Failure α → Prop where
  | ok (h : p) (a : α) : WritesIff p (.ok a)
  | error (h : ¬p) : WritesIff p (.error .integerTooLong)

namespace WritesIff

variable {p q : Prop} {α β : Type} {x : Except Failure α}

theorem congr (h : WritesIff p x) (hpq : p ↔ q) : WritesIff q x := propext hpq ▸ h

/-- What is written exists under the condition. -/
theorem exists_ok (h : WritesIff p x) (hp : p) : ∃ a, x = .ok a := by
  cases h with
  | ok _ a => exact ⟨a, rfl⟩
  | error hnot => exact absurd hp hnot

/-- Writing fails without the condition, and in the one way there is. -/
theorem eq_error (h : WritesIff p x) (hp : ¬p) : x = .error .integerTooLong := by
  cases h with
  | ok h _ => exact absurd h hp
  | error _ => rfl

/-- Where something is written, the condition holds. -/
theorem of_eq_ok (h : WritesIff p x) {a : α} (hx : x = .ok a) : p := by
  cases h with
  | ok h _ => exact h
  | error _ => cases hx

/-- Writing fails in no other way. -/
theorem failure_eq (h : WritesIff p x) {failure : Failure} (hx : x = .error failure) :
    failure = .integerTooLong := by
  cases h with
  | ok _ _ => cases hx
  | error _ => exact (Except.error.inj hx).symm

/-- **Writing one thing after another.** -/
theorem bind {f : α → Except Failure β} (h : WritesIff p x) (hf : ∀ a, WritesIff q (f a)) :
    WritesIff (p ∧ q) (x >>= f) := by
  cases h with
  | ok hp a => exact (hf a).congr (iff_and_self.2 fun _ => hp)
  | error hp => exact .error fun hpq => hp hpq.1

/-- What is made of something written. -/
theorem map (h : WritesIff p x) (f : α → β) : WritesIff p (do return f (← x)) := by
  cases h with
  | ok hp a => exact .ok hp (f a)
  | error hp => exact .error hp

end WritesIff

/-! ## Values -/

namespace Value

/-- The values that are shown inside a value. What is inside a node is not shown on its own: the
node has a text, or it has none. -/
def inside : Value → List Value
  | tuple items | frozenset items | list items | set items => items
  | dict entries => entries.flatMap fun entry => [entry.1, entry.2]
  | _ => []

/-- **A value is shown with another one**: it is the same, or it is shown inside. -/
inductive Shows : Value → Value → Prop where
  | self (v : Value) : Shows v v
  | inside {v w u : Value} (mem : w ∈ v.inside) (shows : Shows w u) : Shows v u

/-- **Values that can be shown**: no integer that is shown with them is too long, and no node that
is shown with them lacks a text. -/
structure Showable (v : Value) : Prop where
  short : ∀ n, v.Shows (int n) → n.natAbs < Text.integerBound
  texts : ∀ head attributes, v.Shows (node head attributes) → head.text.isSome

/-- A value can be shown if it can be shown by itself, and everything inside it can. -/
theorem showable_iff (v : Value) : v.Showable ↔ (∀ n, v = int n → n.natAbs < Text.integerBound)
    ∧ (∀ head attributes, v = node head attributes → head.text.isSome)
    ∧ ∀ w ∈ v.inside, w.Showable := by
  constructor
  · exact fun h => ⟨fun n hn => h.short n (hn ▸ .self v), fun head attributes hv =>
      h.texts head attributes (hv ▸ .self v), fun w hw => ⟨fun n hn => h.short n (.inside hw hn),
        fun head attributes hs => h.texts head attributes (.inside hw hs)⟩⟩
  · rintro ⟨hshort, htexts, hinside⟩
    constructor
    · rintro n (_ | ⟨mem, hn⟩)
      · exact hshort n rfl
      · exact (hinside _ mem).short n hn
    · rintro head attributes (_ | ⟨mem, hs⟩)
      · exact htexts head attributes rfl
      · exact (hinside _ mem).texts head attributes hs

theorem showable_int {n : Int} : (int n).Showable ↔ n.natAbs < Text.integerBound := by
  rw [showable_iff]
  simp [inside]

theorem showable_node {head : NodeHead} {attributes : List (String × Value)} :
    (node head attributes).Showable ↔ head.text.isSome := by
  rw [showable_iff]
  simp [inside]

/-- What is neither an integer nor a node can be shown if everything inside it can. -/
theorem showable_iff_inside {v : Value} (hint : ∀ n, v ≠ int n)
    (hnode : ∀ head attributes, v ≠ node head attributes) :
    v.Showable ↔ ∀ w ∈ v.inside, w.Showable := by
  rw [showable_iff]
  exact ⟨fun h => h.2.2, fun h => ⟨fun n hn => absurd hn (hint n),
    fun head attributes hv => absurd hv (hnode head attributes), h⟩⟩

/-- What is neither an integer nor a node and has nothing inside can be shown. -/
theorem showable_of_inside_eq_nil {v : Value} (hint : ∀ n, v ≠ int n)
    (hnode : ∀ head attributes, v ≠ node head attributes) (hinside : v.inside = []) :
    v.Showable := by
  rw [showable_iff_inside hint hnode, hinside]
  exact List.forall_mem_nil _

theorem writeInteger_writesIff (n : Int) :
    WritesIff (n.natAbs < Text.integerBound) (Text.writeInteger n) := by
  unfold Text.writeInteger
  split
  next h => exact .ok h _
  next h => exact .error h

mutual

/-- **The quoted text of a value is there exactly if the value can be shown.** -/
theorem quoted_writesIff : ∀ v : Value, WritesIff v.Showable v.quoted
  | .null | .ellipsis | .bool _ | .word _ | .float _ | .complex _ _ | .text _ | .bytes _ =>
    .ok (showable_of_inside_eq_nil (by simp) (by simp) rfl) _
  | .int n => (writeInteger_writesIff n).congr showable_int.symm
  | .node head attributes => by
    rw [quoted]
    cases htext : head.text with
    | none => exact .error fun h => by simpa [htext] using showable_node.1 h
    | some text => exact .ok (showable_node.2 (by rw [htext]; rfl)) text
  | .tuple items =>
    ((quotedEach_writesIff items).map tupleText).congr
      (showable_iff_inside (v := .tuple items) (by simp) (by simp)).symm
  | .frozenset members =>
    ((quotedEach_writesIff members).map _).congr
      (showable_iff_inside (v := .frozenset members) (by simp) (by simp)).symm
  | .list items =>
    ((quotedEach_writesIff items).map _).congr
      (showable_iff_inside (v := .list items) (by simp) (by simp)).symm
  | .set members =>
    ((quotedEach_writesIff members).map setText).congr
      (showable_iff_inside (v := .set members) (by simp) (by simp)).symm
  | .dict entries =>
    ((quotedEntries_writesIff entries).map _).congr
      (showable_iff_inside (v := .dict entries) (by simp) (by simp)).symm

/-- Some values are shown exactly if each of them can be. -/
theorem quotedEach_writesIff : ∀ vs : List Value,
    WritesIff (∀ v ∈ vs, v.Showable) (quotedEach vs)
  | [] => .ok (List.forall_mem_nil _) []
  | v :: vs => by
    rw [quotedEach]
    exact ((quoted_writesIff v).bind fun text =>
      (quotedEach_writesIff vs).map (text :: ·)).congr List.forall_mem_cons.symm

/-- The entries of a dictionary are shown exactly if all their keys and values can be. -/
theorem quotedEntries_writesIff : ∀ entries : List (Value × Value),
    WritesIff (∀ w ∈ (dict entries).inside, w.Showable) (quotedEntries entries)
  | [] => .ok (List.forall_mem_nil _) []
  | (key, v) :: entries => by
    have hinside : (dict ((key, v) :: entries)).inside = key :: v :: (dict entries).inside := rfl
    rw [quotedEntries, hinside, List.forall_mem_cons, List.forall_mem_cons]
    exact (quoted_writesIff key).bind fun shown => (quoted_writesIff v).bind fun text =>
      (quotedEntries_writesIff entries).map ((shown ++ ": " ++ text) :: ·)

end

/-- **The plain text of a value is there exactly if the value can be shown.** -/
theorem plain_writesIff (v : Value) : WritesIff v.Showable v.plain := by
  cases v with
  | text _ | word _ =>
    exact .ok (showable_of_inside_eq_nil (by simp) (by simp) rfl) _
  | _ => exact quoted_writesIff _

/-- **The text of a leaf is there exactly if its value can be shown.** -/
theorem leafText_writesIff (v : Value) : WritesIff v.Showable v.leafText := by
  cases v with
  | null => exact .ok (showable_of_inside_eq_nil (by simp) (by simp) rfl) _
  | _ => exact plain_writesIff _

end Value

/-! ## Messages -/

namespace Failure

theorem idText_writesIff (id : Value) (frontier : String) :
    WritesIff id.Showable (idText id frontier) :=
  id.quoted_writesIff.map _

theorem leafIdText_writesIff (id : Value) : WritesIff id.Showable (leafIdText id) :=
  id.plain_writesIff.map _

/-- **Only an integer that is too long keeps a message from being written.** -/
theorem eq_of_message_eq_error {failure obstacle : Failure}
    (h : failure.message = .error obstacle) : obstacle = .integerTooLong := by
  cases failure with
  | unknownId id frontier => exact (idText_writesIff id _).failure_eq h
  | notALeaf id => exact (leafIdText_writesIff id).failure_eq h
  | unknownKind kind reason =>
    cases reason with
    | none => cases h
    | some reason =>
      change (if (Value.text reason).isTelling then Except.ok _ else Except.ok _) = _ at h
      split at h <;> cases h
  | malformedField kind piece =>
    rw [message_malformedField] at h
    cases h
  | _ => cases h

/-- **Whatever is raised has a message.** -/
theorem exists_message_raised (failure : Failure) :
    ∃ text, failure.raised.message = .ok text := by
  unfold raised
  split
  next text htext => exact ⟨text, htext⟩
  next obstacle hobstacle =>
    rw [eq_of_message_eq_error hobstacle]
    exact ⟨_, rfl⟩

section Raised

variable {failure : Failure} {p : Prop} (h : WritesIff p failure.message)

include h

/-- A failure whose message can be written is raised. -/
theorem raised_eq_self (hp : p) : failure.raised = failure := by
  obtain ⟨text, htext⟩ := h.exists_ok hp
  rw [raised, htext]

/-- A failure whose message cannot be written is not raised. -/
theorem raised_eq_integerTooLong (hp : ¬p) : failure.raised = .integerTooLong := by
  rw [raised, h.eq_error hp]

end Raised

end Failure

/-! ## Keys -/

/-- **Keys of values that can be written**: no integer in them is too long, and no node without a
text. -/
inductive LeafKey.Writable : LeafKey → Prop where
  | atom {a : Atom} (short : ∀ n, a = .int n → n.natAbs < Text.integerBound)
      (texts : ∀ ref shown, a = .node ref shown → shown.isSome) : Writable (atom a)
  | tuple {items : List LeafKey} (each : ∀ key ∈ items, Writable key) : Writable (tuple items)
  | set {members : List LeafKey} (each : ∀ key ∈ members, Writable key) : Writable (set members)

namespace LeafKey

theorem writable_atom {a : Atom} : (atom a).Writable
    ↔ (∀ n, a = .int n → n.natAbs < Text.integerBound)
      ∧ ∀ ref shown, a = .node ref shown → shown.isSome :=
  ⟨fun | .atom short texts => ⟨short, texts⟩, fun h => .atom h.1 h.2⟩

theorem writable_int {n : Int} : (atom (.int n)).Writable ↔ n.natAbs < Text.integerBound := by
  simp [writable_atom]

theorem writable_tuple {items : List LeafKey} :
    (tuple items).Writable ↔ ∀ key ∈ items, key.Writable :=
  ⟨fun | .tuple each => each, .tuple⟩

/-- A set can be written if its members can: which of several values with a key it holds, and
how often, makes no difference. -/
theorem writable_setOf {keys : List LeafKey} :
    (setOf keys).Writable ↔ ∀ key ∈ keys, key.Writable := by
  constructor
  · rintro (_ | _ | each) key hkey
    exact each key (mem_foldr_insertMember.2 hkey)
  · intro each
    exact .set fun key hkey => each key (mem_foldr_insertMember.1 hkey)

end LeafKey

namespace Value

mutual

/-- **The key of a value can be written exactly if the value can be shown.** -/
theorem writable_iff : ∀ {v : Value} {key : LeafKey}, v.leafKey = .ok key →
    (key.Writable ↔ v.Showable)
  | .null, _, hkey | .ellipsis, _, hkey | .bool _, _, hkey | .word _, _, hkey
  | .float _, _, hkey | .complex _ _, _, hkey | .text _, _, hkey | .bytes _, _, hkey => by
    cases hkey
    exact iff_of_true (LeafKey.writable_atom.2 (by simp))
      (showable_of_inside_eq_nil (by simp) (by simp) rfl)
  | .int n, _, hkey => by
    cases hkey
    rw [LeafKey.writable_int, showable_int]
  | .node head attributes, _, hkey => by
    cases hkey
    simp [LeafKey.writable_atom, showable_node]
  | .tuple items, _, hkey => by
    obtain ⟨keys, hkeys, hpure⟩ := Failure.exists_of_bind_eq_ok hkey
    cases hpure
    rw [LeafKey.writable_tuple, writable_each_iff hkeys, showable_iff_inside (by simp) (by simp)]
    rfl
  | .frozenset members, _, hkey => by
    obtain ⟨keys, hkeys, hpure⟩ := Failure.exists_of_bind_eq_ok hkey
    cases hpure
    rw [LeafKey.writable_setOf, writable_each_iff hkeys, showable_iff_inside (by simp) (by simp)]
    rfl

/-- The keys of some values can be written exactly if the values can be shown. -/
theorem writable_each_iff : ∀ {vs : List Value} {keys : List LeafKey}, leafKeys vs = .ok keys →
    ((∀ key ∈ keys, key.Writable) ↔ ∀ v ∈ vs, v.Showable)
  | [], _, hkeys => by
    cases hkeys
    exact iff_of_true (List.forall_mem_nil _) (List.forall_mem_nil _)
  | v :: vs, _, hkeys => by
    obtain ⟨key, hkey, htail⟩ := Failure.exists_of_bind_eq_ok hkeys
    obtain ⟨keys, hrest, hpure⟩ := Failure.exists_of_bind_eq_ok htail
    cases hpure
    rw [List.forall_mem_cons, List.forall_mem_cons, writable_iff hkey, writable_each_iff hrest]

end

/-- **The text of a leaf is there exactly if its key can be written.** -/
theorem leafText_writesIff_writable {v : Value} {key : LeafKey} (hkey : v.leafKey = .ok key) :
    WritesIff key.Writable v.leafText :=
  v.leafText_writesIff.congr (writable_iff hkey).symm

end Value

end HashConsing
