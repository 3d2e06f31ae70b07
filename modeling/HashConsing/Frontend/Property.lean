import HashConsing.Frontend
import HashConsing.LeafKey

/-!
# What properties hold

A property that is declared to hold raw data, a node or a sequence of nodes may
hold something else. Each of the three declarations has one check, which gives
what labeling goes on with or says what is wrong: the kind of the node, the
property, what is expected and what is there instead.
-/

namespace HashConsing

namespace Expected

/-- What a leaf property holds. -/
def leafValue : String := "a leaf value"

/-- What a leaf property holds, if it is no node. -/
def hashableLeaf : String := "a hashable leaf value"

/-- What a child property holds. -/
def optionalNode : String := "a node or None"

/-- What a list property holds. -/
def nodeList : String := "a list of nodes"

end Expected

/-- A property of a kind that does not hold what is expected of it. -/
def mismatch (kind : String) (p : Property) (expected : String) (actual : Value) : Failure :=
  .shapeMismatch kind p.name expected actual

/-- **The items of a list property's value.** -/
def listItems (kind : String) (p : Property) (v : Value) : Except Failure (List Value) :=
  match v.sequence? with
  | some items => .ok items
  | none => .error (mismatch kind p Expected.nodeList v)

theorem listItems_eq_ok {kind : String} {p : Property} {v : Value} {items : List Value} :
    listItems kind p v = .ok items ↔ v.sequence? = some items := by
  unfold listItems
  cases v.sequence? with
  | none => simp
  | some _ => simp

theorem listItems_eq_error {kind : String} {p : Property} {v : Value} {failure : Failure} :
    listItems kind p v = .error failure
      ↔ v.sequence? = none ∧ failure = mismatch kind p Expected.nodeList v := by
  unfold listItems
  cases v.sequence? with
  | none => simp [eq_comm]
  | some _ => simp

namespace Frontend

variable (fe : Frontend)

/-- **The key of a leaf property's value.** -/
def leafKey (kind : String) (p : Property) (v : Value) : Except Failure LeafKey :=
  if fe.isNode v then .error (mismatch kind p Expected.leafValue v)
  else match v.leafKey with
  | .ok key => .ok key
  | .error _ => .error (mismatch kind p Expected.hashableLeaf v)

/-- The key of a leaf property's value is the key of the value. -/
theorem leafKey_eq_ok {fe : Frontend} {kind : String} {p : Property} {v : Value}
    {key : LeafKey} (h : fe.leafKey kind p v = .ok key) : v.leafKey = .ok key := by
  unfold leafKey at h
  split at h
  · cases h
  · split at h
    next heq =>
      cases h
      exact heq
    next => cases h

/-- **The node in a place for one**, none if the place is empty. -/
def slot (kind : String) (p : Property) (expected : String) (v : Value) :
    Except Failure (Option Value) :=
  if v.isNull then .ok none
  else if fe.isNode v then .ok (some v)
  else .error (mismatch kind p expected v)

section Slot

variable {fe : Frontend} {kind : String} {p : Property} {expected : String} {v w : Value}

/-- Only what is absent leaves a place empty. -/
theorem isNull_of_slot (h : fe.slot kind p expected v = .ok none) : v.isNull = true := by
  unfold slot at h
  split at h
  · assumption
  · split at h <;> cases h

/-- What is in a place is the value there, which is a node. -/
theorem isPart_of_slot (h : fe.slot kind p expected v = .ok (some w)) :
    v = w ∧ fe.isPart v = true := by
  unfold slot at h
  split at h
  · cases h
  next hnull =>
    split at h
    next hnode =>
      cases h
      exact ⟨rfl, by simp [isPart, hnull, hnode]⟩
    next => cases h

/-- What is refused in a place is neither absent nor a node. -/
theorem eq_mismatch_of_slot {failure : Failure} (h : fe.slot kind p expected v = .error failure) :
    v.isNull = false ∧ fe.isNode v = false ∧ failure = mismatch kind p expected v := by
  unfold slot at h
  split at h
  · cases h
  next hnull =>
    split at h
    next => cases h
    next hnode =>
      cases h
      exact ⟨Bool.eq_false_iff.2 hnull, Bool.eq_false_iff.2 hnode, rfl⟩

end Slot

end Frontend

end HashConsing
