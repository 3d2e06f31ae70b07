import HashConsing.Frontend

/-!
# Dialects

The front-ends in use differ in little: which grammar they have, which values
they take for nodes, and what they make of a sequence where raw data is
expected. A dialect is a choice of these. A property the node has no attribute
for reads as an empty sequence if nodes are expected there, and as absent
otherwise.

What a dialect reads off a node is a part of the node, so a dialect never goes
down forever: `Dialect.finite`.
-/

namespace HashConsing

/-- **What tells front-ends apart.** -/
structure Dialect where
  /-- The node kinds and their properties. -/
  grammar : Grammar
  /-- The only type of values that count as nodes; with none given, all nodes
  count, whatever their type. -/
  nodeType : Option String
  /-- Sequences that may change are read as tuples where raw data is expected,
  so that they can be leaves. -/
  freezesLeaves : Bool
  /-- Why a kind outside the grammar is unknown. -/
  unknownReason : Option String

namespace Dialect

variable (d : Dialect)

/-- A value that counts as a node. -/
def isNode : Value → Bool
  | .node head _ => match d.nodeType with
    | none => true
    | some name => head.typeName == name
  | _ => false

/-- **The kind of a value.** What is no node has the kind its type is named
after. -/
def kindOf (v : Value) : String :=
  match v with
  | .node head _ => if d.isNode v then head.kind else head.typeName
  | v => v.typeName

/-- The attribute of a node under a name. -/
def attribute? (v : Value) (name : String) : Option Value :=
  match v with
  | .node _ attributes => if d.isNode v then attributes.lookup name else none
  | _ => none

/-- What a property without an attribute reads as. -/
def missing : PropertyKind → Value
  | .childList => .list []
  | _ => .null

/-- A sequence that may change, made one that may not. -/
def freeze : Value → Value
  | .list items => .tuple items
  | v => v

/-- **The value of a property** of a node. -/
def read (v : Value) (p : Property) : Value :=
  let value := (d.attribute? v p.name).getD (missing p.kind)
  if p.kind = .leaf ∧ d.freezesLeaves then freeze value else value

/-- **The front-end of a dialect.** -/
def frontend : Frontend where
  isNode := d.isNode
  kindOf := d.kindOf
  properties? := d.grammar.properties?
  unknownReason _ := d.unknownReason
  read := d.read

/-! ## What is read off a node is a part of it -/

variable {d}

theorem sizeOf_attribute_lt {v w : Value} {name : String}
    (h : d.attribute? v name = some w) : sizeOf w < sizeOf v := by
  unfold attribute? at h
  split at h
  · split at h
    · exact Value.sizeOf_lt_of_lookup h
    · exact absurd h (by simp)
  · exact absurd h (by simp)

/-- A node read as a child is smaller than the node it is read off. -/
theorem sizeOf_read_lt {v : Value} {p : Property} (hk : p.kind = .child)
    (hw : d.isNode (d.read v p) = true) : sizeOf (d.read v p) < sizeOf v := by
  simp only [read, hk, missing, reduceCtorEq, false_and, if_false] at hw ⊢
  cases ha : d.attribute? v p.name with
  | none => simp [ha, isNode] at hw
  | some u => exact sizeOf_attribute_lt ha

/-- An item of a sequence of nodes is smaller than the node the sequence is
read off. -/
theorem sizeOf_item_lt {v item : Value} {items : List Value} {p : Property}
    (hk : p.kind = .childList) (h : (d.read v p).sequence? = some items)
    (hi : item ∈ items) : sizeOf item < sizeOf v := by
  simp only [read, hk, missing, reduceCtorEq, false_and, if_false] at h
  cases ha : d.attribute? v p.name with
  | none =>
    rw [ha] at h
    simp only [Option.getD_none, Value.sequence?, Option.some.injEq] at h
    subst h
    simp at hi
  | some u =>
    rw [ha] at h
    exact Nat.lt_trans (Value.sizeOf_lt_of_mem_sequence h hi) (sizeOf_attribute_lt ha)

theorem sizeOf_part_lt {v w : Value} {p : Property} (h : w ∈ d.frontend.parts v p) :
    sizeOf w < sizeOf v := by
  unfold Frontend.parts at h
  cases hk : p.kind with
  | leaf => simp [hk] at h
  | child =>
    simp only [hk, List.mem_filter, List.mem_singleton, Frontend.isPart, Bool.and_eq_true] at h
    obtain ⟨rfl, -, hn⟩ := h
    exact sizeOf_read_lt hk hn
  | childList =>
    simp only [hk, List.mem_filter] at h
    obtain ⟨hw, -⟩ := h
    cases hs : (d.frontend.read v p).sequence? with
    | none => simp [hs] at hw
    | some items => exact sizeOf_item_lt hk hs (by simpa [hs] using hw)

variable (d) in
/-- **A dialect reads finite trees only.** -/
theorem finite (v : Value) : d.frontend.Finite v :=
  .intro fun _ _ _ _ w _ => finite w
termination_by sizeOf v
decreasing_by exact sizeOf_part_lt ‹_›

end Dialect

end HashConsing
