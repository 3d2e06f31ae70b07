import HashConsing.Proofs.GrammarInForce
import HashConsing.Proofs.Likeness

/-!
# What labeling sees of a program

The front-end for Python's syntax trees looks at the properties in force and at nothing else:
positions, ignored properties and attributes nobody declared have no influence. And it does not
always look at what a node holds, but at what that counts as (`Property.counted`). A missing
attribute counts as absent, or as an empty list where a list belongs; a list counts as a tuple
where raw data belongs, and a tuple as a list where nodes do.

`NodesAgree` says that two nodes have the same kind and agree, in this sense, in all properties in
force, down to the leaves. It also covers what a tree may hold against its grammar: there it is
the type of the misplaced value that has to agree, since this is what the failure names.

Nodes that agree look alike to the front-end (`nodesAgree_likeness`), so labeling cannot tell them
apart (`label_nodesAgree`).
-/

namespace HashConsing

/-- A value that is a node. -/
def Value.isNode : Value → Bool
  | node _ _ => true
  | _ => false

/-- **What a property of a node counts as**, by what the node has under its name. -/
def Property.counted (p : Property) (held : Option Value) : Value :=
  match p.kind, held with
  | .leaf, none => .null
  | .leaf, some (.list items) => .tuple items
  | .leaf, some v => v
  | .child, none => .null
  | .child, some v => v
  | .childList, none => .list []
  | .childList, some (.tuple items) => .list items
  | .childList, some v => v

/-! ## Agreement -/

/-- **Two values agree in a place for a node**: there is none, the nodes agree, or there is
something else of the same type. -/
inductive SlotsAgree (R : Value → Value → Prop) : Value → Value → Prop where
  | absent : SlotsAgree R .null .null
  | node {v w : Value} (h : R v w) : SlotsAgree R v w
  | stray {v w : Value} (hv : v.isNode = false) (hw : w.isNode = false)
      (hnull : v.isNull = w.isNull) (htype : v.typeName = w.typeName) : SlotsAgree R v w

/-- **Two values of a property agree.** Raw data agrees if it has the same key. Where there is
no key, or no raw data, or no list although one belongs there, the types agree. -/
inductive ValuesAgree (R : Value → Value → Prop) : PropertyKind → Value → Value → Prop where
  | leaf {v w : Value} {key : LeafKey} (hv : v.isNode = false) (hw : w.isNode = false)
      (hkey : v.leafKey = .ok key) (hkey' : w.leafKey = .ok key) : ValuesAgree R .leaf v w
  | unhashable {v w : Value} {failure failure' : Failure} (hv : v.isNode = false)
      (hw : w.isNode = false) (hkey : v.leafKey = .error failure)
      (hkey' : w.leafKey = .error failure') (htype : v.typeName = w.typeName) :
      ValuesAgree R .leaf v w
  | misplaced {v w : Value} (hv : v.isNode = true) (hw : w.isNode = true)
      (htype : v.typeName = w.typeName) : ValuesAgree R .leaf v w
  | child {v w : Value} (h : SlotsAgree R v w) : ValuesAgree R .child v w
  | childList {items items' : List Value} (h : List.Forall₂ (SlotsAgree R) items items') :
      ValuesAgree R .childList (.list items) (.list items')
  | noList {v w : Value} (hv : v.sequence? = none) (hw : w.sequence? = none)
      (htype : v.typeName = w.typeName) : ValuesAgree R .childList v w

/-- **Two nodes agree** if they are of the same kind and agree in every property in force. -/
inductive NodesAgree (ignored : List String) : Value → Value → Prop where
  | intro {head head' : NodeHead} {attributes attributes' : List (String × Value)}
      (hkind : head.kind = head'.kind)
      (hproperties : ∀ ps, (Frontend.python ignored).properties? head.kind = some ps → ∀ p ∈ ps,
        ValuesAgree (NodesAgree ignored) p.kind (p.counted (attributes.lookup p.name))
          (p.counted (attributes'.lookup p.name))) :
      NodesAgree ignored (.node head attributes) (.node head' attributes')

/-! ## What agrees looks alike -/

section Reading

variable (ignored : List String) (head : NodeHead) (attributes : List (String × Value))
  {p : Property}

theorem Frontend.isNode_python (v : Value) : (Frontend.python ignored).isNode v = v.isNode := by
  cases v <;> rfl

/-- Raw data is read as what it counts as. -/
theorem Frontend.read_python_leaf (hk : p.kind = .leaf) :
    (Frontend.python ignored).read (.node head attributes) p
      = p.counted (attributes.lookup p.name) := by
  have hread : (Frontend.python ignored).read (.node head attributes) p
      = Dialect.freeze ((attributes.lookup p.name).getD .null) := by
    show Dialect.read _ _ _ = _
    unfold Dialect.read
    rw [hk]
    rfl
  unfold Property.counted
  rw [hread, hk]
  cases attributes.lookup p.name with
  | none => rfl
  | some v => cases v <;> rfl

/-- A child is read as what it counts as. -/
theorem Frontend.read_python_child (hk : p.kind = .child) :
    (Frontend.python ignored).read (.node head attributes) p
      = p.counted (attributes.lookup p.name) := by
  have hread : (Frontend.python ignored).read (.node head attributes) p
      = (attributes.lookup p.name).getD .null := by
    show Dialect.read _ _ _ = _
    unfold Dialect.read
    rw [hk]
    rfl
  unfold Property.counted
  rw [hread, hk]
  cases attributes.lookup p.name <;> rfl

/-- A list is read as what it counts as, but for the type of the sequence. -/
theorem Frontend.read_python_childList (hk : p.kind = .childList) :
    (Frontend.python ignored).read (.node head attributes) p
        = p.counted (attributes.lookup p.name)
      ∨ ∃ items, (Frontend.python ignored).read (.node head attributes) p = .tuple items
        ∧ p.counted (attributes.lookup p.name) = .list items := by
  have hread : (Frontend.python ignored).read (.node head attributes) p
      = (attributes.lookup p.name).getD (.list []) := by
    show Dialect.read _ _ _ = _
    unfold Dialect.read
    rw [hk]
    rfl
  unfold Property.counted
  rw [hread, hk]
  cases attributes.lookup p.name with
  | none => exact .inl rfl
  | some v =>
    cases v with
    | tuple items => exact .inr ⟨items, rfl, rfl⟩
    | _ => exact .inl rfl

theorem Frontend.listItems_python (kind : String) (hk : p.kind = .childList) :
    listItems kind p ((Frontend.python ignored).read (.node head attributes) p)
      = listItems kind p (p.counted (attributes.lookup p.name)) := by
  rcases read_python_childList ignored head attributes hk with hread | ⟨items, hread, hcounted⟩
  · rw [hread]
  · rw [hread, hcounted]
    rfl

theorem Frontend.sequence?_python (hk : p.kind = .childList) :
    ((Frontend.python ignored).read (.node head attributes) p).sequence?
      = (p.counted (attributes.lookup p.name)).sequence? := by
  rcases read_python_childList ignored head attributes hk with hread | ⟨items, hread, hcounted⟩
  · rw [hread]
  · rw [hread, hcounted]
    rfl

end Reading

section Agreement

variable {ignored : List String} {v w : Value} (kind : String) (p : Property)

/-- Only nodes agree as nodes. -/
theorem NodesAgree.isNode (h : NodesAgree ignored v w) : v.isNode = true ∧ w.isNode = true := by
  cases h
  exact ⟨rfl, rfl⟩

/-- A node is a part of a tree. -/
theorem Value.isNull_of_isNode (h : v.isNode = true) : v.isNull = false := by
  cases v <;> first | rfl | cases h

/-- Values that agree in a place for a node are checked alike. -/
theorem SlotsAgree.sameSlot (expected : String) (h : SlotsAgree (NodesAgree ignored) v w) :
    (Frontend.python ignored).SameSlot (NodesAgree ignored) kind p expected v w := by
  unfold Frontend.SameSlot Frontend.slot
  rw [Frontend.isNode_python, Frontend.isNode_python]
  cases h with
  | absent => exact .none
  | node h =>
    obtain ⟨hv, hw⟩ := h.isNode
    simp only [hv, hw, Value.isNull_of_isNode hv, Value.isNull_of_isNode hw]
    exact .some h
  | stray hv hw hnull htype =>
    simp only [hv, hw, ← hnull]
    cases v.isNull with
    | true => exact .none
    | false => exact Failure.Alike.mismatch kind p.name expected htype

/-- Raw data that agrees is checked alike. -/
theorem ValuesAgree.leafKey {R : Value → Value → Prop} (h : ValuesAgree R .leaf v w) :
    SameCheck Eq ((Frontend.python ignored).leafKey kind p v)
      ((Frontend.python ignored).leafKey kind p w) := by
  unfold Frontend.leafKey
  rw [Frontend.isNode_python, Frontend.isNode_python]
  cases h with
  | leaf hv hw hkey hkey' =>
    simp only [hv, hw, hkey, hkey']
    exact .refl _
  | unhashable hv hw hkey hkey' htype =>
    simp only [hv, hw, hkey, hkey']
    exact Failure.Alike.mismatch kind p.name Expected.hashableLeaf htype
  | misplaced hv hw htype =>
    simp only [hv, hw, if_true]
    exact Failure.Alike.mismatch kind p.name Expected.leafValue htype

/-- Lists that agree are checked alike. -/
theorem ValuesAgree.listItems (h : ValuesAgree (NodesAgree ignored) .childList v w) :
    SameCheck (List.Forall₂
        ((Frontend.python ignored).SameSlot (NodesAgree ignored) kind p Expected.nodeList))
      (HashConsing.listItems kind p v) (HashConsing.listItems kind p w) := by
  unfold HashConsing.listItems
  cases h with
  | childList h => exact h.imp fun _ _ h => h.sameSlot kind p Expected.nodeList
  | noList hv hw htype =>
    simp only [hv, hw]
    exact Failure.Alike.mismatch kind p.name Expected.nodeList htype

end Agreement

/-- **Nodes that agree look alike.** -/
theorem nodesAgree_likeness (ignored : List String) :
    (Frontend.python ignored).Likeness (NodesAgree ignored) where
  kind h := by
    cases h with
    | intro hkind => exact hkind
  property {v w ps p} h hps hp := by
    cases h with
    | @intro head head' attributes attributes' hkind hproperties =>
      have hagree := hproperties ps hps p hp
      unfold Frontend.SameProperty
      cases hk : p.kind with
      | leaf =>
        rw [Frontend.read_python_leaf ignored head attributes hk,
          Frontend.read_python_leaf ignored head' attributes' hk]
        rw [hk] at hagree
        exact hagree.leafKey _ p
      | child =>
        rw [Frontend.read_python_child ignored head attributes hk,
          Frontend.read_python_child ignored head' attributes' hk]
        rw [hk] at hagree
        cases hagree with
        | child h => exact h.sameSlot _ p Expected.optionalNode
      | childList =>
        dsimp only
        rw [Frontend.listItems_python ignored head attributes _ hk,
          Frontend.listItems_python ignored head' attributes' _ hk]
        rw [hk] at hagree
        exact hagree.listItems _ p

/-! ## Equal values agree -/

section Equal

variable {R : Value → Value → Prop} {v : Value}

theorem SlotsAgree.self (h : v.isNode = true → R v v) : SlotsAgree R v v := by
  cases hv : v.isNode with
  | true => exact .node (h hv)
  | false => exact .stray hv hv rfl rfl

theorem ValuesAgree.self_leaf (R : Value → Value → Prop) (v : Value) : ValuesAgree R .leaf v v := by
  cases hv : v.isNode with
  | true => exact .misplaced hv hv rfl
  | false =>
    cases hkey : v.leafKey with
    | ok key => exact .leaf hv hv hkey hkey
    | error failure => exact .unhashable hv hv hkey hkey rfl

theorem ValuesAgree.self_childList {p : Property} (hk : p.kind = .childList) (held : Option Value)
    (h : ∀ items, (p.counted held).sequence? = some items → ∀ item ∈ items,
      item.isNode = true → R item item) :
    ValuesAgree R .childList (p.counted held) (p.counted held) := by
  cases hitems : (p.counted held).sequence? with
  | none => exact .noList hitems hitems rfl
  | some items =>
    have hlist : p.counted held = .list items := by
      unfold Property.counted at hitems ⊢
      rw [hk] at hitems ⊢
      cases held with
      | none => cases hitems; rfl
      | some v => cases v <;> cases hitems <;> rfl
    rw [hlist]
    exact .childList (List.forall₂_same.2 fun item hitem => .self (h items hitems item hitem))

end Equal

/-- **Every node agrees with itself.** -/
theorem NodesAgree.refl (ignored : List String) {v : Value} (hv : v.isNode = true) :
    NodesAgree ignored v v := by
  have hfinite : (Frontend.python ignored).Finite v := Dialect.finite _ v
  induction hfinite with
  | @intro v _ ih =>
    cases v with
    | node head attributes =>
      refine .intro rfl fun ps hps p hp => ?_
      have hparts : ∀ w ∈ (Frontend.python ignored).parts (.node head attributes) p,
          w.isNode = true → NodesAgree ignored w w := fun w hw => ih ps hps p hp w hw
      have hpart : ∀ {w : Value}, w.isNode = true → (Frontend.python ignored).isPart w = true := by
        intro w hw
        rw [Frontend.isPart, Frontend.isNode_python, hw, Value.isNull_of_isNode hw]
        rfl
      unfold Frontend.parts at hparts
      cases hk : p.kind with
      | leaf => exact .self_leaf _ _
      | child =>
        simp only [hk, Frontend.read_python_child ignored head attributes hk, List.mem_filter,
          List.mem_singleton, and_imp, forall_eq] at hparts
        exact .child (.self fun hnode => hparts (hpart hnode) hnode)
      | childList =>
        refine .self_childList hk _ fun items hitems item hitem hnode => ?_
        rw [← Frontend.sequence?_python ignored head attributes hk] at hitems
        simp only [hk, hitems, Option.getD_some, List.mem_filter, and_imp] at hparts
        exact hparts item hitem (hpart hnode) hnode
    | _ => cases hv

/-! ## Labeling -/

/-- **Labeling sees nothing but what the properties in force count as.** After any labelings of
Python's syntax trees, two nodes that agree are labeled alike, whatever else is different about
them: both labelings come to the same tree, or to failures that say the same with the same
message, and leave the same tables up to leaf keys. -/
theorem label_nodesAgree {ignored : List String} {reporter : Reporter}
    {calls : List Canonicalizer.Call} {c : Canonicalizer}
    (h : (Canonicalizer.create (Frontend.python ignored) reporter).History calls c) {v w : Value}
    (hvw : NodesAgree ignored v w) :
    ∃ a b, c.label v = some a ∧ c.label w = some b ∧ a.Alike b
      ∧ a.result.mapError Failure.message = b.result.mapError Failure.message := by
  have hfe : c.frontend = Frontend.python ignored := h.frontend_eq
  have hlikeness : c.frontend.Likeness (NodesAgree ignored) := hfe ▸ nodesAgree_likeness ignored
  have hfinite : c.frontend.Finite v := hfe ▸ Dialect.finite _ v
  obtain ⟨a, b, ha, hb, halike⟩ :=
    c.label_alike (h.coherent Tables.coherent_empty) hlikeness hvw hfinite
  exact ⟨a, b, ha, hb, halike, halike.result.mapError_message⟩

/-- Two programs of one number, of which the kind is ignored. The second one has a tuple for a
list of statements, a list for the number's tuple, attributes in another order, in other places
and nobody declared, and no list of ignored types. -/
theorem label_nodesAgree_programs :
    let number := fun (ref : Nat) (attributes : List (String × Value)) =>
      Value.node ⟨ref, "Constant", "Constant", none, some "<ast.Constant object at 0x2a>"⟩
        attributes
    let statement := fun (ref : Nat) (attributes : List (String × Value)) =>
      Value.node ⟨ref, "Expr", "Expr", none, some "<ast.Expr object at 0x1f>"⟩ attributes
    let program := fun (ref : Nat) (attributes : List (String × Value)) =>
      Value.node ⟨ref, "Module", "Module", none, some "<ast.Module object at 0x1a>"⟩ attributes
    let v := program 0 [("body", .list [statement 1 [("lineno", .int 1),
      ("value", number 2 [("value", .tuple [.int 3]), ("kind", .text "u")])]]),
      ("type_ignores", .list [])]
    let w := program 3 [("author", .text "x"), ("body", .tuple [statement 4 [
      ("value", number 5 [("value", .list [.int 3])]), ("lineno", .int 7)]])]
    let c := Canonicalizer.create (Frontend.python ["Constant.kind"]) {}
    NodesAgree ["Constant.kind"] v w
      ∧ ∃ a b, c.label v = some a ∧ c.label w = some b ∧ a.Alike b
        ∧ a.result.mapError Failure.message = b.result.mapError Failure.message := by
  intro number statement program v w c
  have hprogram : (Frontend.python ["Constant.kind"]).properties? "Module"
      = some [⟨"body", .childList⟩, ⟨"type_ignores", .childList⟩] :=
    Grammar.properties?_inForce declaredGrammar_properties?.1 rfl
  have hstatement : (Frontend.python ["Constant.kind"]).properties? "Expr"
      = some [⟨"value", .child⟩] :=
    Grammar.properties?_inForce declaredGrammar_properties?.2.1 rfl
  have hnumber : (Frontend.python ["Constant.kind"]).properties? "Constant"
      = some [⟨"value", .leaf⟩] :=
    Grammar.properties?_inForce declaredGrammar_properties?.2.2 rfl
  have hnumbers : NodesAgree ["Constant.kind"]
      (number 2 [("value", .tuple [.int 3]), ("kind", .text "u")])
      (number 5 [("value", .list [.int 3])]) := by
    refine .intro rfl fun ps hps => ?_
    obtain rfl := Option.some.inj (hnumber.symm.trans hps)
    simp only [List.forall_mem_singleton]
    exact .self_leaf _ (.tuple [.int 3])
  have hstatements : NodesAgree ["Constant.kind"]
      (statement 1 [("lineno", .int 1),
        ("value", number 2 [("value", .tuple [.int 3]), ("kind", .text "u")])])
      (statement 4 [("value", number 5 [("value", .list [.int 3])]), ("lineno", .int 7)]) := by
    refine .intro rfl fun ps hps => ?_
    obtain rfl := Option.some.inj (hstatement.symm.trans hps)
    simp only [List.forall_mem_singleton]
    exact .child (.node hnumbers)
  have hagree : NodesAgree ["Constant.kind"] v w := by
    refine .intro rfl fun ps hps => ?_
    obtain rfl := Option.some.inj (hprogram.symm.trans hps)
    simp only [List.forall_mem_cons, List.not_mem_nil, false_implies, implies_true, and_true]
    exact ⟨.childList (.cons (.node hstatements) .nil), .childList .nil⟩
  exact ⟨hagree, label_nodesAgree .nil hagree⟩

end HashConsing
