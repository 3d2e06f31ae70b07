import HashConsing.Proofs.LeafIdentity
import HashConsing.Proofs.Pieces

/-!
# Defects

Labeling refuses a tree for the first thing that is wrong with it. What is wrong is a matter
of the tree alone: a node of unknown kind, a leaf property that holds a node or a value
without a hash, something that is no node where one belongs, something that is no sequence
where one belongs. `Frontend.NodeDefect` lists all of it, each defect with its position and
with the failure that reports it.

Positions are ways down, as for pieces: the number of a property below a node, the number of
an item below a list. They are ordered lexicographically, so a node comes before what is below
it, and everything below a property or an item comes before the next one. This is the order
in which trees are gone through, and `Frontend.FirstDefect` is the failure at the least
position.

The recursion is followed once, for every builder (`Frontend.reports_buildNode`): it succeeds
if there is no defect, and it fails with the first defect otherwise. As defects say nothing of
the tables or of the reporter, neither has a say in whether labeling succeeds.
-/

namespace HashConsing

open Ending

/-! ## Defects in order -/

section Order

variable {α β : Type}

/-- **A failure is the first of some defects**, which are given by position and failure. -/
def First (D : List Nat → Failure → Prop) (failure : Failure) : Prop :=
  ∃ path, D path failure ∧ ∀ path' failure', D path' failure' →
    path < path' ∨ path = path' ∧ failure = failure'

/-- **An outcome reports some defects**: it is a success if there are none, and the first one
if there are some. -/
def Reports (D : List Nat → Failure → Prop) : Except Failure β → Prop
  | .ok _ => ∀ path failure, ¬ D path failure
  | .error failure => First D failure

/-- **The defects of the entries of a list**, each below the index of its entry. -/
def Each (D : α → List Nat → Failure → Prop) (as : List α) (path : List Nat)
    (failure : Failure) : Prop :=
  ∃ i a below, as[i]? = some a ∧ D a below failure ∧ path = i :: below

variable {D : α → List Nat → Failure → Prop} {E E' : List Nat → Failure → Prop} {a : α}
  {as : List α} {failure : Failure} {path : List Nat}

/-- Defects that are the same are reported the same way. -/
theorem Reports.congr (h : ∀ path failure, E path failure ↔ E' path failure)
    {outcome : Except Failure β} (hE : Reports E outcome) : Reports E' outcome := by
  have heq : E = E' := funext fun path => funext fun failure => propext (h path failure)
  rwa [← heq]

/-- The only defect is the first one. -/
theorem First.only (h : E [] failure)
    (honly : ∀ path' failure', E path' failure' → path' = [] ∧ failure' = failure) :
    First E failure := by
  refine ⟨[], h, fun path' failure' h' => ?_⟩
  obtain ⟨rfl, rfl⟩ := honly path' failure' h'
  exact .inr ⟨rfl, rfl⟩

theorem not_each_nil : ¬ Each D [] path failure := by
  rintro ⟨i, a, below, ha, -⟩
  cases ha

/-- The defects of a list are those of its head and those of its tail. -/
theorem each_cons_iff : Each D (a :: as) path failure ↔
    (∃ below, D a below failure ∧ path = 0 :: below) ∨
      ∃ i below, Each D as (i :: below) failure ∧ path = (i + 1) :: below := by
  constructor
  · rintro ⟨_ | i, b, below, hb, hD, rfl⟩
    · cases hb
      exact .inl ⟨below, hD, rfl⟩
    · exact .inr ⟨i, below, ⟨i, b, below, hb, hD, rfl⟩, rfl⟩
  · rintro (⟨below, hD, rfl⟩ | ⟨i, below, ⟨j, b, below', hb, hD, heq⟩, rfl⟩)
    · exact ⟨0, a, below, rfl, hD, rfl⟩
    · cases heq
      exact ⟨i + 1, b, below, hb, hD, rfl⟩

/-- What is the first defect of the head is the first one of the list. -/
theorem First.head (h : First (D a) failure) : First (Each D (a :: as)) failure := by
  obtain ⟨path, hD, hfirst⟩ := h
  refine ⟨0 :: path, each_cons_iff.2 (.inl ⟨path, hD, rfl⟩), fun path' failure' h' => ?_⟩
  rcases each_cons_iff.1 h' with ⟨below, hD', rfl⟩ | ⟨i, below, -, rfl⟩
  · rcases hfirst below failure' hD' with hlt | ⟨rfl, rfl⟩
    · exact .inl (List.cons_lt_cons_iff.2 (.inr ⟨rfl, hlt⟩))
    · exact .inr ⟨rfl, rfl⟩
  · exact .inl (List.cons_lt_cons_iff.2 (.inl i.succ_pos))

/-- If there are none in the head, the first defect of the tail is the first one of the
list. -/
theorem First.tail (hnone : ∀ path failure, ¬ D a path failure) (h : First (Each D as) failure) :
    First (Each D (a :: as)) failure := by
  obtain ⟨path, hpath, hfirst⟩ := h
  obtain ⟨i, b, below, hb, hD, rfl⟩ := hpath
  refine ⟨(i + 1) :: below, ⟨i + 1, b, below, hb, hD, rfl⟩, fun path' failure' h' => ?_⟩
  rcases each_cons_iff.1 h' with ⟨below', hD', rfl⟩ | ⟨j, below', htail, rfl⟩
  · exact absurd hD' (hnone below' failure')
  · rcases hfirst (j :: below') failure' htail with hlt | ⟨heq, rfl⟩
    · refine .inl (List.cons_lt_cons_iff.2 ?_)
      rcases List.cons_lt_cons_iff.1 hlt with hij | ⟨rfl, hbelow⟩
      · exact .inl (Nat.succ_lt_succ hij)
      · exact .inr ⟨rfl, hbelow⟩
    · cases heq
      exact .inr ⟨rfl, rfl⟩

end Order

section Endings

variable {α σ τ : Type} {D : α → List Nat → Failure → Prop} {E : List Nat → Failure → Prop}
  {a : α} {as : List α}

/-- A last step that never fails reports what was reported before it. -/
theorem Reports.close {ending : Ending σ α} (h : Reports E ending.1) (last : α → σ → τ × σ) :
    Reports E (ending.andThen fun a s => .success (last a s)).1 := by
  obtain ⟨_ | _, _⟩ := ending <;> exact h

/-- **If there are no defects in the head of a list, what reports the defects of its tail reports
those of the list.** -/
theorem Reports.cons (hnone : ∀ path failure, ¬ D a path failure) {ending : Ending σ (List τ)}
    (h : Reports (Each D as) ending.1) (t : τ) :
    Reports (Each D (a :: as)) (ending.andThen fun ts s => (.ok (t :: ts), s)).1 := by
  obtain ⟨failure | ts, s⟩ := ending
  · exact First.tail hnone h
  · intro path failure hD
    rcases each_cons_iff.1 hD with ⟨below, hhead, -⟩ | ⟨i, below, htail, -⟩
    · exact hnone below failure hhead
    · exact h _ failure htail

end Endings

namespace Frontend

section Defects

variable (fe : Frontend)

/-! ## What can be wrong with a tree -/

mutual

/-- **A defect of a node or below it**, at a position and reported by a failure. -/
inductive NodeDefect : Value → List Nat → Failure → Prop where
  | unknownKind {v : Value} (unknown : fe.properties? (fe.kindOf v) = none) :
      NodeDefect v [] (.unknownKind (fe.kindOf v) (fe.unknownReason (fe.kindOf v)))
  | property {v : Value} {ps : List Property} {i : Nat} {p : Property} {path : List Nat}
      {failure : Failure} (known : fe.properties? (fe.kindOf v) = some ps)
      (declared : ps[i]? = some p) (below : PropertyDefect v p path failure) :
      NodeDefect v (i :: path) failure

/-- **A defect of what a property of a node holds**, or below that. -/
inductive PropertyDefect : Value → Property → List Nat → Failure → Prop where
  | leafNode {v : Value} {p : Property} (hk : p.kind = .leaf)
      (hnode : fe.isNode (fe.read v p) = true) :
      PropertyDefect v p [] (mismatch (fe.kindOf v) p Expected.leafValue (fe.read v p))
  | unhashable {v : Value} {p : Property} (hk : p.kind = .leaf)
      (hnode : fe.isNode (fe.read v p) = false) (hvalue : (fe.read v p).Unhashable) :
      PropertyDefect v p [] (mismatch (fe.kindOf v) p Expected.hashableLeaf (fe.read v p))
  | child {v : Value} {p : Property} {path : List Nat} {failure : Failure}
      (hk : p.kind = .child)
      (below : SlotDefect (fe.kindOf v) p Expected.optionalNode (fe.read v p) path failure) :
      PropertyDefect v p path failure
  | noList {v : Value} {p : Property} (hk : p.kind = .childList)
      (hvalue : (fe.read v p).sequence? = none) :
      PropertyDefect v p [] (mismatch (fe.kindOf v) p Expected.nodeList (fe.read v p))
  | item {v w : Value} {p : Property} {items : List Value} {i : Nat} {path : List Nat}
      {failure : Failure} (hk : p.kind = .childList)
      (hitems : (fe.read v p).sequence? = some items) (listed : items[i]? = some w)
      (below : SlotDefect (fe.kindOf v) p Expected.nodeList w path failure) :
      PropertyDefect v p (i :: path) failure

/-- **A defect of what is in a place for a node**, or below that. -/
inductive SlotDefect : String → Property → String → Value → List Nat → Failure → Prop where
  | stray {kind expected : String} {p : Property} {v : Value} (hnull : v.isNull = false)
      (hnode : fe.isNode v = false) :
      SlotDefect kind p expected v [] (mismatch kind p expected v)
  | node {kind expected : String} {p : Property} {v : Value} {path : List Nat}
      {failure : Failure} (hpart : fe.isPart v = true) (below : NodeDefect v path failure) :
      SlotDefect kind p expected v path failure

end

/-- **The failure that reports the first defect** of a tree. -/
def FirstDefect (root : Value) (failure : Failure) : Prop :=
  ∃ path, fe.NodeDefect root path failure ∧
    ∀ path' failure', fe.NodeDefect root path' failure' → ¬ path' < path

/-- **A property of a node holds what is declared of it.** -/
def Fits (v : Value) (p : Property) : Prop :=
  match p.kind with
  | .leaf => fe.isNode (fe.read v p) = false ∧ ¬ (fe.read v p).Unhashable
  | .child => (fe.read v p).isNull = true ∨ fe.isNode (fe.read v p) = true
  | .childList => ∃ items, (fe.read v p).sequence? = some items ∧
      ∀ item ∈ items, item.isNull = true ∨ fe.isNode item = true

/-- **A tree fits its grammar**: all nodes that are found in it are of known kinds, and their
properties hold what is declared of them. -/
structure WellShaped (root : Value) : Prop where
  known : ∀ {path v}, fe.Reaches root path (.node v) → ∃ ps, fe.properties? (fe.kindOf v) = some ps
  fits : ∀ {path v ps p}, fe.Reaches root path (.node v) →
    fe.properties? (fe.kindOf v) = some ps → p ∈ ps → fe.Fits v p

variable {fe} {v : Value} {p : Property}

/-! ## The recursion reports the first defect -/

/-- The defects of a node of known kind are those of its properties. -/
theorem nodeDefect_iff {ps : List Property} (known : fe.properties? (fe.kindOf v) = some ps)
    (path : List Nat) (failure : Failure) :
    Each (fe.PropertyDefect v) ps path failure ↔ fe.NodeDefect v path failure := by
  constructor
  · rintro ⟨i, p, below, declared, hD, rfl⟩
    exact .property known declared hD
  · rintro (unknown | ⟨known', declared, hD⟩)
    · rw [known] at unknown
      cases unknown
    · obtain rfl := Option.some.inj (known.symm.trans known')
      exact ⟨_, _, _, declared, hD, rfl⟩

theorem propertyDefect_child_iff (hk : p.kind = .child) (path : List Nat) (failure : Failure) :
    fe.SlotDefect (fe.kindOf v) p Expected.optionalNode (fe.read v p) path failure
      ↔ fe.PropertyDefect v p path failure := by
  constructor
  · exact .child hk
  · intro h
    cases h with
    | leafNode hk' => simp [hk] at hk'
    | unhashable hk' => simp [hk] at hk'
    | child _ below => exact below
    | noList hk' => simp [hk] at hk'
    | item hk' => simp [hk] at hk'

/-- The defects of a list property that holds a sequence are those of its items. -/
theorem propertyDefect_list_iff {items : List Value} (hk : p.kind = .childList)
    (hitems : (fe.read v p).sequence? = some items) (path : List Nat) (failure : Failure) :
    Each (fe.SlotDefect (fe.kindOf v) p Expected.nodeList) items path failure
      ↔ fe.PropertyDefect v p path failure := by
  constructor
  · rintro ⟨i, w, below, listed, hD, rfl⟩
    exact .item hk hitems listed hD
  · intro h
    cases h with
    | leafNode hk' => simp [hk] at hk'
    | unhashable hk' => simp [hk] at hk'
    | child hk' => simp [hk] at hk'
    | noList _ hvalue => simp [hitems] at hvalue
    | item _ hitems' listed below =>
      obtain rfl := Option.some.inj (hitems.symm.trans hitems')
      exact ⟨_, _, _, listed, below, rfl⟩

/-- The defects of a leaf property. There is at most one, as a value that is a node is not
asked for a key. -/
theorem propertyDefect_leaf_iff (hk : p.kind = .leaf) {path : List Nat} {failure : Failure} :
    fe.PropertyDefect v p path failure ↔ path = [] ∧
      (fe.isNode (fe.read v p) = true ∧
          failure = mismatch (fe.kindOf v) p Expected.leafValue (fe.read v p) ∨
        fe.isNode (fe.read v p) = false ∧ (fe.read v p).Unhashable ∧
          failure = mismatch (fe.kindOf v) p Expected.hashableLeaf (fe.read v p)) := by
  constructor
  · intro h
    cases h with
    | leafNode _ hnode => exact ⟨rfl, .inl ⟨hnode, rfl⟩⟩
    | unhashable _ hnode hvalue => exact ⟨rfl, .inr ⟨hnode, hvalue, rfl⟩⟩
    | child hk' => simp [hk] at hk'
    | noList hk' => simp [hk] at hk'
    | item hk' => simp [hk] at hk'
  · rintro ⟨rfl, ⟨hnode, rfl⟩ | ⟨hnode, hvalue, rfl⟩⟩
    · exact .leafNode hk hnode
    · exact .unhashable hk hnode hvalue

/-- A leaf property reports its defect, if there is one. -/
theorem reports_leafKey (hk : p.kind = .leaf) :
    Reports (fe.PropertyDefect v p) (fe.leafKey (fe.kindOf v) p (fe.read v p)) := by
  unfold leafKey
  by_cases hnode : fe.isNode (fe.read v p) = true
  · rw [if_pos hnode]
    refine First.only (.leafNode hk hnode) fun path' failure' h' => ?_
    obtain ⟨rfl, ⟨-, rfl⟩ | ⟨hnode', -⟩⟩ := (propertyDefect_leaf_iff hk).1 h'
    · exact ⟨rfl, rfl⟩
    · rw [hnode] at hnode'
      cases hnode'
  · rw [if_neg hnode]
    have hnode : fe.isNode (fe.read v p) = false := Bool.eq_false_iff.2 hnode
    have hhash := Value.exists_leafKey_iff (fe.read v p)
    cases hkey : (fe.read v p).leafKey with
    | ok key =>
      rw [hkey] at hhash
      intro path failure h
      obtain ⟨-, ⟨hnode', -⟩ | ⟨-, hvalue, -⟩⟩ := (propertyDefect_leaf_iff hk).1 h
      · rw [hnode] at hnode'
        cases hnode'
      · exact hhash.1 ⟨key, rfl⟩ hvalue
    | error failure =>
      rw [hkey] at hhash
      have hvalue : (fe.read v p).Unhashable := by
        by_contra h
        obtain ⟨key, ⟨⟩⟩ := hhash.2 h
      refine First.only (.unhashable hk hnode hvalue) fun path' failure' h' => ?_
      obtain ⟨rfl, ⟨hnode', -⟩ | ⟨-, -, rfl⟩⟩ := (propertyDefect_leaf_iff hk).1 h'
      · rw [hnode] at hnode'
        cases hnode'
      · exact ⟨rfl, rfl⟩

/-- A list property that holds no sequence has no other defect. -/
theorem first_noList (hk : p.kind = .childList) (hvalue : (fe.read v p).sequence? = none) :
    First (fe.PropertyDefect v p) (mismatch (fe.kindOf v) p Expected.nodeList (fe.read v p)) := by
  refine First.only (.noList hk hvalue) fun path' failure' h' => ?_
  cases h' with
  | leafNode hk' => simp [hk] at hk'
  | unhashable hk' => simp [hk] at hk'
  | child hk' => simp [hk] at hk'
  | noList => exact ⟨rfl, rfl⟩
  | item _ hitems => simp [hvalue] at hitems

section Slot

variable {kind expected : String}

/-- A place for a node that holds something else has no other defect. -/
theorem first_stray {failure : Failure} (h : fe.slot kind p expected v = .error failure) :
    First (fe.SlotDefect kind p expected v) failure := by
  obtain ⟨hnull, hnode, rfl⟩ := eq_mismatch_of_slot h
  refine First.only (.stray hnull hnode) ?_
  rintro path' failure' (_ | ⟨hpart, -⟩)
  · exact ⟨rfl, rfl⟩
  · simp [isPart, hnode] at hpart

/-- An empty place has no defect. -/
theorem not_slotDefect (hnull : v.isNull = true) (path : List Nat) (failure : Failure) :
    ¬ fe.SlotDefect kind p expected v path failure := by
  rintro (⟨hnull', -⟩ | ⟨hpart, -⟩)
  · simp [hnull] at hnull'
  · simp [isPart, hnull] at hpart

/-- A place that holds a node has the defects of the node. -/
theorem slotDefect_iff (hpart : fe.isPart v = true) (path : List Nat) (failure : Failure) :
    fe.NodeDefect v path failure ↔ fe.SlotDefect kind p expected v path failure := by
  refine ⟨.node hpart, ?_⟩
  rintro (⟨-, hnode⟩ | ⟨-, below⟩)
  · simp [isPart, hnode] at hpart
  · exact below

end Slot

section Builders

variable {σ τ : Type} (b : Builder σ τ)

variable (fe) in
/-- **Endings that report the defects** of what was gone through. -/
def reportsAccount : Account σ τ where
  node v _ e := Reports (fe.NodeDefect v) e.1
  properties v ps _ e := Reports (Each (fe.PropertyDefect v) ps) e.1
  property v p _ e := Reports (fe.PropertyDefect v p) e.1
  items kind p items _ e := Reports (Each (fe.SlotDefect kind p Expected.nodeList) items) e.1
  slot kind p expected v _ e := Reports (fe.SlotDefect kind p expected v) e.1

theorem rules_reportsAccount : fe.reportsAccount.Rules fe b where
  unknownKind hps := by
    refine First.only (.unknownKind hps) ?_
    rintro _ _ (_ | ⟨known, -, -⟩)
    · exact ⟨rfl, rfl⟩
    · rw [hps] at known
      cases known
  node hps h := (h.congr (nodeDefect_iff hps)).close _
  noProperties _ _ := not_each_nil
  failedProperty h := First.head h
  nextProperty hp h := h.cons hp _
  badLeaf {v p s failure} hk hkey := by
    have hreports : Reports (fe.PropertyDefect v p)
        (fe.leafKey (fe.kindOf v) p (fe.read v p)) := reports_leafKey hk
    rw [hkey] at hreports
    exact hreports
  leaf {v p s key} hk hkey := by
    have hreports : Reports (fe.PropertyDefect v p)
        (fe.leafKey (fe.kindOf v) p (fe.read v p)) := reports_leafKey hk
    rw [hkey] at hreports
    exact hreports
  child hk h := h.congr (propertyDefect_child_iff hk)
  noList hk hitems := first_noList hk hitems
  list hk hitems h := (h.congr (propertyDefect_list_iff hk hitems)).close _
  noItems _ _ := not_each_nil
  failedItem h := First.head h
  nextItem hitem h := h.cons hitem _
  badSlot hslot := first_stray hslot
  emptySlot hslot := not_slotDefect (isNull_of_slot hslot)
  slot hslot h := by
    obtain ⟨rfl, hpart⟩ := isPart_of_slot hslot
    exact h.congr (slotDefect_iff hpart)

variable {b}

/-- **Every builder reports the defects of a tree**: it succeeds if there are none, and fails
with the first one otherwise. -/
theorem reports_buildNode {s : σ} {ending : Ending σ τ} (h : buildNode fe b v s = some ending) :
    Reports (fe.NodeDefect v) ending.1 :=
  (rules_reportsAccount b).holds h

end Builders

/-! ## Trees that fit their grammar -/

/-- **A defect below something that is found in a tree is a defect of the tree.** -/
theorem NodeDefect.lift {root : Value} {path : List Nat} {piece : Piece}
    (h : fe.Reaches root path piece) : match piece with
      | .leaf _ => True
      | .list items => ∀ {i w below failure}, items[i]? = some w → fe.isPart w = true →
          fe.NodeDefect w below failure → fe.NodeDefect root (path ++ i :: below) failure
      | .node v => ∀ {below failure},
          fe.NodeDefect v below failure → fe.NodeDefect root (path ++ below) failure := by
  induction h with
  | root => exact fun h => h
  | @property path v ps i p piece above known declared offered ih =>
    cases offered with
    | leaf => trivial
    | child hk hpart =>
      intro below failure h
      rw [List.append_assoc]
      exact ih (.property known declared (.child hk (.node hpart h)))
    | childList hk hitems =>
      intro j w below failure listed hpart h
      rw [List.append_assoc]
      exact ih (.property known declared (.item hk hitems listed (.node hpart h)))
  | item above listed hpart ih =>
    intro below failure h
    rw [List.append_assoc]
    exact ih listed hpart h

mutual

/-- Below a node that is found in a tree that fits its grammar there is no defect. -/
theorem NodeDefect.elim {root v : Value} {above path : List Nat} {failure : Failure}
    (hroot : fe.WellShaped root) (hv : fe.Reaches root above (.node v)) :
    ¬ fe.NodeDefect v path failure
  | .unknownKind unknown => by
    obtain ⟨ps, known⟩ := hroot.known hv
    rw [unknown] at known
    cases known
  | .property known declared below => PropertyDefect.elim hroot hv known declared below

/-- Neither is there one in what its properties hold. -/
theorem PropertyDefect.elim {root v : Value} {above path : List Nat} {failure : Failure}
    {ps : List Property} {i : Nat} {p : Property}
    (hroot : fe.WellShaped root) (hv : fe.Reaches root above (.node v))
    (known : fe.properties? (fe.kindOf v) = some ps) (declared : ps[i]? = some p) :
    ¬ fe.PropertyDefect v p path failure
  | .leafNode hk hnode => by
    have hfits := hroot.fits hv known (List.mem_of_getElem? declared)
    simp only [Fits, hk, hnode] at hfits
    cases hfits.1
  | .unhashable hk _ hvalue => by
    have hfits := hroot.fits hv known (List.mem_of_getElem? declared)
    simp only [Fits, hk] at hfits
    exact hfits.2 hvalue
  | .child hk below => by
    have hfits := hroot.fits hv known (List.mem_of_getElem? declared)
    simp only [Fits, hk] at hfits
    exact SlotDefect.elim hroot hfits (fun hpart => hv.property known declared (.child hk hpart))
      below
  | .noList hk hvalue => by
    have hfits := hroot.fits hv known (List.mem_of_getElem? declared)
    simp only [Fits, hk, hvalue] at hfits
    obtain ⟨items, hitems, -⟩ := hfits
    cases hitems
  | .item hk hitems listed below => by
    have hfits := hroot.fits hv known (List.mem_of_getElem? declared)
    simp only [Fits, hk, hitems] at hfits
    obtain ⟨items, ⟨⟩, hall⟩ := hfits
    exact SlotDefect.elim hroot (hall _ (List.mem_of_getElem? listed))
      (fun hpart => (hv.property known declared (.childList hk hitems)).item listed hpart) below

/-- Neither is there one in its places for nodes. -/
theorem SlotDefect.elim {root w : Value} {above path : List Nat} {failure : Failure}
    {kind expected : String} {p : Property} (hroot : fe.WellShaped root)
    (hfits : w.isNull = true ∨ fe.isNode w = true)
    (hreached : fe.isPart w = true → fe.Reaches root above (.node w)) :
    ¬ fe.SlotDefect kind p expected w path failure
  | .stray hnull hnode => by simp [hnull, hnode] at hfits
  | .node hpart below => NodeDefect.elim hroot (hreached hpart) below

end

/-- A property without a defect holds what is declared of it. -/
theorem fits_of_no_defect (hnone : ∀ path failure, ¬ fe.PropertyDefect v p path failure) :
    fe.Fits v p := by
  have hslot : ∀ (expected : String) (w : Value),
      (∀ path failure, ¬ fe.SlotDefect (fe.kindOf v) p expected w path failure) →
        w.isNull = true ∨ fe.isNode w = true := by
    intro expected w h
    by_contra hstray
    obtain ⟨hnull, hnode⟩ := not_or.1 hstray
    exact h _ _ (.stray (Bool.eq_false_iff.2 hnull) (Bool.eq_false_iff.2 hnode))
  unfold Fits
  cases hk : p.kind with
  | leaf =>
    have hnode : fe.isNode (fe.read v p) = false := by
      by_contra h
      exact hnone _ _ (.leafNode hk (Bool.not_eq_false _ ▸ h))
    exact ⟨hnode, fun hvalue => hnone _ _ (.unhashable hk hnode hvalue)⟩
  | child => exact hslot _ _ fun path failure h => hnone _ _ (.child hk h)
  | childList =>
    cases hitems : (fe.read v p).sequence? with
    | none => exact absurd (.noList hk hitems) (hnone _ _)
    | some items =>
      refine ⟨items, rfl, fun item hitem => ?_⟩
      refine hslot Expected.nodeList item fun path failure h => ?_
      obtain ⟨i, listed⟩ := List.mem_iff_getElem?.1 hitem
      exact hnone _ _ (.item hk hitems listed h)

/-- **Trees that fit their grammar are those without a defect.** -/
theorem wellShaped_iff {root : Value} :
    fe.WellShaped root ↔ ∀ path failure, ¬ fe.NodeDefect root path failure := by
  constructor
  · exact fun hroot path failure => NodeDefect.elim hroot .root
  · intro hnone
    constructor
    · intro path v hv
      cases hps : fe.properties? (fe.kindOf v) with
      | some ps => exact ⟨ps, rfl⟩
      | none => exact absurd (NodeDefect.lift hv (.unknownKind hps)) (hnone _ _)
    · intro path v ps p hv known hp
      obtain ⟨i, declared⟩ := List.mem_iff_getElem?.1 hp
      exact fits_of_no_defect fun below failure h =>
        hnone _ _ (NodeDefect.lift hv (.property known declared h))

/-- What reports the defects of a tree succeeds exactly if the tree fits its grammar, and
fails exactly with the first defect. -/
theorem ok_and_error_iff {β : Type} {root : Value} {outcome : Except Failure β}
    (h : Reports (fe.NodeDefect root) outcome) :
    ((∃ b, outcome = .ok b) ↔ fe.WellShaped root) ∧
      ∀ failure, outcome = .error failure ↔ fe.FirstDefect root failure := by
  cases outcome with
  | ok b =>
    have hnone : ∀ path failure, ¬ fe.NodeDefect root path failure := h
    refine ⟨iff_of_true ⟨b, rfl⟩ (wellShaped_iff.2 hnone), fun failure => ?_⟩
    exact iff_of_false nofun fun ⟨path, hD, _⟩ => hnone path failure hD
  | error failure =>
    obtain ⟨path, hD, hfirst⟩ : First (fe.NodeDefect root) failure := h
    refine ⟨iff_of_false nofun fun hroot => wellShaped_iff.1 hroot _ _ hD, fun failure' => ?_⟩
    constructor
    · rintro ⟨⟩
      refine ⟨path, hD, fun path' failure' hD' hlt => ?_⟩
      rcases hfirst path' failure' hD' with hlt' | ⟨rfl, -⟩
      · exact List.lt_asymm hlt hlt'
      · exact List.lt_irrefl _ hlt
    · rintro ⟨path', hD', hleast⟩
      rcases hfirst path' failure' hD' with hlt | ⟨-, rfl⟩
      · exact absurd hlt (hleast path failure hD)
      · rfl

end Defects

end Frontend

namespace Canonicalizer

/-- Labeling reports the defects of a tree. -/
theorem exists_label_reports (c : Canonicalizer) {root : Value} (hroot : c.frontend.Finite root) :
    ∃ labeled, c.label root = some labeled ∧
      Reports (c.frontend.NodeDefect root) labeled.result := by
  obtain ⟨ending, hending⟩ := exists_buildNode (.trees c.reporter) hroot ⟨c.tables, .empty⟩
  have hlabel : HashConsing.label c.frontend c.reporter root ⟨c.tables, .empty⟩ = some ending :=
    (label_eq_recursion _ _ _ _).trans hending
  exact ⟨c.conclude ending, congrArg (Option.map c.conclude) hlabel,
    Frontend.reports_buildNode hending⟩

/-- **Labeling succeeds on the trees that fit their grammar, and fails on every other one with
its first defect.** Neither the tables nor the reporter matter: two canonicalizers of one
front-end, whatever they have labeled before, fail on the same trees in the same way. -/
theorem label_fails_at_first_defect (c : Canonicalizer) {root : Value}
    (hroot : c.frontend.Finite root) :
    ∃ labeled, c.label root = some labeled ∧
      ((∃ T, labeled.result = .ok T) ↔ c.frontend.WellShaped root) ∧
      (∀ failure, labeled.result = .error failure ↔ c.frontend.FirstDefect root failure) ∧
      ∀ c' : Canonicalizer, c'.frontend = c.frontend →
        ∃ labeled', c'.label root = some labeled' ∧
          ∀ failure, labeled'.result = .error failure ↔ labeled.result = .error failure := by
  obtain ⟨labeled, hlabel, hreports⟩ := c.exists_label_reports hroot
  obtain ⟨hok, herror⟩ := Frontend.ok_and_error_iff hreports
  refine ⟨labeled, hlabel, hok, herror, fun c' hfrontend => ?_⟩
  obtain ⟨labeled', hlabel', hreports'⟩ := c'.exists_label_reports (hfrontend ▸ hroot)
  rw [hfrontend] at hreports'
  refine ⟨labeled', hlabel', fun failure => ?_⟩
  rw [(Frontend.ok_and_error_iff hreports').2, herror]

/-- A block with two items that are no nodes is refused for the first one. -/
theorem label_fails_at_first_defect_block :
    let c := create Dialect.blocks.frontend {}
    let root := Value.block 0 [.null, .int 3, .bool true]
    c.frontend.Finite root ∧ ∃ labeled, c.label root = some labeled ∧
      labeled.result = .error (.shapeMismatch "Block" "items" "a list of nodes" (.int 3)) := by
  intro c root
  have hroot : c.frontend.Finite root := Dialect.blocks.finite root
  obtain ⟨labeled, hlabel, -, herror, -⟩ := c.label_fails_at_first_defect hroot
  refine ⟨hroot, labeled, hlabel, (herror _).2 ?_⟩
  have known : c.frontend.properties? (c.frontend.kindOf root) = some [⟨"items", .childList⟩] := rfl
  have hitems : (c.frontend.read root ⟨"items", .childList⟩).sequence?
      = some [.null, .int 3, .bool true] := rfl
  refine ⟨[0, 1], .property known rfl (.item rfl hitems rfl (.stray rfl rfl)), ?_⟩
  intro path failure hD hlt
  rw [← Frontend.nodeDefect_iff known] at hD
  obtain ⟨_ | i, p, below, declared, hD, rfl⟩ := hD
  · cases declared
    rw [← Frontend.propertyDefect_list_iff rfl hitems] at hD
    obtain ⟨_ | i, w, below, listed, hD, rfl⟩ := hD
    · cases listed
      cases hD with
      | stray hnull => cases hnull
      | node hpart => cases hpart
    · simp [List.cons_lt_cons_iff] at hlt
  · cases declared

end Canonicalizer

end HashConsing
