import HashConsing.Proofs.Meaning
import Mathlib.Data.List.Forall2

/-!
# Trees that look alike

Labeling sees of a tree what its front-end lets it see: the kinds of nodes, and what the
checks of their properties come to. Two trees may differ in everything else. A
`Frontend.Likeness` is a relation between values such that nothing in this view tells related
values apart, and that holds again between the nodes found below them.

Trees that look alike are labeled alike (`Likeness.label_alike`): with the same result, be it a
tree or a failure, and with the same effect on the tables. What the tables keep of the values
themselves, the first value for each leaf key, may differ, but only up to the key.

The argument has two halves. A `Blind` builder uses nothing of the values it is given, so it
cannot tell such trees apart (`Likeness.buildNode`): both are gone through in the same steps.
Labeling is not blind, but all it does with values is to keep and to report them, so it simulates
a builder that is (`Builder.blinded`).
-/

namespace HashConsing

open Ending

/-! ## What checks come to -/

/-- **Failures that say the same**: they are the same, but for a value that is refused, of which
only the type counts. -/
inductive Failure.Alike : Failure → Failure → Prop where
  | refl (failure : Failure) : Alike failure failure
  | mismatch (kind property expected : String) {v w : Value} (h : v.typeName = w.typeName) :
    Alike (.shapeMismatch kind property expected v) (.shapeMismatch kind property expected w)

/-- **Failures that say the same have the same message.** -/
theorem Failure.Alike.message_eq {failure failure' : Failure} (h : failure.Alike failure') :
    failure.message = failure'.message := by
  cases h with
  | refl => rfl
  | mismatch kind property expected hvw => simp only [message, shapeText, hvw]

/-- **Checks that come to the same**: both fail and say the same, or both pass and what they give
is related. -/
def SameCheck {α β : Type} (R : α → β → Prop) : Except Failure α → Except Failure β → Prop :=
  SameOutcome Failure.Alike R

/-- A check comes to the same as itself. -/
theorem SameCheck.refl {α : Type} (outcome : Except Failure α) : SameCheck Eq outcome outcome := by
  cases outcome with
  | error failure => exact Failure.Alike.refl failure
  | ok a => rfl

/-- Checks that come to the same give the same, or fail with the same message. -/
theorem SameCheck.mapError_message {α : Type} {x y : Except Failure α} (h : SameCheck Eq x y) :
    x.mapError Failure.message = y.mapError Failure.message := by
  cases x with
  | error failure =>
    obtain ⟨failure', rfl, halike⟩ := h.exists_error
    exact congrArg Except.error halike.message_eq
  | ok a =>
    obtain ⟨_, rfl, rfl⟩ := h.exists_ok
    rfl

section Likeness

variable (fe : Frontend) (R : Value → Value → Prop)

/-- Two values in a place for a node are checked alike: the place is empty both times, holds
related nodes, or is refused in the same way. -/
def Frontend.SameSlot (kind : String) (p : Property) (expected : String) (v w : Value) : Prop :=
  SameCheck (Option.Rel R) (fe.slot kind p expected v) (fe.slot kind p expected w)

/-- Two values of a property are checked alike. -/
def Frontend.SameProperty (kind : String) (p : Property) (v w : Value) : Prop :=
  match p.kind with
  | .leaf => SameCheck Eq (fe.leafKey kind p v) (fe.leafKey kind p w)
  | .child => fe.SameSlot R kind p Expected.optionalNode v w
  | .childList => SameCheck (List.Forall₂ (fe.SameSlot R kind p Expected.nodeList))
      (listItems kind p v) (listItems kind p w)

/-- **A likeness** relates values of the same kind whose properties are checked alike. -/
structure Frontend.Likeness : Prop where
  kind : ∀ {v w}, R v w → fe.kindOf v = fe.kindOf w
  property : ∀ {v w ps p}, R v w → fe.properties? (fe.kindOf v) = some ps → p ∈ ps →
    fe.SameProperty R (fe.kindOf v) p (fe.read v p) (fe.read w p)

end Likeness

/-! ## Blind builders -/

/-- **A builder is blind** if it makes nothing of values but what their keys and kinds tell. -/
structure Builder.Blind {σ τ : Type} (b : Builder σ τ) : Prop where
  leaf : ∀ key v w, b.leaf key v = b.leaf key w
  list : ∀ items items', b.list items = b.list items'
  node : ∀ v w, b.node v = b.node w

/-- **Endings that come to the same**: the states are equal, and the outcomes say the same. -/
structure Ending.Alike {σ α : Type} (e e' : Ending σ α) : Prop where
  outcome : SameCheck Eq e.1 e'.1
  state : e.2 = e'.2

namespace Ending.Alike

variable {σ α β : Type}

theorem refl (e : Ending σ α) : e.Alike e := ⟨.refl e.1, rfl⟩

section Cases

variable {e : Ending σ α} {s : σ}

/-- What comes to the same as a success is this success. -/
theorem eq_ok {a : α} (h : Ending.Alike (.ok a, s) e) : e = (.ok a, s) := by
  obtain ⟨_ | _, _⟩ := e <;> obtain ⟨houtcome, rfl⟩ := h
  · exact houtcome.elim
  · exact Prod.ext (congrArg Except.ok (Eq.symm houtcome)) rfl

/-- What comes to the same as a failure is a failure that says the same. -/
theorem exists_error {failure : Failure} (h : Ending.Alike (.error failure, s) e) :
    ∃ failure', e = (.error failure', s) ∧ failure.Alike failure' := by
  obtain ⟨failure' | _, _⟩ := e <;> obtain ⟨houtcome, rfl⟩ := h
  · exact ⟨failure', rfl, houtcome⟩
  · exact houtcome.elim

end Cases

/-- Going on from endings that come to the same comes to the same. -/
theorem andThen {e e' : Ending σ α} (h : e.Alike e') (next : α → σ → Ending σ β) :
    (e.andThen next).Alike (e'.andThen next) := by
  obtain ⟨_ | a, s⟩ := e <;> obtain ⟨_ | a', s'⟩ := e' <;> obtain ⟨houtcome, rfl⟩ := h
  · exact ⟨houtcome, rfl⟩
  · exact houtcome.elim
  · exact houtcome.elim
  · obtain rfl : a = a' := houtcome
    exact refl _

end Ending.Alike

section Blind

variable {σ τ : Type} (fe : Frontend) (R : Value → Value → Prop) (b : Builder σ τ)

/-- **What the recursion does with parts that look alike**: it comes to the same from the same
state on. -/
def Frontend.likenessAccount : Account σ τ where
  node v s e := ∀ w, R v w → ∃ e', (Account.recursion fe b).node w s e' ∧ e.Alike e'
  properties v ps s e := ∀ w, fe.kindOf v = fe.kindOf w →
    (∀ p ∈ ps, fe.SameProperty R (fe.kindOf v) p (fe.read v p) (fe.read w p)) →
    ∃ e', (Account.recursion fe b).properties w ps s e' ∧ e.Alike e'
  property v p s e := ∀ w, fe.kindOf v = fe.kindOf w →
    fe.SameProperty R (fe.kindOf v) p (fe.read v p) (fe.read w p) →
    ∃ e', (Account.recursion fe b).property w p s e' ∧ e.Alike e'
  items kind p items s e := ∀ items',
    List.Forall₂ (fe.SameSlot R kind p Expected.nodeList) items items' →
    ∃ e', (Account.recursion fe b).items kind p items' s e' ∧ e.Alike e'
  slot kind p expected v s e := ∀ w, fe.SameSlot R kind p expected v w →
    ∃ e', (Account.recursion fe b).slot kind p expected w s e' ∧ e.Alike e'

variable {fe R b}

/-- **A blind builder goes through what looks alike in the same steps.** -/
theorem Frontend.Likeness.rules (hR : fe.Likeness R) (hb : b.Blind) :
    (fe.likenessAccount R b).Rules fe b where
  unknownKind hps w hvw := by
    rw [hR.kind hvw] at hps ⊢
    exact ⟨_, (Account.rules_recursion fe b).unknownKind hps, .refl _⟩
  node {v ps s e} hps h w hvw := by
    obtain ⟨e', he', hends⟩ := h w (hR.kind hvw) fun p hp => hR.property hvw hps hp
    have hnode : b.node v (fe.kindOf v) = b.node w (fe.kindOf w) := by
      rw [hb.node v w, hR.kind hvw]
    rw [hR.kind hvw] at hps
    refine ⟨_, (Account.rules_recursion fe b).node hps he', ?_⟩
    rw [hnode]
    exact hends.andThen _
  noProperties w _ _ := ⟨_, (Account.rules_recursion fe b).noProperties, .refl _⟩
  failedProperty h w hkind hsame := by
    obtain ⟨_, he', hends⟩ := h w hkind (hsame _ List.mem_cons_self)
    obtain ⟨failure', rfl, hfailure⟩ := hends.exists_error
    exact ⟨_, (Account.rules_recursion fe b).failedProperty he', hfailure, rfl⟩
  nextProperty hp h w hkind hsame := by
    obtain ⟨_, he', hfirst⟩ := hp w hkind (hsame _ List.mem_cons_self)
    obtain rfl := hfirst.eq_ok
    obtain ⟨e', hrest, hends⟩ := h w hkind fun q hq => hsame q (List.mem_cons_of_mem _ hq)
    exact ⟨_, (Account.rules_recursion fe b).nextProperty he' hrest, hends.andThen _⟩
  badLeaf {v p s failure} hk hkey w hkind hsame := by
    rw [SameProperty, hk, hkey, hkind] at hsame
    obtain ⟨failure', hkey', hfailure⟩ := hsame.exists_error
    exact ⟨_, (Account.rules_recursion fe b).badLeaf hk hkey', hfailure, rfl⟩
  leaf {v p s key} hk hkey w hkind hsame := by
    rw [SameProperty, hk, hkey, hkind] at hsame
    obtain ⟨_, hkey', rfl⟩ := hsame.exists_ok
    rw [hb.leaf key (fe.read v p) (fe.read w p)]
    exact ⟨_, (Account.rules_recursion fe b).leaf hk hkey', .refl _⟩
  child {v p s e} hk h w hkind hsame := by
    rw [SameProperty, hk] at hsame
    obtain ⟨e', he', hends⟩ := h _ hsame
    rw [hkind] at he'
    exact ⟨e', (Account.rules_recursion fe b).child hk he', hends⟩
  noList {v p s} hk hitems w hkind hsame := by
    rw [SameProperty, hk, listItems_eq_error.2 ⟨hitems, rfl⟩, hkind] at hsame
    obtain ⟨failure', hitems', hfailure⟩ := hsame.exists_error
    obtain ⟨hnone, rfl⟩ := listItems_eq_error.1 hitems'
    rw [hkind]
    exact ⟨_, (Account.rules_recursion fe b).noList hk hnone, hfailure, rfl⟩
  list {v p items s e} hk hitems h w hkind hsame := by
    rw [SameProperty, hk, listItems_eq_ok.2 hitems] at hsame
    obtain ⟨items', hitems', hall⟩ := hsame.exists_ok
    obtain ⟨e', he', hends⟩ := h items' hall
    rw [hkind] at he'
    rw [hb.list items items']
    exact ⟨_, (Account.rules_recursion fe b).list hk (listItems_eq_ok.1 hitems') he',
      hends.andThen _⟩
  noItems items' hsame := by
    cases hsame
    exact ⟨_, (Account.rules_recursion fe b).noItems, .refl _⟩
  failedItem h items' hsame := by
    cases hsame with
    | cons hitem hrest =>
      obtain ⟨_, he', hends⟩ := h _ hitem
      obtain ⟨failure', rfl, hfailure⟩ := hends.exists_error
      exact ⟨_, (Account.rules_recursion fe b).failedItem he', hfailure, rfl⟩
  nextItem hitem h items' hsame := by
    cases hsame with
    | cons hfirst hrest =>
      obtain ⟨_, he', hsame⟩ := hitem _ hfirst
      obtain rfl := hsame.eq_ok
      obtain ⟨e', hnext, hends⟩ := h _ hrest
      exact ⟨_, (Account.rules_recursion fe b).nextItem he' hnext, hends.andThen _⟩
  badSlot hslot w hsame := by
    rw [SameSlot, hslot] at hsame
    obtain ⟨failure', hslot', hfailure⟩ := hsame.exists_error
    exact ⟨_, (Account.rules_recursion fe b).badSlot hslot', hfailure, rfl⟩
  emptySlot hslot w hsame := by
    rw [SameSlot, hslot] at hsame
    obtain ⟨_, hslot', ⟨⟩⟩ := hsame.exists_ok
    exact ⟨_, (Account.rules_recursion fe b).emptySlot hslot', .refl _⟩
  slot hslot h w hsame := by
    rw [SameSlot, hslot] at hsame
    obtain ⟨_, hslot', ⟨hR⟩⟩ := hsame.exists_ok
    obtain ⟨e', he', hends⟩ := h _ hR
    exact ⟨e', (Account.rules_recursion fe b).slot hslot' he', hends⟩

/-- **A blind builder makes the same of trees that look alike.** -/
theorem Frontend.Likeness.buildNode (hR : fe.Likeness R) (hb : b.Blind) {v w : Value}
    (hvw : R v w) {s : σ} {e : Ending σ τ} (h : HashConsing.buildNode fe b v s = some e) :
    ∃ e', HashConsing.buildNode fe b w s = some e' ∧ e.Alike e' :=
  (hR.rules hb).holds h w hvw

end Blind

/-! ## Tables up to the values they keep -/

/-- **Tables that tell the same of ids**: only the values that leaf ids stand for may differ. -/
structure Tables.SameIds (t u : Tables) : Prop where
  nextId : t.nextId = u.nextId
  leafIds : t.leafIds = u.leafIds
  shapeIds : t.shapeIds = u.shapeIds
  kindNames : t.kindNames = u.kindNames

/-- **What stands for the same up to leaf keys.** -/
inductive Representation.Alike : Representation → Representation → Prop where
  | marker (m : Marker) : Alike (.marker m) (.marker m)
  | leaf {v w : Value} (h : v.leafKey = w.leafKey) : Alike (.leaf v) (.leaf w)
  | shape (s : Shape) : Alike (.shape s) (.shape s)

namespace Tables

variable {t u : Tables}

theorem SameIds.refl (t : Tables) : t.SameIds t := ⟨rfl, rfl, rfl, rfl⟩

theorem SameIds.symm (h : t.SameIds u) : u.SameIds t :=
  ⟨h.nextId.symm, h.leafIds.symm, h.shapeIds.symm, h.kindNames.symm⟩

theorem SameIds.trans {w : Tables} (h : t.SameIds u) (h' : u.SameIds w) : t.SameIds w :=
  ⟨h.nextId.trans h'.nextId, h.leafIds.trans h'.leafIds, h.shapeIds.trans h'.shapeIds,
    h.kindNames.trans h'.kindNames⟩

theorem SameIds.leafId? (h : t.SameIds u) (key : LeafKey) : t.leafId? key = u.leafId? key := by
  rw [Tables.leafId?, Tables.leafId?, h.leafIds]

theorem SameIds.shapeId? (h : t.SameIds u) (s : Shape) : t.shapeId? s = u.shapeId? s := by
  rw [Tables.shapeId?, Tables.shapeId?, h.shapeIds]

theorem SameIds.addLeaf (h : t.SameIds u) (key : LeafKey) (v w : Value) :
    (t.addLeaf key v).SameIds (u.addLeaf key w) :=
  ⟨congrArg (· + 1) h.nextId, by simp only [Tables.addLeaf, h.leafIds, h.nextId], h.shapeIds,
    congrArg (Array.push · _) h.kindNames⟩

theorem SameIds.addShape (h : t.SameIds u) (s : Shape) : (t.addShape s).SameIds (u.addShape s) :=
  ⟨congrArg (· + 1) h.nextId, h.leafIds, by simp only [Tables.addShape, h.shapeIds, h.nextId],
    congrArg (Array.push · _) h.kindNames⟩

/-- **Coherent tables that tell the same of ids** keep the same for each id, up to leaf keys. -/
theorem SameIds.representations (h : t.SameIds u) (ht : t.Coherent) (hu : u.Coherent) (id : Nat) :
    Option.Rel Representation.Alike t.representations[id]? u.representations[id]? := by
  cases hr : t.representations[id]? with
  | none =>
    have hfree : u.representations[id]? = none := by
      rw [Array.getElem?_eq_none_iff] at hr ⊢
      rwa [hu.size_representations, ← h.nextId, ← ht.size_representations]
    rw [hfree]
    exact .none
  | some r =>
    cases r with
    | marker m =>
      rw [hu.marker_iff.2 (ht.marker_iff.1 hr)]
      exact .some (.marker m)
    | shape s =>
      have hid : u.shapeId? s = some id := h.shapeId? s ▸ ht.shapeId?_iff.2 hr
      rw [hu.shapeId?_iff.1 hid]
      exact .some (.shape s)
    | leaf v =>
      obtain ⟨key, hkey⟩ := ht.leaf_key hr
      have hid : u.leafId? key = some id := h.leafId? key ▸ ht.leafId?_iff.2 ⟨v, hr, hkey⟩
      obtain ⟨w, hw, hkey'⟩ := hu.leafId?_iff.1 hid
      rw [hw]
      exact .some (.leaf (hkey.trans hkey'.symm))

end Tables

/-! ## Labeling, blinded -/

namespace Progress

variable {s s' : Progress} (h : s.tables.SameIds s'.tables) (report report' : Nat → Report)

include h

/-- The id of a leaf is handed out in the same way, whatever its value is. -/
theorem internLeaf_sameIds (key : LeafKey) (v w : Value) :
    let r := s.internLeaf key v report
    let r' := s'.internLeaf key w report'
    r.2.tables.SameIds r'.2.tables ∧ r.1 = r'.1 := by
  unfold internLeaf
  rw [← h.leafId? key]
  cases s.tables.leafId? key with
  | some id => exact ⟨h, rfl⟩
  | none => exact ⟨h.addLeaf key v w, h.nextId⟩

/-- The id of a shape is handed out in the same way, whatever is reported of it. -/
theorem internShape_sameIds (shape : Shape) :
    let r := s.internShape shape report
    let r' := s'.internShape shape report'
    r.2.tables.SameIds r'.2.tables ∧ r.1 = r'.1 := by
  unfold internShape
  rw [← h.shapeId? shape]
  cases s.tables.shapeId? shape with
  | some id => exact ⟨h, rfl⟩
  | none => exact ⟨h.addShape shape, h.nextId⟩

end Progress

/-- **Labeling that is not shown any values.** -/
def Builder.blinded (reporter : Reporter) : Builder Progress (Rose Nat) where
  absent s := (absentTree, s)
  leaf key _ := leafTree reporter key .null
  list _ := listTree reporter []
  node _ := nodeTree reporter .null

theorem Builder.blind_blinded (reporter : Reporter) : (Builder.blinded reporter).Blind :=
  ⟨fun _ _ _ => rfl, fun _ _ => rfl, fun _ _ => rfl⟩

/-- **Labeling with values and without**: states correspond if the tables tell the same of ids,
and trees if they are equal. -/
def blinding (reporter : Reporter) :
    Simulation (Builder.trees reporter) (Builder.blinded reporter) where
  states x := x.1.tables.SameIds x.2.tables
  later _ _ := True
  results _ T U := T = U
  later_refl _ := trivial
  later_trans _ _ := trivial
  results_later _ h := h
  absent hx := ⟨hx, trivial, rfl⟩
  leaf {x v key} hx _ := by
    obtain ⟨ht, hid⟩ := Progress.internLeaf_sameIds hx (reporter.reportLeaf v)
      (reporter.reportLeaf .null) key v .null
    exact ⟨ht, trivial, congrArg (Rose.node · []) hid⟩
  list {x items Ts Us} hx hTU := by
    obtain rfl : Ts = Us := List.forall₂_eq_eq_eq ▸ hTU
    obtain ⟨ht, hid⟩ := Progress.internShape_sameIds hx
      (reporter.reportList items (.list (Ts.map Rose.value)))
      (reporter.reportList [] (.list (Ts.map Rose.value))) (.list (Ts.map Rose.value))
    exact ⟨ht, trivial, congrArg (Rose.node · Ts) hid⟩
  node {x v kind Ts Us} hx hTU := by
    obtain rfl : Ts = Us := List.forall₂_eq_eq_eq ▸ hTU
    obtain ⟨ht, hid⟩ := Progress.internShape_sameIds hx
      (reporter.reportNode v kind (.node kind (Ts.map Rose.value)))
      (reporter.reportNode .null kind (.node kind (Ts.map Rose.value)))
      (.node kind (Ts.map Rose.value))
    exact ⟨ht, trivial, congrArg (Rose.node · Ts) hid⟩

/-- **Labelings that come to the same**, up to leaf keys: the results are equal trees or failures
that say the same, the tables tell the same of ids, and keep the same for each id up to leaf
keys. -/
structure Labeled.Alike (a b : Labeled) : Prop where
  result : SameCheck Eq a.result b.result
  sameIds : a.canonicalizer.tables.SameIds b.canonicalizer.tables
  representations : ∀ id : Nat, Option.Rel Representation.Alike
    a.canonicalizer.tables.representations[id]? b.canonicalizer.tables.representations[id]?

/-- **Trees that look alike are labeled alike.** -/
theorem Canonicalizer.label_alike (c : Canonicalizer) (hc : c.tables.Coherent)
    {R : Value → Value → Prop} (hR : c.frontend.Likeness R) {v w : Value} (hvw : R v w)
    (hv : c.frontend.Finite v) :
    ∃ a b, c.label v = some a ∧ c.label w = some b ∧ a.Alike b := by
  obtain ⟨e, he⟩ := exists_buildNode (.trees c.reporter) hv ⟨c.tables, .empty⟩
  have hsame : (blinding c.reporter).states (⟨c.tables, .empty⟩, ⟨c.tables, .empty⟩) :=
    Tables.SameIds.refl c.tables
  -- From the first tree to what a blinded labeling makes of it, which is the same for the
  -- second tree, and from there to the second tree.
  obtain ⟨m, hm, hem⟩ := (blinding c.reporter).buildNode hsame he
  obtain ⟨m', hm', hmm'⟩ := hR.buildNode (Builder.blind_blinded c.reporter) hvw hm
  obtain ⟨f, hf, hfm⟩ := (blinding c.reporter).symm.buildNode
    (x := (⟨c.tables, .empty⟩, ⟨c.tables, .empty⟩)) hsame hm'
  have hlabel : c.label v = some (c.conclude e) :=
    congrArg (Option.map c.conclude) ((label_eq_recursion _ _ _ _).trans he)
  have hlabel' : c.label w = some (c.conclude f) :=
    congrArg (Option.map c.conclude) ((label_eq_recursion _ _ _ _).trans hf)
  have hids : (c.conclude e).canonicalizer.tables.SameIds (c.conclude f).canonicalizer.tables :=
    Tables.SameIds.trans hem.states (hmm'.state ▸ hfm.states.symm)
  obtain ⟨-, -, hcoherent, -⟩ := label_spec hc hlabel
  obtain ⟨-, -, hcoherent', -⟩ := label_spec hc hlabel'
  refine ⟨_, _, hlabel, hlabel', ?_, hids, hids.representations hcoherent hcoherent'⟩
  have heq : e.1 = m.1 := hem.outcome.eq
  have heq' : m'.1 = f.1 := (hfm.outcome.imp id Eq.symm).eq
  show SameCheck Eq e.1 f.1
  rw [heq, ← heq']
  exact hmm'.outcome

end HashConsing
