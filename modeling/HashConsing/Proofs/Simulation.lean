import HashConsing.Proofs.Loop
import Mathlib.Data.List.Forall2

/-!
# Two recursions side by side

Two builders that are run over the same syntax tree take the same way through
it, since the way is up to the tree alone. So if what they make of leaves, lists
and nodes corresponds, what they make of whole trees corresponds too, and where
one of them fails the other one fails in the same way.

What *corresponds* means is for a `Simulation` to say. It relates the states of
the two builders and what they have made so far. As states change on the way,
it also says which states can come later, and that what corresponds once still
does later.

The main statement is `Simulation.buildNode`. It is about endings: one of the
recursions is known to end, the other one is shown to. It is an account of the
first recursion, and the second one follows rule by rule.
-/

namespace HashConsing

open Ending

variable {σ σ' τ τ' α α' β β' : Type}

/-- **Outcomes that come to the same**: both are failures that are related, or both are results
that are. -/
def SameOutcome (F : Failure → Failure → Prop) (R : α → α' → Prop) :
    Except Failure α → Except Failure α' → Prop
  | .ok a, .ok a' => R a a'
  | .error failure, .error failure' => F failure failure'
  | _, _ => False

namespace SameOutcome

variable {F : Failure → Failure → Prop} {R : α → α' → Prop} {outcome : Except Failure α'}

theorem exists_error {failure : Failure} (h : SameOutcome F R (.error failure) outcome) :
    ∃ failure', outcome = .error failure' ∧ F failure failure' := by
  cases outcome with
  | error failure' => exact ⟨failure', rfl, h⟩
  | ok b => exact h.elim

theorem exists_ok {a : α} (h : SameOutcome F R (.ok a) outcome) :
    ∃ a', outcome = .ok a' ∧ R a a' := by
  cases outcome with
  | error failure => exact h.elim
  | ok a' => exact ⟨a', rfl, h⟩

theorem imp {F' : Failure → Failure → Prop} {R' : α → α' → Prop} {outcome : Except Failure α}
    {outcome' : Except Failure α'} (h : SameOutcome F R outcome outcome')
    (hF : ∀ {failure failure'}, F failure failure' → F' failure failure')
    (hR : ∀ {a a'}, R a a' → R' a a') : SameOutcome F' R' outcome outcome' := by
  cases outcome <;> cases outcome'
  · exact hF h
  · exact h.elim
  · exact h.elim
  · exact hR h

/-- Outcomes that are the same in all respects are equal. -/
theorem eq {outcome outcome' : Except Failure α} (h : SameOutcome Eq Eq outcome outcome') :
    outcome = outcome' := by
  cases outcome <;> cases outcome'
  · exact congrArg Except.error h
  · exact h.elim
  · exact h.elim
  · exact congrArg Except.ok h

end SameOutcome

/-- **A correspondence between two builders.** -/
structure Simulation (b : Builder σ τ) (c : Builder σ' τ') where
  /-- States that correspond. -/
  states : σ × σ' → Prop
  /-- States that come later than others. -/
  later : σ × σ' → σ × σ' → Prop
  /-- What corresponds among the things made, in given states. -/
  results : σ × σ' → τ → τ' → Prop
  later_refl : ∀ x, later x x
  later_trans : ∀ {x y z}, later x y → later y z → later x z
  results_later : ∀ {x y t u}, later x y → results x t u → results y t u
  absent : ∀ {x}, states x →
    let t := b.absent x.1
    let u := c.absent x.2
    states (t.2, u.2) ∧ later x (t.2, u.2) ∧ results (t.2, u.2) t.1 u.1
  leaf : ∀ {x v key}, states x → v.leafKey = .ok key →
    let t := b.leaf key v x.1
    let u := c.leaf key v x.2
    states (t.2, u.2) ∧ later x (t.2, u.2) ∧ results (t.2, u.2) t.1 u.1
  list : ∀ {x items ts us}, states x → List.Forall₂ (results x) ts us →
    let t := b.list items ts x.1
    let u := c.list items us x.2
    states (t.2, u.2) ∧ later x (t.2, u.2) ∧ results (t.2, u.2) t.1 u.1
  node : ∀ {x v kind ts us}, states x → List.Forall₂ (results x) ts us →
    let t := b.node v kind ts x.1
    let u := c.node v kind us x.2
    states (t.2, u.2) ∧ later x (t.2, u.2) ∧ results (t.2, u.2) t.1 u.1

namespace Simulation

/-- The same correspondence, seen from the other builder. -/
def symm {b : Builder σ τ} {c : Builder σ' τ'} (M : Simulation b c) : Simulation c b where
  states x := M.states x.swap
  later x y := M.later x.swap y.swap
  results x u t := M.results x.swap t u
  later_refl x := M.later_refl x.swap
  later_trans h h' := M.later_trans h h'
  results_later h h' := M.results_later h h'
  absent h := M.absent h
  leaf h hkey := M.leaf h hkey
  list h htus := M.list h htus.flip
  node h htus := M.node h htus.flip

variable {b : Builder σ τ} {c : Builder σ' τ'} (M : Simulation b c)

/-- **Endings that correspond**: the states have come to states that correspond, and the outcomes
are the same failure or results that correspond. -/
structure Endings (R : σ × σ' → α → α' → Prop) (x : σ × σ') (e : Ending σ α)
    (e' : Ending σ' α') : Prop where
  states : M.states (e.2, e'.2)
  later : M.later x (e.2, e'.2)
  outcome : SameOutcome Eq (R (e.2, e'.2)) e.1 e'.1

/-- Lists of things made that correspond one by one. -/
def each (x : σ × σ') : List τ → List τ' → Prop := List.Forall₂ (M.results x)

variable {M} {R : σ × σ' → α → α' → Prop} {S : σ × σ' → β → β' → Prop} {x : σ × σ'}

namespace Endings

theorem ok {a : α} {a' : α'} (hx : M.states x) (h : R x a a') :
    M.Endings R x (.ok a, x.1) (.ok a', x.2) :=
  ⟨hx, M.later_refl x, h⟩

theorem error (failure : Failure) (hx : M.states x) :
    M.Endings R x (.error failure, x.1) (.error failure, x.2) :=
  ⟨hx, M.later_refl x, rfl⟩

/-- Steps that correspond and do not fail end in a corresponding way. -/
theorem success {t : α × σ} {u : α' × σ'}
    (h : M.states (t.2, u.2) ∧ M.later x (t.2, u.2) ∧ R (t.2, u.2) t.1 u.1) :
    M.Endings R x (.success t) (.success u) :=
  ⟨h.1, h.2.1, h.2.2⟩

/-- What corresponds to a failure is the same failure. -/
theorem exists_error {failure : Failure} {s : σ} {e' : Ending σ' α'}
    (h : M.Endings R x (.error failure, s) e') : ∃ s', e' = (.error failure, s') := by
  obtain ⟨_, houtcome, rfl⟩ := h.outcome.exists_error
  exact ⟨e'.2, Prod.ext houtcome rfl⟩

/-- What corresponds to a result is a result. -/
theorem exists_ok {a : α} {s : σ} {e' : Ending σ' α'} (h : M.Endings R x (.ok a, s) e') :
    ∃ a' s', e' = (.ok a', s') := by
  obtain ⟨a', houtcome, -⟩ := h.outcome.exists_ok
  exact ⟨a', e'.2, Prod.ext houtcome rfl⟩

/-- What corresponds ends in a corresponding way also if it goes on from later states. -/
theorem of_later {y : σ × σ'} {e : Ending σ α} {e' : Ending σ' α'} (hxy : M.later x y)
    (h : M.Endings R y e e') : M.Endings R x e e' :=
  ⟨h.states, M.later_trans hxy h.later, h.outcome⟩

/-- **Going on in a corresponding way** with what corresponds. -/
theorem andThen {e : Ending σ α} {e' : Ending σ' α'} {next : α → σ → Ending σ β}
    {next' : α' → σ' → Ending σ' β'} (h : M.Endings R x e e')
    (hnext : ∀ y a a', M.states y → M.later x y → R y a a' →
      M.Endings S y (next a y.1) (next' a' y.2)) :
    M.Endings S x (e.andThen next) (e'.andThen next') := by
  obtain ⟨_ | a, s⟩ := e <;> obtain ⟨_ | a', s'⟩ := e'
  · exact ⟨h.states, h.later, h.outcome⟩
  · exact h.outcome.elim
  · exact h.outcome.elim
  · exact (hnext (s, s') a a' h.states h.later h.outcome).of_later h.later

/-- A list whose head and tail correspond corresponds. -/
theorem cons {s : σ} {s' : σ'} {t : τ} {u : τ'} {e : Ending σ (List τ)} {e' : Ending σ' (List τ')}
    (hfirst : M.Endings M.results x (.ok t, s) (.ok u, s'))
    (hrest : M.Endings M.each (s, s') e e') :
    M.Endings M.each x (e.andThen fun ts s => (.ok (t :: ts), s))
      (e'.andThen fun us s => (.ok (u :: us), s)) := by
  refine (hrest.andThen fun y ts us hy hlater htus => ?_).of_later hfirst.later
  exact ok hy (.cons (M.results_later hlater hfirst.outcome) htus)

end Endings

/-! ## The other recursion goes along -/

variable (M) (fe : Frontend)

/-- **What a second recursion does** from states that correspond: it ends as well, in a
corresponding way. -/
def account : Account σ τ where
  node v s e := ∀ s', M.states (s, s') →
    ∃ e', (Account.recursion fe c).node v s' e' ∧ M.Endings M.results (s, s') e e'
  properties v ps s e := ∀ s', M.states (s, s') →
    ∃ e', (Account.recursion fe c).properties v ps s' e' ∧ M.Endings M.each (s, s') e e'
  property v p s e := ∀ s', M.states (s, s') →
    ∃ e', (Account.recursion fe c).property v p s' e' ∧ M.Endings M.results (s, s') e e'
  items kind p items s e := ∀ s', M.states (s, s') →
    ∃ e', (Account.recursion fe c).items kind p items s' e' ∧ M.Endings M.each (s, s') e e'
  slot kind p expected v s e := ∀ s', M.states (s, s') →
    ∃ e', (Account.recursion fe c).slot kind p expected v s' e' ∧ M.Endings M.results (s, s') e e'

/-- **The second recursion goes along with the first one**, rule by rule. -/
theorem rules_account : (M.account fe).Rules fe b where
  unknownKind hps s' hs := ⟨_, (Account.rules_recursion fe c).unknownKind hps, .error _ hs⟩
  node hps h s' hs := by
    obtain ⟨e', he', hends⟩ := h s' hs
    refine ⟨_, (Account.rules_recursion fe c).node hps he', hends.andThen ?_⟩
    exact fun y ts us hy _ htus => .success (M.node hy htus)
  noProperties s' hs := ⟨_, (Account.rules_recursion fe c).noProperties, .ok hs .nil⟩
  failedProperty h s' hs := by
    obtain ⟨_, he', hends⟩ := h s' hs
    obtain ⟨_, rfl⟩ := hends.exists_error
    exact ⟨_, (Account.rules_recursion fe c).failedProperty he', hends.states, hends.later, rfl⟩
  nextProperty hp h s' hs := by
    obtain ⟨_, he', hends⟩ := hp s' hs
    obtain ⟨u, s'', rfl⟩ := hends.exists_ok
    obtain ⟨e', hrest, hends'⟩ := h s'' hends.states
    exact ⟨_, (Account.rules_recursion fe c).nextProperty he' hrest, hends.cons hends'⟩
  badLeaf hk hkey s' hs := ⟨_, (Account.rules_recursion fe c).badLeaf hk hkey, .error _ hs⟩
  leaf hk hkey s' hs :=
    ⟨_, (Account.rules_recursion fe c).leaf hk hkey,
      .success (M.leaf hs (Frontend.leafKey_eq_ok hkey))⟩
  child hk h s' hs := by
    obtain ⟨e', he', hends⟩ := h s' hs
    exact ⟨e', (Account.rules_recursion fe c).child hk he', hends⟩
  noList hk hitems s' hs := ⟨_, (Account.rules_recursion fe c).noList hk hitems, .error _ hs⟩
  list hk hitems h s' hs := by
    obtain ⟨e', he', hends⟩ := h s' hs
    refine ⟨_, (Account.rules_recursion fe c).list hk hitems he', hends.andThen ?_⟩
    exact fun y ts us hy _ htus => .success (M.list hy htus)
  noItems s' hs := ⟨_, (Account.rules_recursion fe c).noItems, .ok hs .nil⟩
  failedItem h s' hs := by
    obtain ⟨_, he', hends⟩ := h s' hs
    obtain ⟨_, rfl⟩ := hends.exists_error
    exact ⟨_, (Account.rules_recursion fe c).failedItem he', hends.states, hends.later, rfl⟩
  nextItem hitem h s' hs := by
    obtain ⟨_, he', hends⟩ := hitem s' hs
    obtain ⟨u, s'', rfl⟩ := hends.exists_ok
    obtain ⟨e', hrest, hends'⟩ := h s'' hends.states
    exact ⟨_, (Account.rules_recursion fe c).nextItem he' hrest, hends.cons hends'⟩
  badSlot hslot s' hs := ⟨_, (Account.rules_recursion fe c).badSlot hslot, .error _ hs⟩
  emptySlot hslot s' hs :=
    ⟨_, (Account.rules_recursion fe c).emptySlot hslot, .success (M.absent hs)⟩
  slot hslot h s' hs := by
    obtain ⟨e', he', hends⟩ := h s' hs
    exact ⟨e', (Account.rules_recursion fe c).slot hslot he', hends⟩

variable {fe}

/-- **What two builders make of a tree corresponds**: where the first one ends, so does the second
one, in a corresponding way. -/
theorem buildNode {v : Value} (hx : M.states x) {e : Ending σ τ}
    (h : HashConsing.buildNode fe b v x.1 = some e) :
    ∃ e', HashConsing.buildNode fe c v x.2 = some e' ∧ M.Endings M.results x e e' :=
  (M.rules_account fe).holds h x.2 hx

end Simulation

end HashConsing
