import HashConsing.Proofs.Loop

/-!
# The trail of a recursion

A recursion over a syntax tree makes leaves, lists and nodes one after the other,
and each of them in the state that the one before has left. A `Trail` is a record
of this: what was made on the way from one state to another, each thing with the
kind of place it was made for. It keeps what the checks on the way have found out:
a leaf has a key, and a node has a known kind and was made of one thing for each
property of that kind, made for that property.

Whatever recursion does, and however it ends, there is a trail of it
(`Trailed.buildNode`), as the rules of the recursion are rules for trails. So what
holds along all trails holds of all recursions, also of those that fail in the
middle: it is shown by induction on the trail.
-/

namespace HashConsing

open Ending

variable {σ τ α β : Type}

/-- **A trail of a builder**: on the way from one state to another it made some
things, from left to right, for places of some kinds. -/
inductive Trail (fe : Frontend) (b : Builder σ τ) :
    σ → List PropertyKind → List τ → σ → Prop where
  | nil (s : σ) : Trail fe b s [] [] s
  | cons {s s' s'' : σ} {place : PropertyKind} {t : τ} {places : List PropertyKind} {ts : List τ}
      (first : Trail fe b s [place] [t] s') (rest : Trail fe b s' places ts s'') :
      Trail fe b s (place :: places) (t :: ts) s''
  /-- Nothing in a place for a node. -/
  | absent (s : σ) : Trail fe b s [.child] [(b.absent s).1] (b.absent s).2
  | leaf {key : LeafKey} {v : Value} (s : σ) (hkey : v.leafKey = .ok key) :
      Trail fe b s [.leaf] [(b.leaf key v s).1] (b.leaf key v s).2
  /-- A list, after what is in it. -/
  | list {s s' : σ} {items : List Value} {ts : List τ}
      (below : Trail fe b s (items.map fun _ => .child) ts s') :
      Trail fe b s [.childList] [(b.list items ts s').1] (b.list items ts s').2
  /-- A node, after its properties. -/
  | node {s s' : σ} {v : Value} {ps : List Property} {ts : List τ}
      (known : fe.properties? (fe.kindOf v) = some ps)
      (below : Trail fe b s (ps.map Property.kind) ts s') :
      Trail fe b s [.child] [(b.node v (fe.kindOf v) ts s').1] (b.node v (fe.kindOf v) ts s').2

variable (fe : Frontend) (b : Builder σ τ)

/-- **An ending with a trail.** What a failure leaves behind was made for places of
any kinds. -/
def Trailed (s : σ) (places : List PropertyKind) (made : α → List τ) : Ending σ α → Prop
  | (.ok a, s') => Trail fe b s places (made a) s'
  | (.error _, s') => ∃ places ts, Trail fe b s places ts s'

variable {fe b} {s : σ}

namespace Trailed

/-- The trail of something made after something else. -/
theorem cons {s' : σ} {t : τ} {place : PropertyKind} {places : List PropertyKind}
    {e : Ending σ (List τ)} (first : Trail fe b s [place] [t] s')
    (h : Trailed fe b s' places id e) :
    Trailed fe b s (place :: places) id (e.andThen fun ts s => (.ok (t :: ts), s)) := by
  obtain ⟨_ | ts, s''⟩ := e
  · obtain ⟨ks, us, rest⟩ := h
    exact ⟨_, _, first.cons rest⟩
  · exact first.cons h

/-- The trail of something that is made of other things, which come before it. -/
theorem close {step : List τ → σ → τ × σ} {place : PropertyKind} {places : List PropertyKind}
    {e : Ending σ (List τ)} (h : Trailed fe b s places id e)
    (hstep : ∀ ts s', Trail fe b s places ts s' →
      Trail fe b s [place] [(step ts s').1] (step ts s').2) :
    Trailed fe b s [place] ([·]) (e.andThen fun ts s => .success (step ts s)) := by
  obtain ⟨_ | ts, s'⟩ := e
  · exact h
  · exact hstep ts s' h

variable (fe b) in
/-- **The endings that have a trail**, made for the places that are gone through. -/
def account : Account σ τ where
  node _ s e := Trailed fe b s [.child] ([·]) e
  properties _ ps s e := Trailed fe b s (ps.map Property.kind) id e
  property _ p s e := Trailed fe b s [p.kind] ([·]) e
  items _ _ items s e := Trailed fe b s (items.map fun _ => .child) id e
  slot _ _ _ _ s e := Trailed fe b s [.child] ([·]) e

theorem rules_account : (account fe b).Rules fe b where
  unknownKind _ := ⟨[], [], .nil _⟩
  node hps h := h.close fun _ _ below => .node hps below
  noProperties := .nil _
  failedProperty h := h
  nextProperty hp h := cons hp h
  badLeaf _ _ := ⟨[], [], .nil _⟩
  leaf hk hkey := by
    dsimp only [account]
    rw [hk]
    exact .leaf _ (Frontend.leafKey_eq_ok hkey)
  child hk h := by
    dsimp only [account]
    rw [hk]
    exact h
  noList _ _ := ⟨[], [], .nil _⟩
  list hk hitems h := by
    dsimp only [account]
    rw [hk]
    exact close h fun _ _ below => .list below
  noItems := .nil _
  failedItem h := h
  nextItem hitem h := cons hitem h
  badSlot _ := ⟨[], [], .nil _⟩
  emptySlot _ := .absent _
  slot _ h := h

/-- **Every recursion that ends has a trail**, whether it fails or not. -/
theorem buildNode {v : Value} {ending : Ending σ τ} (h : buildNode fe b v s = some ending) :
    Trailed fe b s [.child] ([·]) ending :=
  rules_account.holds h

end Trailed

/-- **Every labeling that ends has a trail.** -/
theorem Trailed.label {reporter : Reporter} {root : Value} {s : Progress}
    {ending : Ending Progress (Rose Nat)} (h : label fe reporter root s = some ending) :
    Trailed fe (.trees reporter) s [.child] ([·]) ending :=
  Trailed.buildNode ((label_eq_recursion fe reporter root s).symm.trans h)

end HashConsing
