import HashConsing.Building.Recursion

/-!
# The rules of the recursion

The recursion over a syntax tree is five functions that call each other. What it does is said
here once, as rules: how the ending of each function comes from the endings of those it calls,
with one rule for each way that it can go (`Account.Rules`).

An `Account` says something of the endings of each of the five functions. If it follows the
rules, it is true of every recursion that ends, whether this fails or not
(`Account.Rules.holds`): the rules are all there is to an induction on the recursion. The
recursion follows its own rules, too (`Account.rules_recursion`), so they also tell what to make
of a second recursion that goes along with a first one.
-/

namespace HashConsing

variable {σ τ α β : Type}

namespace Ending

/-- Something made one after the other has failed at the head, or comes to what the tail comes
to. -/
theorem cases_of_cons {x : Option (Ending σ α)} {rest : σ → Option (Ending σ (List α))}
    {ending : Ending σ (List α)}
    (h : (do
      match ← x with
      | (.error failure, s) => return (.error failure, s)
      | (.ok a, s) =>
        let ending ← rest s
        return ending.andThen fun as s => (.ok (a :: as), s)) = some ending) :
    (∃ failure s, x = some (.error failure, s) ∧ ending = (.error failure, s)) ∨
      ∃ a s e, x = some (.ok a, s) ∧ rest s = some e ∧
        ending = e.andThen fun as s => (.ok (a :: as), s) := by
  obtain ⟨⟨failure | a, s⟩, hx, htail⟩ := Option.bind_eq_some_iff.1 h
  · exact .inl ⟨failure, s, hx, (Option.some.inj htail).symm⟩
  · obtain ⟨e, hrest, hlast⟩ := Option.bind_eq_some_iff.1 htail
    exact .inr ⟨a, s, e, hx, hrest, (Option.some.inj hlast).symm⟩

end Ending

/-- **What is said of a recursion**: for each of its functions, which endings it has from which
states on. -/
structure Account (σ τ : Type) where
  node : Value → σ → Ending σ τ → Prop
  properties : Value → List Property → σ → Ending σ (List τ) → Prop
  property : Value → Property → σ → Ending σ τ → Prop
  items : String → Property → List Value → σ → Ending σ (List τ) → Prop
  slot : String → Property → String → Value → σ → Ending σ τ → Prop

namespace Account

/-- **The rules of the recursion**: an account says what each step makes of what it says of the
steps below. -/
structure Rules (A : Account σ τ) (fe : Frontend) (b : Builder σ τ) : Prop where
  unknownKind : ∀ {v s}, fe.properties? (fe.kindOf v) = none →
    A.node v s (.error (.unknownKind (fe.kindOf v) (fe.unknownReason (fe.kindOf v))), s)
  node : ∀ {v ps s e}, fe.properties? (fe.kindOf v) = some ps → A.properties v ps s e →
    A.node v s (e.andThen fun ts s => .success (b.node v (fe.kindOf v) ts s))
  noProperties : ∀ {v s}, A.properties v [] s (.ok [], s)
  failedProperty : ∀ {v p ps s failure s'}, A.property v p s (.error failure, s') →
    A.properties v (p :: ps) s (.error failure, s')
  nextProperty : ∀ {v p ps s t s' e}, A.property v p s (.ok t, s') → A.properties v ps s' e →
    A.properties v (p :: ps) s (e.andThen fun ts s => (.ok (t :: ts), s))
  badLeaf : ∀ {v p s failure}, p.kind = .leaf →
    fe.leafKey (fe.kindOf v) p (fe.read v p) = .error failure →
    A.property v p s (.error failure, s)
  leaf : ∀ {v p s key}, p.kind = .leaf → fe.leafKey (fe.kindOf v) p (fe.read v p) = .ok key →
    A.property v p s (.success (b.leaf key (fe.read v p) s))
  child : ∀ {v p s e}, p.kind = .child →
    A.slot (fe.kindOf v) p Expected.optionalNode (fe.read v p) s e → A.property v p s e
  noList : ∀ {v p s}, p.kind = .childList → (fe.read v p).sequence? = none →
    A.property v p s (.error (mismatch (fe.kindOf v) p Expected.nodeList (fe.read v p)), s)
  list : ∀ {v p items s e}, p.kind = .childList → (fe.read v p).sequence? = some items →
    A.items (fe.kindOf v) p items s e →
    A.property v p s (e.andThen fun ts s => .success (b.list items ts s))
  noItems : ∀ {kind p s}, A.items kind p [] s (.ok [], s)
  failedItem : ∀ {kind p item items s failure s'},
    A.slot kind p Expected.nodeList item s (.error failure, s') →
    A.items kind p (item :: items) s (.error failure, s')
  nextItem : ∀ {kind p item items s t s' e}, A.slot kind p Expected.nodeList item s (.ok t, s') →
    A.items kind p items s' e →
    A.items kind p (item :: items) s (e.andThen fun ts s => (.ok (t :: ts), s))
  badSlot : ∀ {kind p expected v s failure}, fe.slot kind p expected v = .error failure →
    A.slot kind p expected v s (.error failure, s)
  emptySlot : ∀ {kind p expected v s}, fe.slot kind p expected v = .ok none →
    A.slot kind p expected v s (.success (b.absent s))
  slot : ∀ {kind p expected v w s e}, fe.slot kind p expected v = .ok (some w) → A.node w s e →
    A.slot kind p expected v s e

variable {A : Account σ τ} {fe : Frontend} {b : Builder σ τ} {v : Value} {s : σ}

/-- **An account that follows the rules is true of every recursion that ends.** -/
theorem Rules.holds (h : A.Rules fe b) {e : Ending σ τ} (hb : buildNode fe b v s = some e) :
    A.node v s e := by
  -- The kind that the properties of a node are labeled for is always the kind of the node.
  refine (Value.buildNode.mutual_partial_correctness fe b A.node
    (fun v kind ps s e => kind = fe.kindOf v → A.properties v ps s e)
    (fun v kind p s e => kind = fe.kindOf v → A.property v p s e)
    A.items A.slot ?node ?properties ?property ?items ?slot).1 v s e hb
  case node =>
    intro buildProperties ih v s e hb
    unfold Frontend.properties at hb
    cases hps : fe.properties? (fe.kindOf v) with
    | none =>
      rw [hps] at hb
      obtain rfl := Option.some.inj hb
      exact h.unknownKind hps
    | some ps =>
      rw [hps] at hb
      obtain ⟨e', he', hlast⟩ := Option.bind_eq_some_iff.1 hb
      obtain rfl := Option.some.inj hlast
      exact h.node hps (ih _ _ _ _ _ he' rfl)
  case properties =>
    rintro buildProperties buildProperty ihs ih v kind (_ | ⟨p, ps⟩) s e hb hkind
    · obtain rfl := Option.some.inj hb
      exact h.noProperties
    · rcases Ending.cases_of_cons hb with ⟨failure, s', hp, rfl⟩ | ⟨t, s', e', hp, hps, rfl⟩
      · exact h.failedProperty (ih _ _ _ _ _ hp hkind)
      · exact h.nextProperty (ih _ _ _ _ _ hp hkind) (ihs _ _ _ _ _ hps hkind)
  case property =>
    rintro buildItems buildSlot ihs ih v kind p s e hb rfl
    cases hk : p.kind with
    | leaf =>
      rw [hk] at hb
      cases hkey : fe.leafKey (fe.kindOf v) p (fe.read v p) with
      | error failure =>
        simp only [hkey] at hb
        obtain rfl := Option.some.inj hb
        exact h.badLeaf hk hkey
      | ok key =>
        simp only [hkey] at hb
        obtain rfl := Option.some.inj hb
        exact h.leaf hk hkey
    | child =>
      rw [hk] at hb
      exact h.child hk (ih _ _ _ _ _ _ hb)
    | childList =>
      rw [hk] at hb
      unfold listItems at hb
      cases hitems : (fe.read v p).sequence? with
      | none =>
        simp only [hitems] at hb
        obtain rfl := Option.some.inj hb
        exact h.noList hk hitems
      | some items =>
        simp only [hitems] at hb
        obtain ⟨e', he', hlast⟩ := Option.bind_eq_some_iff.1 hb
        obtain rfl := Option.some.inj hlast
        exact h.list hk hitems (ihs _ _ _ _ _ he')
  case items =>
    rintro buildItems buildSlot ihs ih kind p (_ | ⟨item, items⟩) s e hb
    · obtain rfl := Option.some.inj hb
      exact h.noItems
    · rcases Ending.cases_of_cons hb with ⟨failure, s', hitem, rfl⟩ | ⟨t, s', e', hitem, hrest, rfl⟩
      · exact h.failedItem (ih _ _ _ _ _ _ hitem)
      · exact h.nextItem (ih _ _ _ _ _ _ hitem) (ihs _ _ _ _ _ hrest)
  case slot =>
    intro buildNode ih kind p expected v s e hb
    rcases hslot : fe.slot kind p expected v with failure | _ | w
    · simp only [hslot] at hb
      obtain rfl := Option.some.inj hb
      exact h.badSlot hslot
    · simp only [hslot] at hb
      obtain rfl := Option.some.inj hb
      exact h.emptySlot hslot
    · simp only [hslot] at hb
      exact h.slot hslot (ih _ _ _ hb)

/-- **The recursion as an account**: of each function it says the ending that the function has. -/
def recursion (fe : Frontend) (b : Builder σ τ) : Account σ τ where
  node v s e := buildNode fe b v s = some e
  properties v ps s e := buildProperties fe b v (fe.kindOf v) ps s = some e
  property v p s e := buildProperty fe b v (fe.kindOf v) p s = some e
  items kind p items s e := buildItems fe b kind p items s = some e
  slot kind p expected v s e := buildSlot fe b kind p expected v s = some e

/-- **The recursion follows its rules.** -/
theorem rules_recursion (fe : Frontend) (b : Builder σ τ) : (recursion fe b).Rules fe b where
  unknownKind {v s} hps := by
    show buildNode fe b v s = _
    rw [buildNode, Frontend.properties, hps]
  node {v ps s e} hps h := by
    show buildNode fe b v s = _
    replace h : buildProperties fe b v (fe.kindOf v) ps s = some e := h
    rw [buildNode, Frontend.properties, hps]
    simp only [h]
    rfl
  noProperties {v s} := by
    show buildProperties fe b v (fe.kindOf v) [] s = _
    rw [buildProperties]
  failedProperty {v p ps s failure s'} h := by
    show buildProperties fe b v (fe.kindOf v) (p :: ps) s = _
    replace h : buildProperty fe b v (fe.kindOf v) p s = some (.error failure, s') := h
    rw [buildProperties, h]
    rfl
  nextProperty {v p ps s t s' e} hp h := by
    show buildProperties fe b v (fe.kindOf v) (p :: ps) s = _
    replace hp : buildProperty fe b v (fe.kindOf v) p s = some (.ok t, s') := hp
    replace h : buildProperties fe b v (fe.kindOf v) ps s' = some e := h
    rw [buildProperties, hp]
    simp only [Option.bind_eq_bind, Option.bind_some, h]
    rfl
  badLeaf {v p s failure} hk hkey := by
    show buildProperty fe b v (fe.kindOf v) p s = _
    rw [buildProperty, hk]
    simp only [hkey]
  leaf {v p s key} hk hkey := by
    show buildProperty fe b v (fe.kindOf v) p s = _
    rw [buildProperty, hk]
    simp only [hkey]
  child {v p s e} hk h := by
    show buildProperty fe b v (fe.kindOf v) p s = _
    rw [buildProperty, hk]
    exact h
  noList {v p s} hk hitems := by
    show buildProperty fe b v (fe.kindOf v) p s = _
    rw [buildProperty, hk, listItems, hitems]
  list {v p items s e} hk hitems h := by
    show buildProperty fe b v (fe.kindOf v) p s = _
    replace h : buildItems fe b (fe.kindOf v) p items s = some e := h
    rw [buildProperty, hk, listItems, hitems]
    simp only [h]
    rfl
  noItems {kind p s} := by
    show buildItems fe b kind p [] s = _
    rw [buildItems]
  failedItem {kind p item items s failure s'} h := by
    show buildItems fe b kind p (item :: items) s = _
    replace h : buildSlot fe b kind p Expected.nodeList item s = some (.error failure, s') := h
    rw [buildItems, h]
    rfl
  nextItem {kind p item items s t s' e} hitem h := by
    show buildItems fe b kind p (item :: items) s = _
    replace hitem : buildSlot fe b kind p Expected.nodeList item s = some (.ok t, s') := hitem
    replace h : buildItems fe b kind p items s' = some e := h
    rw [buildItems, hitem]
    simp only [Option.bind_eq_bind, Option.bind_some, h]
    rfl
  badSlot {kind p expected v s failure} hslot := by
    show buildSlot fe b kind p expected v s = _
    rw [buildSlot, hslot]
  emptySlot {kind p expected v s} hslot := by
    show buildSlot fe b kind p expected v s = _
    rw [buildSlot, hslot]
  slot {kind p expected v w s e} hslot h := by
    show buildSlot fe b kind p expected v s = _
    rw [buildSlot, hslot]
    exact h

end Account

end HashConsing
