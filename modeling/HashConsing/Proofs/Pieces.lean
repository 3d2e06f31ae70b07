import HashConsing.Proofs.Encoding
import HashConsing.Proofs.Loop
import Mathlib.Data.List.Induction

/-!
# Pieces of syntax trees

What gets an id is a piece of a syntax tree: a leaf, a list or a node. This module says
where in a tree a piece is found (`Frontend.Reaches`) and which form it has
(`Frontend.HasForm`), and shows that the two agree. The positions of a form are those of
the pieces of its tree, apart from the places where a node could be and is not
(`Frontend.exists_form_at`, `Frontend.exists_piece_at`).

Both rest on one reading of the recursion that makes forms: a node has the form that is
made of the forms of its properties (`Frontend.form_eq_ok_iff`).
-/

namespace HashConsing

open Ending

/-- **A piece of a syntax tree** that gets an id. -/
inductive Piece where
  /-- A leaf, given by its value. -/
  | leaf (v : Value)
  /-- A list, given by its items. -/
  | list (items : List Value)
  | node (v : Value)

/-- What corresponds to an entry of a list is at the same index of the other list. -/
theorem exists_getElem?_of_forall₂ {A B : Type} {R : A → B → Prop} {as : List A} {bs : List B}
    (h : List.Forall₂ R as bs) {i : Nat} {a : A} (ha : as[i]? = some a) :
    ∃ b, bs[i]? = some b ∧ R a b := by
  have hi := Tables.forall₂_getElem? h i
  rw [ha] at hi
  generalize bs[i]? = b at hi ⊢
  cases hi with
  | some hab => exact ⟨_, rfl, hab⟩

namespace Frontend

section Forms

variable (fe : Frontend)

/-! ## Where pieces are -/

/-- **The piece that a property of a node holds.** There is none where no node is. -/
inductive Offers (v : Value) (p : Property) : Piece → Prop where
  | leaf (hk : p.kind = .leaf) : Offers v p (.leaf (fe.read v p))
  | child (hk : p.kind = .child) (hpart : fe.isPart (fe.read v p) = true) :
      Offers v p (.node (fe.read v p))
  | childList {items : List Value} (hk : p.kind = .childList)
      (hitems : (fe.read v p).sequence? = some items) : Offers v p (.list items)

/-- **A piece is found in a tree** at the end of a way down, which counts the declared
properties of a node and the items of a list. -/
inductive Reaches (root : Value) : List Nat → Piece → Prop where
  | root : Reaches root [] (.node root)
  | property {path : List Nat} {v : Value} {ps : List Property} {i : Nat} {p : Property}
      {piece : Piece} (above : Reaches root path (.node v))
      (known : fe.properties? (fe.kindOf v) = some ps) (declared : ps[i]? = some p)
      (offered : fe.Offers v p piece) : Reaches root (path ++ [i]) piece
  | item {path : List Nat} {items : List Value} {i : Nat} {v : Value}
      (above : Reaches root path (.list items)) (listed : items[i]? = some v)
      (hpart : fe.isPart v = true) : Reaches root (path ++ [i]) (.node v)

/-! ## Which forms pieces have -/

/-- **The form of a place for a node**, which may be empty. -/
inductive SlotForm : Value → Form → Prop where
  | absent {v : Value} (hnull : v.isNull = true) : SlotForm v .absent
  | node {v : Value} {G : Form} (hpart : fe.isPart v = true)
      (hform : fe.form v = some (.ok G)) : SlotForm v G

/-- **The form of a piece**, if it has one. -/
def HasForm : Piece → Form → Prop
  | .leaf v, G => ∃ key, v.leafKey = .ok key ∧ G = .leaf key
  | .list items, G => ∃ Gs, List.Forall₂ (SlotForm fe) items Gs ∧ G = .list Gs
  | .node v, G => fe.form v = some (.ok G)

/-- **The form of a property** of a node. Raw data must not be a node. -/
def PropertyForm (v : Value) (p : Property) (G : Form) : Prop :=
  match p.kind with
  | .leaf => fe.isNode (fe.read v p) = false ∧ HasForm fe (.leaf (fe.read v p)) G
  | .child => SlotForm fe (fe.read v p) G
  | .childList => ∃ items, (fe.read v p).sequence? = some items ∧ HasForm fe (.list items) G

variable {fe}

section PropertyForms

variable {v : Value} {p : Property} {G : Form}

theorem propertyForm_leaf (hk : p.kind = .leaf) : fe.PropertyForm v p G
    ↔ fe.isNode (fe.read v p) = false ∧ fe.HasForm (.leaf (fe.read v p)) G := by
  rw [PropertyForm, hk]

theorem propertyForm_child (hk : p.kind = .child) :
    fe.PropertyForm v p G ↔ fe.SlotForm (fe.read v p) G := by
  rw [PropertyForm, hk]

theorem propertyForm_childList (hk : p.kind = .childList) : fe.PropertyForm v p G
    ↔ ∃ items, (fe.read v p).sequence? = some items ∧ fe.HasForm (.list items) G := by
  rw [PropertyForm, hk]

end PropertyForms

/-! ## The recursion that makes forms -/

theorem form_eq_ok {v : Value} {G : Form} :
    fe.form v = some (.ok G) ↔ buildNode fe Form.builder v () = some (.ok G, ()) := by
  unfold form
  constructor
  · intro h
    obtain ⟨⟨_, ⟨⟩⟩, hbuild, rfl⟩ := Option.map_eq_some_iff.1 h
    exact hbuild
  · intro h
    rw [h]
    rfl

/-- A chain succeeds if both of its parts do. -/
theorem chain_eq_ok {α β : Type} {x : Option (Ending Unit α)}
    {next : α → Unit → Option (Ending Unit β)} {b : β} :
    chain x next = some (.ok b, ()) ↔
      ∃ a, x = some (.ok a, ()) ∧ next a () = some (.ok b, ()) := by
  constructor
  · intro h
    rcases chain_eq_some h with ⟨failure, s, -, hfail⟩ | ⟨a, s, hx, hnext⟩
    · cases hfail
    · exact ⟨a, hx, hnext⟩
  · rintro ⟨a, rfl, hnext⟩
    exact hnext

/-- A place for a node succeeds with its form. -/
theorem buildSlot_eq_ok {kind expected : String} {p : Property} {v : Value} {G : Form} :
    buildSlot fe Form.builder kind p expected v () = some (.ok G, ()) ↔ fe.SlotForm v G := by
  rw [buildSlot]
  unfold slot
  by_cases hnull : v.isNull = true
  · rw [if_pos hnull]
    constructor
    · rintro ⟨⟩
      exact .absent hnull
    · rintro (_ | ⟨hpart, -⟩)
      · rfl
      · simp [isPart, hnull] at hpart
  · rw [if_neg hnull]
    by_cases hnode : fe.isNode v = true
    · rw [if_pos hnode, ← form_eq_ok]
      constructor
      · exact .node (by simp [isPart, hnull, hnode])
      · rintro (hv | ⟨-, hform⟩)
        · exact absurd hv hnull
        · exact hform
    · rw [if_neg hnode]
      constructor
      · rintro ⟨⟩
      · rintro (hv | ⟨hpart, -⟩)
        · exact absurd hv hnull
        · simp [isPart, hnode] at hpart

/-- The items of a list succeed with their forms, one by one. -/
theorem buildItems_eq_ok {kind : String} {p : Property} {items : List Value} {Gs : List Form} :
    buildItems fe Form.builder kind p items () = some (.ok Gs, ())
      ↔ List.Forall₂ fe.SlotForm items Gs := by
  induction items generalizing Gs with
  | nil =>
    rw [buildItems, List.forall₂_nil_left_iff]
    simp [eq_comm]
  | cons item items ih =>
    rw [buildItems_cons, chain_eq_ok, List.forall₂_cons_left_iff]
    simp only [chain_eq_ok, buildSlot_eq_ok, ih]
    constructor
    · rintro ⟨G, hG, Gs, hGs, ⟨⟩⟩
      exact ⟨G, Gs, hG, hGs, rfl⟩
    · rintro ⟨G, Gs, hG, hGs, rfl⟩
      exact ⟨G, hG, Gs, hGs, rfl⟩

/-- The key of a leaf property's value is the key of the value, if that is no node. -/
theorem leafKey_eq_ok_iff {kind : String} {p : Property} {v : Value} {key : LeafKey} :
    fe.leafKey kind p v = .ok key ↔ fe.isNode v = false ∧ v.leafKey = .ok key := by
  unfold leafKey
  cases hnode : fe.isNode v with
  | true => simp
  | false => cases hkey : v.leafKey <;> simp

/-- A property succeeds with its form. -/
theorem buildProperty_eq_ok {v : Value} {kind : String} {p : Property} {G : Form} :
    buildProperty fe Form.builder v kind p () = some (.ok G, ()) ↔ fe.PropertyForm v p G := by
  rw [buildProperty]
  unfold PropertyForm
  cases p.kind with
  | leaf =>
    cases hkey : fe.leafKey kind p (fe.read v p) with
    | error failure =>
      constructor
      · rintro ⟨⟩
      · rintro ⟨hnode, key, hleaf, -⟩
        rw [leafKey_eq_ok_iff.2 ⟨hnode, hleaf⟩] at hkey
        cases hkey
    | ok key =>
      obtain ⟨hnode, hleaf⟩ := leafKey_eq_ok_iff.1 hkey
      constructor
      · rintro ⟨⟩
        exact ⟨hnode, key, hleaf, rfl⟩
      · rintro ⟨-, key', hleaf', rfl⟩
        rw [hleaf] at hleaf'
        cases hleaf'
        rfl
  | child => exact buildSlot_eq_ok
  | childList =>
    unfold listItems
    cases (fe.read v p).sequence? with
    | none => simp
    | some items =>
      simp only [bind_andThen, chain_eq_ok, buildItems_eq_ok, Option.some.injEq,
        exists_eq_left']
      constructor
      · rintro ⟨Gs, hGs, ⟨⟩⟩
        exact ⟨Gs, hGs, rfl⟩
      · rintro ⟨Gs, hGs, rfl⟩
        exact ⟨Gs, hGs, rfl⟩

/-- Properties succeed with their forms, one by one. -/
theorem buildProperties_eq_ok {v : Value} {kind : String} {ps : List Property} {Gs : List Form} :
    buildProperties fe Form.builder v kind ps () = some (.ok Gs, ())
      ↔ List.Forall₂ (fe.PropertyForm v) ps Gs := by
  induction ps generalizing Gs with
  | nil =>
    rw [buildProperties, List.forall₂_nil_left_iff]
    simp [eq_comm]
  | cons p ps ih =>
    rw [buildProperties_cons, chain_eq_ok, List.forall₂_cons_left_iff]
    simp only [chain_eq_ok, buildProperty_eq_ok, ih]
    constructor
    · rintro ⟨G, hG, Gs, hGs, ⟨⟩⟩
      exact ⟨G, Gs, hG, hGs, rfl⟩
    · rintro ⟨G, Gs, hG, hGs, rfl⟩
      exact ⟨G, hG, Gs, hGs, rfl⟩

/-- **The form of a node is made of the forms of its properties.** -/
theorem form_eq_ok_iff {v : Value} {G : Form} :
    fe.form v = some (.ok G) ↔ ∃ ps Gs, fe.properties? (fe.kindOf v) = some ps
      ∧ List.Forall₂ (fe.PropertyForm v) ps Gs ∧ G = .node (fe.kindOf v) Gs := by
  rw [form_eq_ok, buildNode]
  unfold properties
  cases fe.properties? (fe.kindOf v) with
  | none => simp
  | some ps =>
    simp only [bind_andThen, chain_eq_ok, buildProperties_eq_ok, Option.some.injEq]
    constructor
    · rintro ⟨Gs, hGs, ⟨⟩⟩
      exact ⟨ps, Gs, rfl, hGs, rfl⟩
    · rintro ⟨_, Gs, rfl, hGs, rfl⟩
      exact ⟨Gs, hGs, rfl⟩

/-! ## Positions -/

/-- A value in a place for a node has one form there. -/
theorem SlotForm.unique {v : Value} {G G' : Form} (h : fe.SlotForm v G) (h' : fe.SlotForm v G') :
    G = G' := by
  cases h with
  | absent hnull =>
    cases h' with
    | absent => rfl
    | node hpart => simp [isPart, hnull] at hpart
  | node hpart hform =>
    cases h' with
    | absent hnull => simp [isPart, hnull] at hpart
    | node _ hform' => exact Except.ok.inj (Option.some.inj (hform.symm.trans hform'))

/-- **A piece has one form.** -/
theorem HasForm.unique {piece : Piece} {G G' : Form} (h : fe.HasForm piece G)
    (h' : fe.HasForm piece G') : G = G' := by
  cases piece with
  | leaf v =>
    obtain ⟨key, hkey, rfl⟩ := h
    obtain ⟨key', hkey', rfl⟩ := h'
    rw [Except.ok.inj (hkey.symm.trans hkey')]
  | list items =>
    obtain ⟨Gs, hGs, rfl⟩ := h
    obtain ⟨Gs', hGs', rfl⟩ := h'
    have hunique : Relator.RightUnique fe.SlotForm := fun _ _ _ h h' => h.unique h'
    rw [hunique.forall₂ hGs hGs']
  | node v => exact Except.ok.inj (Option.some.inj (h.symm.trans h'))

/-- What is offered by a property has its form. -/
theorem PropertyForm.of_offers {v : Value} {p : Property} {G : Form} {piece : Piece}
    (h : fe.PropertyForm v p G) (hp : fe.Offers v p piece) : fe.HasForm piece G := by
  cases hp with
  | leaf hk => exact ((propertyForm_leaf hk).1 h).2
  | child hk hpart =>
    cases (propertyForm_child hk).1 h with
    | absent hnull => simp [isPart, hnull] at hpart
    | node _ hform => exact hform
  | childList hk hitems =>
    obtain ⟨items', hitems', hform⟩ := (propertyForm_childList hk).1 h
    obtain rfl := Option.some.inj (hitems.symm.trans hitems')
    exact hform

/-- A property whose form is not that of nothing offers a piece. -/
theorem PropertyForm.exists_offers {v : Value} {p : Property} {G : Form}
    (h : fe.PropertyForm v p G) (hG : G ≠ .absent) :
    ∃ piece, fe.Offers v p piece ∧ fe.HasForm piece G := by
  cases hk : p.kind with
  | leaf => exact ⟨_, .leaf hk, ((propertyForm_leaf hk).1 h).2⟩
  | child =>
    cases (propertyForm_child hk).1 h with
    | absent => exact absurd rfl hG
    | node hpart hform => exact ⟨_, .child hk hpart, hform⟩
  | childList =>
    obtain ⟨items, hitems, hform⟩ := (propertyForm_childList hk).1 h
    exact ⟨_, .childList hk hitems, hform⟩

/-- One step further down in a form. -/
theorem at?_snoc {F G : Form} {path : List Nat} (hG : F.at? path = some G) (i : Nat) :
    F.at? (path ++ [i]) = G.children[i]? := by
  rw [Form.at?_append, hG, Option.bind_some, Form.at?]
  cases G.children[i]? <;> rfl

variable {root : Value} {F : Form}

/-- **What is reached in a tree has its form there.** -/
theorem exists_form_at (hF : fe.form root = some (.ok F)) {path : List Nat} {piece : Piece}
    (h : fe.Reaches root path piece) : ∃ G, F.at? path = some G ∧ fe.HasForm piece G := by
  induction h with
  | root => exact ⟨F, rfl, hF⟩
  | property _ known declared offered ih =>
    obtain ⟨G, hG, hform⟩ := ih
    obtain ⟨ps, Gs, hps, hGs, rfl⟩ := form_eq_ok_iff.1 hform
    obtain rfl := Option.some.inj (known.symm.trans hps)
    obtain ⟨H, hH, hproperty⟩ := exists_getElem?_of_forall₂ hGs declared
    exact ⟨H, (at?_snoc hG _).trans hH, hproperty.of_offers offered⟩
  | item _ listed hpart ih =>
    obtain ⟨G, hG, Gs, hGs, rfl⟩ := ih
    obtain ⟨H, hH, hslot⟩ := exists_getElem?_of_forall₂ hGs listed
    refine ⟨H, (at?_snoc hG _).trans hH, ?_⟩
    cases hslot with
    | absent hnull => simp [isPart, hnull] at hpart
    | node _ hform => exact hform

/-- **Wherever the form of a tree does not have nothing, a piece is reached** that has the
form there. -/
theorem exists_piece_at (hF : fe.form root = some (.ok F)) {path : List Nat} {G : Form}
    (hG : F.at? path = some G) (hpresent : G ≠ .absent) :
    ∃ piece, fe.Reaches root path piece ∧ fe.HasForm piece G := by
  induction path using List.reverseRecOn generalizing G with
  | nil =>
    cases hG
    exact ⟨.node root, .root, hF⟩
  | append_singleton path i ih =>
    rw [Form.at?_append] at hG
    obtain ⟨H, hH, hstep⟩ := Option.bind_eq_some_iff.1 hG
    have hG : H.children[i]? = some G := by
      rw [← at?_snoc hH i, Form.at?_append, hH]
      exact hstep
    have habove : H ≠ .absent := by
      rintro rfl
      cases hG
    obtain ⟨piece, hreached, hform⟩ := ih hH habove
    cases piece with
    | leaf v =>
      obtain ⟨key, -, rfl⟩ := hform
      cases hG
    | list items =>
      obtain ⟨Gs, hGs, rfl⟩ := hform
      obtain ⟨v, hv, hslot⟩ := exists_getElem?_of_forall₂ hGs.flip hG
      cases hslot with
      | absent => exact absurd rfl hpresent
      | node hpart hform => exact ⟨.node v, hreached.item hv hpart, hform⟩
    | node v =>
      obtain ⟨ps, Gs, hps, hGs, rfl⟩ := form_eq_ok_iff.1 hform
      obtain ⟨p, hp, hproperty⟩ := exists_getElem?_of_forall₂ hGs.flip hG
      obtain ⟨piece, hoffered, hform⟩ := PropertyForm.exists_offers hproperty hpresent
      exact ⟨piece, hreached.property hps hp hoffered, hform⟩

/-- **Wherever the form of a tree has a key, a leaf with that key is reached.** -/
theorem exists_leaf_at (hF : fe.form root = some (.ok F)) {path : List Nat} {key : LeafKey}
    (hG : F.at? path = some (.leaf key)) :
    ∃ v, fe.Reaches root path (.leaf v) ∧ v.leafKey = .ok key := by
  obtain ⟨piece, hreached, hform⟩ := exists_piece_at hF hG (by simp)
  cases piece with
  | leaf v =>
    obtain ⟨key', hkey, hleaf⟩ := hform
    cases hleaf
    exact ⟨v, hreached, hkey⟩
  | list items =>
    obtain ⟨Gs, -, hlist⟩ := hform
    cases hlist
  | node v =>
    obtain ⟨_, _, -, -, hnode⟩ := form_eq_ok_iff.1 hform
    cases hnode

end Forms

end Frontend

end HashConsing
