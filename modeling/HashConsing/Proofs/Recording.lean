import HashConsing.Proofs.Pieces

/-!
# Recording what is met

The way that a labeling takes through a tree can be recorded without handing out any id.
`Frontend.encounters` are the pieces that are met, those below before those above, up to the
first failure if there is one.

Whatever is met is found in the tree, and it has the form that is recorded with it:
`Frontend.encounters_foundIn`.
-/

namespace HashConsing

open Ending

/-- **A piece of a tree that was met**, with its form. -/
structure Encounter where
  piece : Piece
  form : Form

/-- **Records the pieces of a tree** as they are met. What is made of them is their forms. -/
def Encounter.recorder : Builder (List Encounter) Form where
  absent es := (.absent, es)
  leaf key v es := (.leaf key, es ++ [⟨.leaf v, .leaf key⟩])
  list items Fs es := (.list Fs, es ++ [⟨.list items, .list Fs⟩])
  node v kind Fs es := (.node kind Fs, es ++ [⟨.node v, .node kind Fs⟩])

/-- **The pieces that are met on the way through a tree**, up to the first failure. -/
def Frontend.encounters (fe : Frontend) (root : Value) : Option (List Encounter) :=
  (buildNode fe Encounter.recorder root []).map Prod.snd

/-! ## What is met is in the tree -/

/-- **A piece that is found in a tree** and has the form that is recorded with it. -/
def Encounter.FoundIn (e : Encounter) (fe : Frontend) (root : Value) : Prop :=
  (∃ path, fe.Reaches root path e.piece) ∧ fe.HasForm e.piece e.form

/-- **A record of what is found in a tree**, and of something that was made of it unless that
failed. -/
def Records {α : Type} (fe : Frontend) (root : Value) (made : α → Prop) :
    Ending (List Encounter) α → Prop
  | (.ok a, es) => (∀ e ∈ es, e.FoundIn fe root) ∧ made a
  | (.error _, es) => ∀ e ∈ es, e.FoundIn fe root

namespace Records

variable {α β : Type} {fe : Frontend} {root : Value}

theorem foundIn {made : α → Prop} {ending : Ending (List Encounter) α}
    (h : Records fe root made ending) : ∀ e ∈ ending.2, e.FoundIn fe root := by
  obtain ⟨_ | a, es⟩ := ending
  · exact h
  · exact h.1

theorem imp {made made' : α → Prop} {ending : Ending (List Encounter) α}
    (h : Records fe root made ending) (himp : ∀ a, made a → made' a) :
    Records fe root made' ending := by
  obtain ⟨_ | a, es⟩ := ending
  · exact h
  · exact ⟨h.1, himp a h.2⟩

/-- One more piece is recorded. -/
theorem snoc {es : List Encounter} (hes : ∀ e ∈ es, e.FoundIn fe root) {piece : Piece} {F : Form}
    (hreached : ∃ path, fe.Reaches root path piece) (hform : fe.HasForm piece F)
    {made : Form → Prop} (hmade : made F) :
    Records fe root made (success (F, es ++ [⟨piece, F⟩])) :=
  ⟨List.forall_mem_append.2 ⟨hes, List.forall_mem_singleton.2 ⟨hreached, hform⟩⟩, hmade⟩

/-- **Going on with what was made**, which is recorded as well. -/
theorem andThen {made : α → Prop} {made' : β → Prop} {ending : Ending (List Encounter) α}
    {next : α → List Encounter → Ending (List Encounter) β} (h : Records fe root made ending)
    (hnext : ∀ a es, (∀ e ∈ es, e.FoundIn fe root) → made a → Records fe root made' (next a es)) :
    Records fe root made' (ending.andThen next) := by
  obtain ⟨_ | a, es⟩ := ending
  · exact h
  · exact hnext a es h.1 h.2

/-- **A record of a list of things** whose head is made first. -/
theorem cons {R : β → α → Prop} {b : β} {bs : List β} {a : α}
    {ending : Ending (List Encounter) (List α)} (ha : R b a)
    (h : Records fe root (List.Forall₂ R bs) ending) :
    Records fe root (List.Forall₂ R (b :: bs)) (ending.andThen fun as es => (.ok (a :: as), es)) :=
  h.andThen fun _ _ hes has => ⟨hes, .cons ha has⟩

variable (fe root) in
/-- **What is met below a part of a tree** is found in the tree, given that the pieces which the
recursion goes down to are reached; and what is made has the form it should have. -/
def account : Account (List Encounter) Form where
  node v es e := (∃ path, fe.Reaches root path (.node v)) → (∀ e ∈ es, e.FoundIn fe root) →
    Records fe root (fe.HasForm (.node v)) e
  properties v ps es e :=
    (∀ p ∈ ps, ∀ piece, fe.Offers v p piece → ∃ path, fe.Reaches root path piece) →
    (∀ e ∈ es, e.FoundIn fe root) → Records fe root (List.Forall₂ (fe.PropertyForm v) ps) e
  property v p es e := (∀ piece, fe.Offers v p piece → ∃ path, fe.Reaches root path piece) →
    (∀ e ∈ es, e.FoundIn fe root) → Records fe root (fe.PropertyForm v p) e
  items _ _ items es e :=
    (∀ v ∈ items, fe.isPart v = true → ∃ path, fe.Reaches root path (.node v)) →
    (∀ e ∈ es, e.FoundIn fe root) → Records fe root (List.Forall₂ fe.SlotForm items) e
  slot _ _ _ v es e := (fe.isPart v = true → ∃ path, fe.Reaches root path (.node v)) →
    (∀ e ∈ es, e.FoundIn fe root) → Records fe root (fe.SlotForm v) e

theorem rules_account : (account fe root).Rules fe Encounter.recorder where
  unknownKind _ _ hes := hes
  node {v ps es e} hps h hreached hes := by
    obtain ⟨path, hpath⟩ := hreached
    refine (h (fun p hp piece hoffered => ?_) hes).andThen fun Fs es hes hFs => ?_
    · obtain ⟨i, hi⟩ := List.getElem?_of_mem hp
      exact ⟨path ++ [i], hpath.property hps hi hoffered⟩
    · have hform : fe.HasForm (.node v) (.node (fe.kindOf v) Fs) :=
        Frontend.form_eq_ok_iff.2 ⟨ps, Fs, hps, hFs, rfl⟩
      exact snoc hes ⟨path, hpath⟩ hform hform
  noProperties _ hes := ⟨hes, .nil⟩
  failedProperty h hbelow hes := h (List.forall_mem_cons.1 hbelow).1 hes
  nextProperty hp h hbelow hes := by
    obtain ⟨hes', ht⟩ := hp (List.forall_mem_cons.1 hbelow).1 hes
    exact (h (List.forall_mem_cons.1 hbelow).2 hes').cons ht
  badLeaf _ _ _ hes := hes
  leaf {v p es key} hk hkey hbelow hes := by
    obtain ⟨hnode, hleaf⟩ := Frontend.leafKey_eq_ok_iff.1 hkey
    have hform : fe.HasForm (.leaf (fe.read v p)) (.leaf key) := ⟨key, hleaf, rfl⟩
    exact snoc hes (hbelow _ (.leaf hk)) hform ((Frontend.propertyForm_leaf hk).2 ⟨hnode, hform⟩)
  child hk h hbelow hes :=
    (h (fun hpart => hbelow _ (.child hk hpart)) hes).imp fun _ =>
      (Frontend.propertyForm_child hk).2
  noList _ _ _ hes := hes
  list {v p items es e} hk hitems h hbelow hes := by
    obtain ⟨path, hpath⟩ := hbelow _ (.childList hk hitems)
    refine (h (fun w hw hpart => ?_) hes).andThen fun Fs es hes hFs => ?_
    · obtain ⟨i, hi⟩ := List.getElem?_of_mem hw
      exact ⟨path ++ [i], hpath.item hi hpart⟩
    · have hform : fe.HasForm (.list items) (.list Fs) := ⟨Fs, hFs, rfl⟩
      exact snoc hes ⟨path, hpath⟩ hform
        ((Frontend.propertyForm_childList hk).2 ⟨items, hitems, hform⟩)
  noItems _ hes := ⟨hes, .nil⟩
  failedItem h hparts hes := h (List.forall_mem_cons.1 hparts).1 hes
  nextItem hitem h hparts hes := by
    obtain ⟨hes', ht⟩ := hitem (List.forall_mem_cons.1 hparts).1 hes
    exact (h (List.forall_mem_cons.1 hparts).2 hes').cons ht
  badSlot _ _ hes := hes
  emptySlot hslot _ hes := ⟨hes, .absent (Frontend.isNull_of_slot hslot)⟩
  slot hslot h hpart hes := by
    obtain ⟨rfl, hv⟩ := Frontend.isPart_of_slot hslot
    exact (h (hpart hv) hes).imp fun _ => .node hv

end Records

/-- **Whatever is met on the way through a tree is found in it**, with its form. -/
theorem Frontend.encounters_foundIn {fe : Frontend} {root : Value} {es : List Encounter}
    (h : fe.encounters root = some es) : ∀ e ∈ es, e.FoundIn fe root := by
  obtain ⟨ending, hbuild, rfl⟩ := Option.map_eq_some_iff.1 h
  have hrecords : Records fe root (fe.HasForm (.node root)) ending :=
    Records.rules_account.holds hbuild ⟨[], .root⟩ (List.forall_mem_nil _)
  exact hrecords.foundIn

end HashConsing
