import HashConsing.Proofs.Encounters
import HashConsing.Proofs.GrammarInForce
import HashConsing.Proofs.Numbering

/-!
# Structural equality of sources

Two sources are structurally equal if the labels of their trees are equal. Whoever labels
them, and whatever was labeled before, labels are equal if and only if forms are, so
comparing labels is comparing forms: an equivalence relation, though each comparison hands
out ids of its own.

Sources that are equal are rendered alike, if their leaves are plain: fresh canonicalizers
number trees of the same form in the same way, and leaves with the same key show the same
text. All of this is `Source.structurallyEqual_decides`.
-/

namespace HashConsing

open Canonicalizer Tables

/-! ## Two labelings one after the other -/

namespace Canonicalizer.History

variable {fe : Frontend} {reporter : Reporter} {calls : List Call} {c : Canonicalizer}

/-- **Two trees that have forms are labeled one after the other**, and the tables in the end
have the labeled trees of both. No more ids are handed out than these have nodes. -/
theorem exists_two_trees (h : (create fe reporter).History calls c) {a b : Value} {F G : Form}
    (ha : fe.form a = some (.ok F)) (hb : fe.form b = some (.ok G)) :
    ∃ first second T U, c.label a = some first ∧ first.result = .ok T
      ∧ first.canonicalizer.label b = some second ∧ second.result = .ok U
      ∧ second.canonicalizer.tables.Coherent
      ∧ second.canonicalizer.tables.treeOf? F = some T
      ∧ second.canonicalizer.tables.treeOf? G = some U
      ∧ second.canonicalizer.tables.nextId ≤ c.tables.nextId + T.size + U.size := by
  obtain ⟨first, hfirst, hencodes⟩ := h.exists_label coherent_empty ha
  obtain ⟨T, hT, hFT⟩ := hencodes.exists_ok
  have h' := h.snoc hfirst
  obtain ⟨second, hsecond, hencodes'⟩ := h'.exists_label coherent_empty hb
  obtain ⟨U, hU, hGU⟩ := hencodes'.exists_ok
  obtain ⟨-, -, hc, hgrows, -⟩ := label_spec (h'.coherent coherent_empty) hsecond
  have hnext : second.canonicalizer.tables.nextId ≤ c.tables.nextId + T.size + U.size :=
    Nat.le_trans (h'.nextId_le hsecond hU) (Nat.add_le_add_right (h.nextId_le hfirst hT) _)
  exact ⟨first, second, T, U, hfirst, hT, hsecond, hU, hc, hgrows.treeOf? hFT, hGU, hnext⟩

/-- **What a leaf id stands for has the key of a leaf that was labeled.** -/
theorem exists_leaf (h : (create fe reporter).History calls c)
    (hok : ∀ call ∈ calls, ∃ T, call.labeled.result = .ok T) {id : Nat} {v : Value}
    (hv : c.tables.representations[id]? = some (.leaf v)) :
    ∃ call ∈ calls, ∃ path w, fe.Reaches call.root path (.leaf w) ∧ w.leafKey = v.leafKey := by
  have hexact := h.haveExactly hok
  have hc := hexact.coherent
  obtain ⟨G, ⟨root, hroot, F, path, hF, hG⟩, V, hV, rfl⟩ := hexact.exists_form id
    (hc.first_le_of_ne_marker hv (by simp)) (hc.lt_nextId hv)
  obtain ⟨call, hcall, rfl⟩ := List.mem_map.1 hroot
  have hstands := hc.standsFor hV
  cases G with
  | leaf key =>
    obtain ⟨-, w, hw, hkey⟩ := hstands
    obtain rfl : v = w := by simpa using hv.symm.trans hw
    obtain ⟨w, hreached, hkey'⟩ := Frontend.exists_leaf_at hF hG
    exact ⟨call, hcall, path, w, hreached, hkey'.trans hkey.symm⟩
  | absent => simp [hstands.2] at hv
  | list items => rw [show c.tables.representations[V.value]? = _ from hstands] at hv; cases hv
  | node kind properties =>
    rw [show c.tables.representations[V.value]? = _ from hstands] at hv
    cases hv

end Canonicalizer.History

/-! ## Sources -/

/-- Two sources that are labeled with success are labeled both. -/
theorem Canonicalizer.labelBoth_eq {c : Canonicalizer} {l r : Source} {first second : Labeled}
    {T U : Rose Nat} (hfirst : c.labelSource l Source.unnamed = some first)
    (hT : first.result = .ok T)
    (hsecond : first.canonicalizer.labelSource r Source.unnamed = some second)
    (hU : second.result = .ok U) : c.labelBoth l r = some (.ok (second.canonicalizer, T, U)) := by
  obtain ⟨d, _, _⟩ := first
  obtain rfl := hT
  obtain ⟨d', _, _⟩ := second
  obtain rfl := hU
  unfold labelBoth
  rw [hfirst]
  show (do
    let labeled ← (d.labelSource r Source.unnamed : Outcome Labeled)
    let U ← (labeled.result : Outcome (Rose Nat))
    return (labeled.canonicalizer, T, U)) = _
  rw [show d.labelSource r Source.unnamed = _ from hsecond]
  rfl

namespace Source

/-- **A source that is labeled with success** by a fresh canonicalizer. -/
def Labels (source : Source) : Prop :=
  ∃ labeled T, standard.labelSource source unnamed = some labeled ∧ labeled.result = .ok T

/-- **The form of a source**, over all properties that are in force. -/
def HasForm (source : Source) (F : Form) : Prop :=
  ∃ root, source = .tree root ∧ (Frontend.python []).form root = some (.ok F)

/-- **All leaves of a source are plain values.** -/
def PlainLeaves (source : Source) : Prop :=
  ∀ root, source = .tree root → ∀ path v, (Frontend.python []).Reaches root path (.leaf v) →
    v.Plain

theorem Labels.exists_form {source : Source} (h : source.Labels) : ∃ F, source.HasForm F := by
  obtain ⟨labeled, T, hlabeled, hT⟩ := h
  cases source with
  | tree root =>
    have h : standard.History [⟨root, labeled⟩] labeled.canonicalizer := .snoc .nil hlabeled
    obtain ⟨F, hF, -⟩ := h.treeOf? coherent_empty List.mem_cons_self hT
    exact ⟨F, root, rfl, hF⟩
  | malformed category =>
    obtain rfl := Option.some.inj hlabeled
    cases hT
  | refused reason =>
    obtain rfl := Option.some.inj hlabeled
    cases hT

/-- A source that has a form is labeled with success. -/
theorem HasForm.labels {source : Source} {F : Form} (h : source.HasForm F) : source.Labels := by
  obtain ⟨root, rfl, hF⟩ := h
  have hstart : standard.History [] standard := .nil
  obtain ⟨labeled, hlabeled, hencodes⟩ := hstart.exists_label coherent_empty hF
  obtain ⟨T, hT, -⟩ := hencodes.exists_ok
  exact ⟨labeled, T, hlabeled, hT⟩

section Forms

variable {l r : Source} {F G : Form} (hl : l.HasForm F) (hr : r.HasForm G)

include hl hr

/-- **Two sources that have forms are labeled one after the other**, and the tables in the
end have the labeled trees of both. -/
theorem HasForm.exists_trees {reporter : Reporter} {calls : List Call} {c : Canonicalizer}
    (h : (create (Frontend.python []) reporter).History calls c) :
    ∃ c' T U, c.labelBoth l r = some (.ok (c', T, U)) ∧ c'.tables.Coherent
      ∧ c'.tables.treeOf? F = some T ∧ c'.tables.treeOf? G = some U
      ∧ c'.tables.nextId ≤ c.tables.nextId + T.size + U.size := by
  obtain ⟨a, rfl, ha⟩ := hl
  obtain ⟨b, rfl, hb⟩ := hr
  obtain ⟨first, second, T, U, hfirst, hT, hsecond, hU, htrees⟩ := h.exists_two_trees ha hb
  exact ⟨second.canonicalizer, T, U, labelBoth_eq hfirst hT hsecond hU, htrees⟩

/-- **The labels of two sources that have forms** are equal if and only if the forms are. -/
theorem HasForm.exists_labelBoth {reporter : Reporter} {calls : List Call} {c : Canonicalizer}
    (h : (create (Frontend.python []) reporter).History calls c) :
    ∃ c' T U, c.labelBoth l r = some (.ok (c', T, U)) ∧ (T.label = U.label ↔ F = G) := by
  obtain ⟨c', T, U, hboth, hc, hT, hU, -⟩ := hl.exists_trees hr h
  exact ⟨c', T, U, hboth, hc.labels_eq_iff hT hU⟩

/-- **Comparing sources is comparing forms.** -/
theorem HasForm.structurallyEqual :
    ∃ equal, structurallyEqual l r = some (.ok equal) ∧ (equal = true ↔ F = G) := by
  have hstart : standard.History [] standard := .nil
  obtain ⟨c', T, U, hboth, hiff⟩ := hl.exists_labelBoth hr hstart
  refine ⟨T.value == U.value, ?_, ?_⟩
  · unfold Source.structurallyEqual
    rw [hboth]
    rfl
  · rw [beq_iff_eq, ← Rose.label_inj, hiff]

/-- **Sources are structurally equal if and only if they have the same form.** -/
theorem HasForm.structurallyEqual_iff : Source.structurallyEqual l r = some (.ok true) ↔ F = G := by
  obtain ⟨equal, hequal, hiff⟩ := hl.structurallyEqual hr
  rw [hequal, ← hiff]
  exact ⟨fun h => Except.ok.inj (Option.some.inj h), fun h => congrArg (some ∘ Except.ok) h⟩

/-- **The order of the sources does not matter.** -/
theorem HasForm.structurallyEqual_comm :
    Source.structurallyEqual r l = Source.structurallyEqual l r := by
  obtain ⟨equal, hequal, hiff⟩ := hl.structurallyEqual hr
  obtain ⟨equal', hequal', hiff'⟩ := hr.structurallyEqual hl
  rw [hequal, hequal', (Bool.eq_iff_iff.2 (hiff'.trans (eq_comm.trans hiff.symm)) : equal' = equal)]

/-- **Any canonicalizer gives the same answer** when it labels both sources. -/
theorem HasForm.structurallyEqual_eq {reporter : Reporter} {calls : List Call}
    {c : Canonicalizer} (h : (create (Frontend.python []) reporter).History calls c) :
    ∃ c' T U, c.labelBoth l r = some (.ok (c', T, U))
      ∧ Source.structurallyEqual l r = some (.ok (T.label == U.label)) := by
  obtain ⟨c', T, U, hboth, hiff⟩ := hl.exists_labelBoth hr h
  obtain ⟨equal, hequal, hiff'⟩ := hl.structurallyEqual hr
  refine ⟨c', T, U, hboth, ?_⟩
  rw [hequal, (Bool.eq_iff_iff.2 (hiff'.trans (hiff.symm.trans beq_iff_eq.symm)) :
    equal = (T.label == U.label))]

end Forms

/-! ## Renderings -/

/-- The rendering of a source is that of its labeled tree. -/
theorem render_eq {root : Value} {labeled : Labeled} {T : Rose Nat}
    (hlabeled : standard.label root = some labeled) (hT : labeled.result = .ok T) :
    (Source.tree root).render = some (labeled.canonicalizer.render T) := by
  obtain ⟨d, _, _⟩ := labeled
  obtain rfl := hT
  unfold Source.render
  rw [show standard.labelSource (.tree root) unnamed = _ from hlabeled]
  rfl

/-- **Sources with the same form are rendered alike** if the leaves of one of them are
plain. -/
theorem HasForm.render_eq {l r : Source} {F : Form} (hl : l.HasForm F) (hr : r.HasForm F)
    (hplain : l.PlainLeaves) : ∃ outcome, l.render = some outcome ∧ r.render = some outcome := by
  obtain ⟨a, rfl, ha⟩ := hl
  obtain ⟨b, rfl, hb⟩ := hr
  have hstart : standard.History [] standard := .nil
  obtain ⟨first, hfirst, hencodes⟩ := hstart.exists_label coherent_empty ha
  obtain ⟨T, hT, -⟩ := hencodes.exists_ok
  obtain ⟨second, hsecond, hencodes'⟩ := hstart.exists_label coherent_empty hb
  obtain ⟨U, hU, -⟩ := hencodes'.exists_ok
  obtain ⟨rfl, hnext, σ, hσ⟩ := History.same_numbering ha hb hfirst hT hsecond hU
  have h : standard.History [⟨a, first⟩] first.canonicalizer := .snoc .nil hfirst
  have hleaves : ∀ (id : Nat) v,
      first.canonicalizer.tables.representations[id]? = some (.leaf v) →
      ∃ w : Value, w.Plain ∧ w.leafKey = v.leafKey := by
    intro id v hv
    obtain ⟨call, hcall, path, w, hreached, hkey⟩ :=
      h.exists_leaf (List.forall_mem_singleton.2 ⟨T, hT⟩) hv
    obtain rfl := List.mem_singleton.1 hcall
    exact ⟨w, hplain a rfl path w hreached, hkey⟩
  have hclassifier := classifier_eq hnext (looksLike_of_renamedTo hσ hleaves)
  have hreporter : first.canonicalizer.reporter = second.canonicalizer.reporter :=
    (label_spec coherent_empty hfirst).2.1.trans (label_spec coherent_empty hsecond).2.1.symm
  have hrender : first.canonicalizer.render T = second.canonicalizer.render T := by
    unfold Canonicalizer.render
    rw [hclassifier, hreporter]
  refine ⟨_, Source.render_eq hfirst hT, ?_⟩
  rw [Source.render_eq hsecond hU, hrender]

end Source

/-! ## A small program -/

mutual

/-- The keys of the leaves of a form. -/
def Form.leafKeys : Form → List LeafKey
  | .absent => []
  | .leaf key => [key]
  | .list items => leafKeysEach items
  | .node _ properties => leafKeysEach properties

/-- The keys of the leaves of some forms. -/
def Form.leafKeysEach : List Form → List LeafKey
  | [] => []
  | F :: Fs => F.leafKeys ++ leafKeysEach Fs

end

namespace Form

theorem leafKeysEach_children : ∀ F : Form, ∀ key ∈ leafKeysEach F.children, key ∈ F.leafKeys
  | .absent, _, h | .leaf _, _, h => by cases h
  | .list _, _, h | .node _ _, _, h => h

theorem mem_leafKeysEach {F : Form} {Fs : List Form} (hF : F ∈ Fs) {key : LeafKey}
    (hkey : key ∈ F.leafKeys) : key ∈ leafKeysEach Fs := by
  induction hF with
  | head => exact List.mem_append_left _ hkey
  | tail _ _ ih => exact List.mem_append_right _ ih

/-- The key of a leaf at any position of a form is one of them. -/
theorem mem_leafKeys {F : Form} {path : List Nat} {key : LeafKey}
    (h : F.at? path = some (.leaf key)) : key ∈ F.leafKeys := by
  induction path generalizing F with
  | nil =>
    cases h
    exact List.mem_singleton.2 rfl
  | cons i path ih =>
    obtain ⟨G, hG, hkey⟩ := Option.bind_eq_some_iff.1 h
    exact F.leafKeysEach_children key (mem_leafKeysEach (List.mem_of_getElem? hG) (ih hkey))

end Form

/-- A statement that is a number. -/
def Value.numberStatement (ref : Nat) (n : Int) : Value :=
  .node ⟨ref, "Expr", "Expr", some (toString n), some "<ast.Expr object at 0x1f>"⟩
    [("value", .number (ref + 1) n)]

/-- A program of one statement, which is a number. -/
def Value.program (ref : Nat) (n : Int) : Value :=
  .node ⟨ref, "Module", "Module", some (toString n), some "<ast.Module object at 0x1a>"⟩ [
    ("body", .list [.numberStatement (ref + 1) n]),
    ("type_ignores", .list [])]

/-- The form of a program of one statement, which is a number. -/
def Form.program (n : Int) : Form :=
  .node "Module" [.list [.node "Expr" [.node "Constant" [.leaf (.atom (.int n)),
    .leaf (.atom .null)]]], .list []]

/-- **The form of the small program.** -/
theorem Source.hasForm_program (ref : Nat) (n : Int) :
    (Source.tree (.program ref n)).HasForm (.program n) := by
  have hexpr : (Frontend.python []).form (.numberStatement (ref + 1) n)
      = some (.ok (.node "Expr" [.node "Constant" [.leaf (.atom (.int n)),
        .leaf (.atom .null)]])) := by
    have hknown : (Frontend.python []).properties? "Expr" = some [⟨"value", .child⟩] :=
      Grammar.properties?_inForce declaredGrammar_properties?.2.1 rfl
    have hvalue : (Frontend.python []).SlotForm (.number (ref + 2) n) _ :=
      .node rfl (Frontend.form_number (ref + 2) n)
    exact Frontend.form_eq_ok_iff.2 ⟨_, _, hknown, .cons hvalue .nil, rfl⟩
  have hknown : (Frontend.python []).properties? "Module"
      = some [⟨"body", .childList⟩, ⟨"type_ignores", .childList⟩] :=
    Grammar.properties?_inForce declaredGrammar_properties?.1 rfl
  refine ⟨_, rfl, Frontend.form_eq_ok_iff.2 ⟨_, _, hknown,
    .cons ⟨_, rfl, _, .cons (.node rfl hexpr) .nil, rfl⟩ (.cons ⟨_, rfl, _, .nil, rfl⟩ .nil), rfl⟩⟩

/-- The leaves of the small program are plain. -/
theorem Source.plainLeaves_program (ref : Nat) (n : Int) :
    (Source.tree (.program ref n)).PlainLeaves := by
  rintro _ ⟨⟩ path v hreached
  obtain ⟨_, ⟨⟩, hF⟩ := hasForm_program ref n
  obtain ⟨_, hG, key, hkey, rfl⟩ := Frontend.exists_form_at hF hreached
  have hmem : key = .atom (.int n) ∨ key = .atom .null := by
    simpa [Form.program, Form.leafKeys, Form.leafKeysEach] using Form.mem_leafKeys hG
  rcases hmem with rfl | rfl
  · exact Value.plain_of_leafKey_atom hkey (by simp) (by simp)
  · exact Value.plain_of_leafKey_atom hkey (by simp) (by simp)

/-! ## The equivalence relation -/

namespace Source

/-- **Structural equality compares forms and is an equivalence relation.** For sources
that are labeled with success, it holds exactly if the forms of the sources are equal; it
is reflexive, symmetric and transitive; and it is what any canonicalizer of Python's
syntax trees finds that labels both sources, in either order and whatever it has labeled
before. Sources for which it holds are rendered with the same text or the same failure, if
their leaves are plain. -/
theorem structurallyEqual_decides {l r s : Source} (hl : l.Labels) (hr : r.Labels)
    (hs : s.Labels) :
    (∃ F G equal, l.HasForm F ∧ r.HasForm G
      ∧ structurallyEqual l r = some (.ok equal) ∧ (equal = true ↔ F = G))
    ∧ structurallyEqual l l = some (.ok true)
    ∧ structurallyEqual r l = structurallyEqual l r
    ∧ (structurallyEqual l r = some (.ok true) → structurallyEqual r s = some (.ok true) →
      structurallyEqual l s = some (.ok true))
    ∧ (∀ (reporter : Reporter) (calls : List Call) (c : Canonicalizer),
      (create (Frontend.python []) reporter).History calls c →
      (∃ c' T U, c.labelBoth l r = some (.ok (c', T, U))
        ∧ structurallyEqual l r = some (.ok (T.label == U.label)))
      ∧ ∃ c' T U, c.labelBoth r l = some (.ok (c', U, T))
        ∧ structurallyEqual l r = some (.ok (T.label == U.label)))
    ∧ (structurallyEqual l r = some (.ok true) → l.PlainLeaves →
      ∃ outcome, l.render = some outcome ∧ r.render = some outcome) := by
  obtain ⟨F, hF⟩ := hl.exists_form
  obtain ⟨G, hG⟩ := hr.exists_form
  obtain ⟨H, hH⟩ := hs.exists_form
  refine ⟨?_, ?_, hF.structurallyEqual_comm hG, ?_, ?_, ?_⟩
  · obtain ⟨equal, hequal, hiff⟩ := hF.structurallyEqual hG
    exact ⟨F, G, equal, hF, hG, hequal, hiff⟩
  · exact (hF.structurallyEqual_iff hF).2 rfl
  · rw [hF.structurallyEqual_iff hG, hG.structurallyEqual_iff hH, hF.structurallyEqual_iff hH]
    exact Eq.trans
  · intro reporter calls c h
    refine ⟨hF.structurallyEqual_eq hG h, ?_⟩
    obtain ⟨c', U, T, hboth, hequal⟩ := hG.structurallyEqual_eq hF h
    refine ⟨c', T, U, hboth, ?_⟩
    rw [← hF.structurallyEqual_comm hG, hequal, Bool.beq_comm]
  · intro hequal hplain
    obtain rfl := (hF.structurallyEqual_iff hG).1 hequal
    exact hF.render_eq hG hplain

/-- Two small programs that differ in their nodes only. -/
theorem structurallyEqual_decides_program :
    let l := tree (.program 0 1)
    let r := tree (.program 3 1)
    l.Labels ∧ r.Labels ∧ structurallyEqual l r = some (.ok true)
      ∧ structurallyEqual r l = some (.ok true)
      ∧ ∃ outcome, l.render = some outcome ∧ r.render = some outcome := by
  intro l r
  have hl : l.HasForm (.program 1) := hasForm_program 0 1
  have hr : r.HasForm (.program 1) := hasForm_program 3 1
  obtain ⟨-, -, hcomm, -, -, hrender⟩ :=
    structurallyEqual_decides hl.labels hr.labels hl.labels
  have hequal : structurallyEqual l r = some (.ok true) := (hl.structurallyEqual_iff hr).2 rfl
  exact ⟨hl.labels, hr.labels, hequal, hcomm.trans hequal,
    hrender hequal (plainLeaves_program 0 1)⟩

end Source

end HashConsing
