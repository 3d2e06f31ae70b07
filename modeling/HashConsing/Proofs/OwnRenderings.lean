import HashConsing.Proofs.Decoding
import HashConsing.Proofs.Numerals
import HashConsing.Proofs.Permanence
import HashConsing.Proofs.Unfolding
import HashConsing.Proofs.Writing

/-!
# Renderings of own trees

A canonicalizer knows all ids in a tree that it has labeled, and they go on standing for the same
things. So the captions of such a tree can be told from its form (`Tables.Coherent.captioned`):
below the root, exactly the leaves of the form are shown with a text. The one thing a rendering
fails on is a leaf that cannot be written, since an integer in it is too long
(`Tables.Coherent.caption_writesIff`).

Labels are texts of ids and fall under the limit for integers as well. A tree whose labels are
beyond it is never handed out, so trees are taken here to have their labels (`Rose.HasLabels`).

What is rendered later is what could be rendered at first, and it does not matter whether a tree
is rendered as it was labeled or as nodes that it was handed out as. All of this is
`Canonicalizer.History.render_own`.
-/

namespace HashConsing

/-! ## Forms with leaves that can be written -/

namespace Form

/-- A form is that of a leaf. -/
def isLeaf : Form → Bool
  | leaf _ => true
  | _ => false

theorem isLeaf_iff {F : Form} : F.isLeaf = true ↔ ∃ key, F = leaf key := by
  cases F <;> simp [isLeaf]

/-- **Forms of which every leaf can be written.** -/
def Writable (F : Form) : Prop := ∀ path key, F.at? path = some (.leaf key) → key.Writable

/-- Apart from leaves, a form can be written if all leaves below it can. -/
theorem writable_iff {F : Form} (hF : F.isLeaf = false) : F.Writable
    ↔ ∀ path key, path ≠ [] → F.at? path = some (.leaf key) → key.Writable := by
  constructor
  · exact fun h path key _ hkey => h path key hkey
  · rintro h (_ | ⟨i, path⟩) key hkey
    · cases hkey
      cases hF
    · exact h (i :: path) key (List.cons_ne_nil i path) hkey

end Form

/-! ## Trees with labels -/

namespace Rose

/-- **All labels of a tree can be written**: no id in it is too long. -/
def HasLabels (T : Rose Nat) : Prop :=
  ∀ path U, T.at? path = some U → ∃ label, Text.writeInteger U.value = .ok label

variable {T U : Rose Nat} {path : List Nat}

theorem hasLabels_iff :
    T.HasLabels ↔ ∀ path U, T.at? path = some U → U.value < Text.integerBound := by
  constructor
  · intro h path U hU
    obtain ⟨_, hlabel⟩ := h path U hU
    exact (Value.writeInteger_writesIff U.value).of_eq_ok hlabel
  · exact fun h path U hU => ⟨_, Text.writeInteger_of_lt (h path U hU)⟩

theorem HasLabels.value_lt (h : T.HasLabels) : T.value < Text.integerBound :=
  hasLabels_iff.1 h [] T rfl

/-- The trees in a tree with labels have labels. -/
theorem HasLabels.at? (h : T.HasLabels) (hU : T.at? path = some U) : U.HasLabels := by
  intro below V hV
  refine h (path ++ below) V ?_
  rw [at?_append, hU]
  exact hV

end Rose

/-! ## Sizes of own trees -/

/-- The number of positions in a form. -/
def Form.size : Form → Nat
  | absent => 1
  | leaf _ => 1
  | list items => 1 + (items.map size).sum
  | node _ properties => 1 + (properties.map size).sum

theorem Form.size_eq (F : Form) : F.size = 1 + (F.children.map size).sum := by
  cases F <;> simp [size, children]

mutual

/-- A labeled tree has as many nodes as its form has positions. -/
theorem Tables.size_of_treeOf? {t : Tables} : ∀ {T : Rose Nat} {F : Form},
    t.treeOf? F = some T → T.size = F.size
  | .node id Ts, F, hF => by
    have hFs : List.Forall₂ (fun T F => t.treeOf? F = some T) Ts F.children :=
      children_of_treeOf? hF
    rw [Rose.size_node, F.size_eq, sizes_of_treesOf? hFs]

/-- Labeled trees have as many nodes as their forms have positions. -/
theorem Tables.sizes_of_treesOf? {t : Tables} : ∀ {Ts : List (Rose Nat)} {Fs : List Form},
    List.Forall₂ (fun T F => t.treeOf? F = some T) Ts Fs → Ts.map Rose.size = Fs.map Form.size
  | [], _, .nil => rfl
  | _ :: _, _, .cons hF hFs => by
    rw [List.map_cons, List.map_cons, size_of_treeOf? hF, sizes_of_treesOf? hFs]

end

/-! ## Captions of own trees -/

/-- Where a label is in an own tree, there is an id with a form. -/
theorem Tables.exists_at?_of_label {t : Tables} {T : Rose Nat} {F : Form} {path : List Nat}
    {u : Rose String} (hF : t.treeOf? F = some T) (hu : (T.map toString).at? path = some u) :
    ∃ U G, U.map toString = u ∧ T.at? path = some U ∧ F.at? path = some G
      ∧ t.treeOf? G = some U := by
  obtain ⟨U, hU, hlabels⟩ := Rose.exists_at?_of_map hu
  obtain ⟨G, hG, hGU⟩ := at?_of_treeOf? hF hU
  exact ⟨U, G, hlabels, hU, hG, hGU⟩

/-- **The captions of a labeled tree**, in which some positions are those of leaves. They show the
labels of the tree, and exactly at the leaves below the root a text, which is the one that the
tables have. -/
structure Tables.Captioned (t : Tables) (leafAt : List Nat → Prop) (T : Rose Nat)
    (D : Rose Caption) : Prop where
  labels : D.map Caption.label = T.map toString
  root : D.value.text? = none
  leaf : ∀ path U E, path ≠ [] → leafAt path → T.at? path = some U → D.at? path = some E →
    ∃ text, E.value.text? = some text ∧ t.leafText (.int U.value) = .ok text
  node : ∀ path E, path ≠ [] → ¬leafAt path → D.at? path = some E → E.value.text? = none

namespace Tables.Coherent

variable {t : Tables} {T : Rose Nat} {F : Form} (h : t.Coherent)

include h

/-! ### Answers about the ids -/

section Answers

variable (hF : t.treeOf? F = some T)

include hF

/-- **Own trees are classified by their forms.** -/
theorem isLeaf_value : t.isLeaf (.int T.value) = .ok F.isLeaf := by
  have hstands := h.standsFor hF
  have hclassified : ∀ {r : Representation}, t.representations[T.value]? = some r →
      t.isLeaf (.int T.value) = .ok r.isLeaf := by
    intro r hr
    unfold isLeaf
    rw [h.representation_of_some hr]
    rfl
  cases F with
  | absent => exact hclassified hstands.2
  | leaf key =>
    obtain ⟨v, hv, -⟩ := hstands.2
    exact hclassified hv
  | list items => exact hclassified hstands
  | node kind properties => exact hclassified hstands

/-- Whether a label in an own tree is that of a leaf can be told if the label can be read. -/
theorem isLeaf_label : (Text.readInteger (toString T.value) >>= t.classifier.isLeaf)
    = if T.value < Text.integerBound then .ok F.isLeaf
      else .error (.numeralTooLong (Nat.toDigits 10 T.value).length) := by
  rw [Text.readInteger_toString_eq]
  split
  · exact h.isLeaf_value hF
  · rfl

/-- Leaves end own trees. -/
theorem leavesEnd : t.classifier.LeavesEnd (T.map toString) := by
  intro path u _ hu hleaf
  obtain ⟨U, G, rfl, -, -, hG⟩ := exists_at?_of_label hF hu
  rw [Rose.value_map, h.isLeaf_label hG] at hleaf
  split at hleaf
  · obtain ⟨key, rfl⟩ := Form.isLeaf_iff.1 (Except.ok.inj hleaf)
    have hchildren : List.Forall₂ (fun T F => t.treeOf? F = some T) U.children [] :=
      children_of_treeOf? hG
    rw [Rose.children_map, List.forall₂_nil_right_iff.1 hchildren]
    rfl
  · cases hleaf

end Answers

/-- **The text of a leaf in an own tree** is that of a value with its key. -/
theorem exists_leafText_value {key : LeafKey} (hF : t.treeOf? (.leaf key) = some T) :
    ∃ v : Value, v.leafKey = .ok key ∧ t.leafText (.int T.value) = v.leafText := by
  obtain ⟨v, hv, hkey⟩ := (h.standsFor hF).2
  refine ⟨v, hkey, ?_⟩
  unfold leafText
  rw [h.representation_of_some hv]
  rfl

/-- A leaf in an own tree has a text if its key can be written. -/
theorem leafText_writesIff {key : LeafKey} (hF : t.treeOf? (.leaf key) = some T) :
    WritesIff key.Writable (t.leafText (.int T.value)) := by
  obtain ⟨v, hkey, htext⟩ := h.exists_leafText_value hF
  rw [htext]
  exact Value.leafText_writesIff_writable hkey

/-- **Where a rendering fails, there is a leaf that cannot be written**, if the label can be
read. -/
theorem of_failsAt (hF : t.treeOf? F = some T) (hread : T.value < Text.integerBound)
    {failure : Failure} (hfails : t.classifier.FailsAt (toString T.value) failure) :
    failure = .integerTooLong ∧ ∃ key, F = .leaf key ∧ ¬key.Writable := by
  rw [Classifier.FailsAt, h.isLeaf_label hF, if_pos hread,
    Text.readInteger_toString hread] at hfails
  rcases hfails with hfails | ⟨hleaf, htext⟩
  · cases hfails
  · obtain ⟨key, rfl⟩ := Form.isLeaf_iff.1 (Except.ok.inj hleaf)
    have hwrites := h.leafText_writesIff hF
    rw [show t.leafText (.int T.value) = .error failure from htext] at hwrites
    cases hwrites with
    | error hnot => exact ⟨rfl, key, rfl, hnot⟩

/-! ### What is shown -/

section Shown

variable (hF : t.treeOf? F = some T)

include hF

variable {D : Rose Caption} (hD : t.classifier.caption false (T.map toString) = .ok D)

include hD

/-- What is shown below the root shows a text if it has the form of a leaf. -/
theorem exists_shown_at {path : List Nat} (hpath : path ≠ []) {E : Rose Caption}
    (hE : D.at? path = some E) : ∃ U G, T.at? path = some U ∧ F.at? path = some G
      ∧ (G.isLeaf = true ∧ (∃ text, E.value.text? = some text
          ∧ t.leafText (.int U.value) = .ok text)
        ∨ G.isLeaf = false ∧ E.value.text? = none) := by
  obtain ⟨u, hu, hshows⟩ := Classifier.exists_shows_at hD hpath hE
  obtain ⟨U, G, rfl, hU, hG, hGU⟩ := exists_at?_of_label hF hu
  have hshown := hshows.text?
  rw [Rose.value_map, h.isLeaf_label hGU] at hshown
  by_cases hread : U.value < Text.integerBound
  · rw [if_pos hread, Text.readInteger_toString hread] at hshown
    refine ⟨U, G, hU, hG, ?_⟩
    rcases hshown with ⟨hleaf, htext⟩ | ⟨hleaf, hnone⟩
    · exact .inl ⟨Except.ok.inj hleaf, htext⟩
    · exact .inr ⟨Except.ok.inj hleaf, hnone⟩
  · rw [if_neg hread] at hshown
    rcases hshown with ⟨hleaf, -⟩ | ⟨hleaf, -⟩ <;> cases hleaf

/-- **The captions of an own tree** show its labels, and the texts of its leaves. -/
theorem captioned : t.Captioned (fun path => ∃ key, F.at? path = some (.leaf key)) T D where
  labels := Classifier.map_label_of_caption hD (h.leavesEnd hF) nofun
  root := by
    obtain ⟨id, Ts⟩ := T
    rw [Rose.map_node] at hD
    obtain ⟨items, rfl, -⟩ := Classifier.caption_node hD
    rfl
  leaf path U E hpath hleaf hU hE := by
    obtain ⟨key, hkey⟩ := hleaf
    obtain ⟨U', G, hU', hG, hshown⟩ := h.exists_shown_at hF hD hpath hE
    obtain rfl := Option.some.inj (hU.symm.trans hU')
    obtain rfl := Option.some.inj (hkey.symm.trans hG)
    rcases hshown with ⟨-, htext⟩ | ⟨hnot, -⟩
    · exact htext
    · cases hnot
  node path E hpath hleaf hE := by
    obtain ⟨U, G, -, hG, hshown⟩ := h.exists_shown_at hF hD hpath hE
    rcases hshown with ⟨hGleaf, -⟩ | ⟨-, hnone⟩
    · obtain ⟨key, rfl⟩ := Form.isLeaf_iff.1 hGleaf
      exact absurd ⟨key, hG⟩ hleaf
    · exact hnone

/-- **If captions are found, all leaves below the root can be written.** -/
theorem of_caption_eq_ok {path : List Nat} {key : LeafKey} (hpath : path ≠ [])
    (hkey : F.at? path = some (.leaf key)) : key.Writable := by
  obtain ⟨U, hU, hleaf⟩ := exists_tree_at? hF hkey
  obtain ⟨E, hE⟩ := Classifier.exists_caption_at hD (h.leavesEnd hF)
    ((Rose.at?_map toString T _).trans (congrArg _ hU))
  obtain ⟨text, -, htext⟩ := (h.captioned hF hD).leaf path U E hpath ⟨key, hkey⟩ hU hE
  exact (h.leafText_writesIff hleaf).of_eq_ok htext

end Shown

/-- **The captions of an own tree are found exactly if all leaves below the root can be
written.** -/
theorem caption_writesIff (hF : t.treeOf? F = some T) (hlabels : T.HasLabels) :
    WritesIff (∀ path key, path ≠ [] → F.at? path = some (.leaf key) → key.Writable)
      (t.classifier.caption false (T.map toString)) := by
  cases hcaption : t.classifier.caption false (T.map toString) with
  | ok D => exact .ok (fun _ _ => h.of_caption_eq_ok hF hcaption) D
  | error failure =>
    rcases Classifier.failsAt_of_caption hcaption with ⟨hroot, -⟩ | ⟨path, u, hpath, hu, hfails⟩
    · cases hroot
    · obtain ⟨U, G, rfl, hU, hG, hGU⟩ := exists_at?_of_label hF hu
      rw [Rose.value_map] at hfails
      obtain ⟨rfl, key, rfl, hkey⟩ := h.of_failsAt hGU (hlabels.at? hU).value_lt hfails
      exact .error fun hwritable => hkey (hwritable path key hpath hG)

/-- As long as all ids can be written, own trees have labels. -/
theorem hasLabels (hF : t.treeOf? F = some T) (hbound : t.nextId ≤ Text.integerBound) :
    T.HasLabels :=
  Rose.hasLabels_iff.2 fun _ _ hU => Nat.lt_of_lt_of_le (h.value_lt_of_at? hF hU) hbound

end Tables.Coherent

/-- **Classifiers agree on ids that have been handed out** when tables grow. -/
theorem Tables.GrowsTo.agrees {t u : Tables} (hgrows : t.GrowsTo u) (h : t.Coherent) {id : Nat}
    (hlt : id < t.nextId) : u.classifier.Agrees t.classifier (toString id) := by
  have hid : (Value.int id).idNumber? = some (id : Int) := rfl
  have halike : t.AnswersAlike u (.int id) := hgrows.answersAlike h hid hlt
  constructor
  · rw [Text.readInteger_toString_eq]
    split
    · exact halike.isLeaf
    · rfl
  · rw [Text.readInteger_toString_eq]
    split
    · exact halike.leafText
    · rfl

/-! ## A small tree -/

/-- A node with one leaf has no other leaves. -/
theorem Form.eq_of_at?_node_leaf {kind : String} {key key' : LeafKey} {path : List Nat}
    (h : (Form.node kind [.leaf key]).at? path = some (.leaf key')) : key' = key := by
  match path, h with
  | [0], h => exact Form.leaf.inj (Option.some.inj h).symm

theorem Form.size_node_leaf_le {kind : String} {key : LeafKey} :
    firstId + (Form.node kind [.leaf key]).size ≤ 2 ^ 64 := by
  simp [Form.size, firstId]

/-- A name that is no text, but a set of one number. -/
def Value.numberSet (n : Int) : Value :=
  .node ⟨0, "Node", "Name", some "Name", some "Name"⟩ [("text", .frozenset [.int n])]

theorem Frontend.form_numberSet (n : Int) : Dialect.blocks.frontend.form (.numberSet n)
    = some (.ok (.node "Name" [.leaf (.setOf [.atom (.int n)])])) :=
  form_eq_ok_iff.2 ⟨[⟨"text", .leaf⟩], _, rfl, .cons ⟨rfl, _, rfl, rfl⟩ .nil, rfl⟩

/-! ## Renderings -/

namespace Canonicalizer

open Tables

/-- An own tree is rendered alike as it was labeled and as nodes with its labels. -/
theorem render_unfolds (c : Canonicalizer) {f : Forest} {r : Ref} {t : Rose Ref} {U : Rose Nat}
    (hr : f.Unfolds r t) (hlabels : t.map f.label = U.map toString) :
    f.render c.tables.classifier c.reporter.settings.indent r = c.render U := by
  rw [hr.render_eq_printed, hlabels, c.render_eq_printed]

section Rendering

variable {c : Canonicalizer} (h : c.tables.Coherent) {T : Rose Nat} {F : Form}
  (hF : c.tables.treeOf? F = some T)

include h hF

/-- **An own tree can be rendered exactly if all leaves below its root can be written.** -/
theorem render_writesIff (hlabels : T.HasLabels) :
    WritesIff (∀ path key, path ≠ [] → F.at? path = some (.leaf key) → key.Writable)
      (c.render T) := by
  rw [c.render_eq_printed]
  exact (h.caption_writesIff hF hlabels).map _

/-- **A rendering of an own tree prints its captions.** -/
theorem captioned_of_render_eq_ok {text : String} (htext : c.render T = .ok text) :
    ∃ D, c.tables.Captioned (fun path => ∃ key, F.at? path = some (.leaf key)) T D
      ∧ text = Rose.printed c.reporter.settings.indent 0 D := by
  rw [c.render_eq_printed] at htext
  obtain ⟨D, hD, hpure⟩ := Failure.exists_of_bind_eq_ok htext
  exact ⟨D, h.captioned hF hD, (Except.ok.inj hpure).symm⟩

/-- **An own tree is rendered alike** when tables grow. -/
theorem render_growsTo {c' : Canonicalizer} (hgrows : c.tables.GrowsTo c'.tables)
    (hreporter : c'.reporter = c.reporter) : c'.render T = c.render T := by
  have hcaption : c'.tables.classifier.caption false (T.map toString)
      = c.tables.classifier.caption false (T.map toString) := by
    refine Classifier.caption_congr false fun path u hu => ?_
    obtain ⟨U, G, rfl, -, -, hG⟩ := exists_at?_of_label hF hu
    rw [Rose.value_map]
    exact hgrows.agrees h (h.value_lt hG)
  rw [c'.render_eq_printed, c.render_eq_printed, hcaption, hreporter]

end Rendering

/-! ## Renderings of what was labeled -/

section Reached

variable {fe : Frontend} {root : Value} {F G : Form} {path : List Nat}
  (hF : fe.form root = some (.ok F)) (hG : F.at? path = some G)

include hF hG

/-- A leaf that is reached below a position stands in the form there. -/
theorem exists_key_of_reaches {below : List Nat} {v : Value}
    (hv : fe.Reaches root (path ++ below) (.leaf v)) :
    ∃ key, G.at? below = some (.leaf key) ∧ v.leafKey = .ok key := by
  obtain ⟨_, hleaf, key, hkey, rfl⟩ := Frontend.exists_form_at hF hv
  rw [Form.at?_append, hG] at hleaf
  exact ⟨key, hleaf, hkey⟩

/-- **Leaves are reached below a position** where the form there has them. -/
theorem exists_reaches_iff {below : List Nat} :
    (∃ v, fe.Reaches root (path ++ below) (.leaf v)) ↔ ∃ key, G.at? below = some (.leaf key) := by
  constructor
  · rintro ⟨v, hv⟩
    obtain ⟨key, hkey, -⟩ := exists_key_of_reaches hF hG hv
    exact ⟨key, hkey⟩
  · rintro ⟨key, hkey⟩
    have hbelow : F.at? (path ++ below) = some (.leaf key) := by
      rw [Form.at?_append, hG]
      exact hkey
    obtain ⟨v, hv, -⟩ := Frontend.exists_leaf_at hF hbelow
    exact ⟨v, hv⟩

/-- **The leaves that are reached below a position have texts** if those of the form there can be
written. It does not matter where leaves are left out. -/
theorem forall_leafText_iff {P : List Nat → Prop} :
    (∀ below v, P below → fe.Reaches root (path ++ below) (.leaf v) →
      ∃ text, v.leafText = .ok text)
    ↔ ∀ below key, P below → G.at? below = some (.leaf key) → key.Writable := by
  constructor
  · intro htexts below key hbelow hkey
    have hleaf : F.at? (path ++ below) = some (.leaf key) := by
      rw [Form.at?_append, hG]
      exact hkey
    obtain ⟨v, hv, hvkey⟩ := Frontend.exists_leaf_at hF hleaf
    obtain ⟨text, htext⟩ := htexts below v hbelow hv
    exact (Value.leafText_writesIff_writable hvkey).of_eq_ok htext
  · intro hwritable below v hbelow hv
    obtain ⟨key, hkey, hvkey⟩ := exists_key_of_reaches hF hG hv
    exact (Value.leafText_writesIff_writable hvkey).exists_ok (hwritable below key hbelow hkey)

end Reached

namespace History

variable {fe : Frontend} {reporter : Reporter} {c c' : Canonicalizer} {calls calls' : List Call}

/-- A tree that has a form is labeled with no more ids than the form has positions. -/
theorem exists_labeled (reporter : Reporter) {root : Value} {F : Form}
    (hF : fe.form root = some (.ok F)) :
    ∃ labeled T, (create fe reporter).History [⟨root, labeled⟩] labeled.canonicalizer
      ∧ labeled.result = .ok T ∧ labeled.canonicalizer.tables.treeOf? F = some T
      ∧ labeled.canonicalizer.tables.nextId ≤ firstId + F.size := by
  have hstart : (create fe reporter).History [] (create fe reporter) := .nil
  obtain ⟨labeled, hlabel, hencodes⟩ := hstart.exists_label coherent_empty hF
  obtain ⟨T, hT, hFT⟩ := hencodes.exists_ok
  have hnext : labeled.canonicalizer.tables.nextId ≤ firstId + T.size :=
    hstart.nextId_le hlabel hT
  rw [size_of_treeOf? hFT] at hnext
  exact ⟨labeled, T, hstart.snoc hlabel, hT, hFT, hnext⟩

/-- A small tree is labeled with few ids. -/
theorem exists_small (reporter : Reporter) {root : Value} {F : Form}
    (hF : fe.form root = some (.ok F)) (hsmall : firstId + F.size ≤ 2 ^ 64) :
    ∃ labeled T, (create fe reporter).History [⟨root, labeled⟩] labeled.canonicalizer
      ∧ labeled.result = .ok T ∧ labeled.canonicalizer.tables.treeOf? F = some T
      ∧ T.HasLabels := by
  obtain ⟨labeled, T, h, hT, hFT, hnext⟩ := exists_labeled reporter hF
  have hbound := Nat.le_trans hnext (Text.le_integerBound hsmall)
  exact ⟨labeled, T, h, hT, hFT, (h.coherent coherent_empty).hasLabels hFT hbound⟩

/-- **Renderings of own trees.** Take a tree that was labeled with success, a position in it, and
a later state of the canonicalizer.

A leaf that was labeled there lacks a text only if it cannot be shown: then an integer is too long,
which is the leaf or stands in it at any depth. The tree at the position is rendered exactly if no
leaf below its root lacks a text, and otherwise an integer is too long: it never fails since an id
is unknown or not that of a leaf. The rendering prints the captions of the tree: the labels, and a
text exactly where a leaf was labeled below the root, which is the text that the tables have for its
id. It is what was rendered before, and also the rendering of any nodes that the tree was handed out
as, while they have its labels and its shape. -/
theorem render_own (h : (create fe reporter).History calls c) {call : Call}
    (hcall : call ∈ calls) {T U : Rose Nat} {path : List Nat} (hT : call.labeled.result = .ok T)
    (hlabels : T.HasLabels) (hU : T.at? path = some U) (h' : c.History calls' c') :
    let leafAt (below : List Nat) (v : Value) := fe.Reaches call.root (path ++ below) (.leaf v)
    (∀ below v, leafAt below v → WritesIff v.Showable v.leafText)
    ∧ ((∃ text, c'.render U = .ok text) ↔
      ∀ below v, below ≠ [] → leafAt below v → ∃ text, v.leafText = .ok text)
    ∧ (∀ failure, c'.render U = .error failure → failure = .integerTooLong)
    ∧ (∀ text, c'.render U = .ok text → ∃ D,
      c'.tables.Captioned (fun below => ∃ v, leafAt below v) U D
      ∧ text = Rose.printed reporter.settings.indent 0 D)
    ∧ c'.render U = c.render U
    ∧ ∀ (f : Forest) (r : Ref) (t : Rose Ref), f.Unfolds r t → t.map f.label = U.map toString →
      f.render c'.tables.classifier c'.reporter.settings.indent r = c'.render U := by
  intro leafAt
  have hc : c.tables.Coherent := h.coherent coherent_empty
  have hc' : c'.tables.Coherent := h'.coherent hc
  have hgrows : c.tables.GrowsTo c'.tables := h'.growsTo hc
  have hreporter : c'.reporter = reporter := h'.reporter_eq.trans h.reporter_eq
  obtain ⟨F, hF, hFT⟩ := h.treeOf? coherent_empty hcall hT
  obtain ⟨G, hG, hGU⟩ := at?_of_treeOf? hFT hU
  have hGU' : c'.tables.treeOf? G = some U := hgrows.treeOf? hGU
  have hwrites := render_writesIff hc' hGU' (hlabels.at? hU)
  refine ⟨fun _ v _ => v.leafText_writesIff, ?_, fun failure => hwrites.failure_eq,
    fun text htext => ?_, render_growsTo hc hGU hgrows h'.reporter_eq,
    fun f r t => c'.render_unfolds⟩
  · have hiff : (∃ text, c'.render U = .ok text) ↔
        ∀ below key, below ≠ [] → G.at? below = some (.leaf key) → key.Writable :=
      ⟨fun ⟨_, htext⟩ => hwrites.of_eq_ok htext, hwrites.exists_ok⟩
    exact hiff.trans (forall_leafText_iff hF hG).symm
  · have hleaves : (fun below => ∃ v, leafAt below v)
        = fun below => ∃ key, G.at? below = some (.leaf key) :=
      funext fun below => propext (exists_reaches_iff hF hG)
    rw [hleaves, ← hreporter]
    exact captioned_of_render_eq_ok hc' hGU' htext

/-- A name that is rendered alike before and after a labeling that failed. -/
theorem render_own_name :
    ∃ a b c c' T text, (create Dialect.blocks.frontend {}).History [⟨.name 6 "x", a⟩] c
      ∧ c.History [⟨.block 3 [.name 4 "y", .int 5], b⟩] c' ∧ a.result = .ok T ∧ T.HasLabels
      ∧ c.render T = .ok text ∧ c'.render T = .ok text := by
  have hF := form_name 6 "x"
  obtain ⟨a, T, h, hT, hFT, hlabels⟩ := exists_small {} hF Form.size_node_leaf_le
  have hstart : a.canonicalizer.History [] a.canonicalizer := .nil
  have hform := form_number
  rw [show Dialect.blocks.frontend = a.canonicalizer.frontend from h.frontend_eq.symm] at hform
  obtain ⟨b, h', -⟩ := hstart.exists_snoc (h.coherent coherent_empty) hform
  have hroot : T.at? [] = some T := rfl
  obtain ⟨-, hiff, -, -, hsame, -⟩ := h.render_own List.mem_cons_self hT hlabels hroot h'
  have htexts : ∀ below v, below ≠ [] →
      Dialect.blocks.frontend.Reaches (.name 6 "x") ([] ++ below) (.leaf v) →
      ∃ text, v.leafText = .ok text := by
    intro below v _ hv
    obtain ⟨_, hleaf, key, hkey, rfl⟩ := Frontend.exists_form_at hF hv
    obtain rfl := Form.eq_of_at?_node_leaf hleaf
    exact (Value.leafText_writesIff_writable hkey).exists_ok (LeafKey.writable_atom.2 (by simp))
  obtain ⟨text, htext⟩ := hiff.2 htexts
  exact ⟨a, b, _, _, T, text, h, h', hT, hlabels, hsame ▸ htext, htext⟩

/-- **A number that is too long for a rendering may stand in a set.** No leaf is a number then, and
none is a tuple. -/
theorem render_numberSet_integerTooLong :
    let root := Value.numberSet Text.integerBound
    ∃ labeled T, (create Dialect.blocks.frontend {}).History [⟨root, labeled⟩] labeled.canonicalizer
      ∧ labeled.result = .ok T
      ∧ (∀ path v, Dialect.blocks.frontend.Reaches root path (.leaf v) →
          (∀ n, v ≠ .int n) ∧ ∀ items, v ≠ .tuple items)
      ∧ labeled.canonicalizer.render T = .error .integerTooLong := by
  intro root
  have hF := Frontend.form_numberSet Text.integerBound
  obtain ⟨labeled, T, h, hT, hFT, hlabels⟩ := exists_small {} hF Form.size_node_leaf_le
  refine ⟨labeled, T, h, hT, fun path v hv => ?_, ?_⟩
  · obtain ⟨_, hleaf, key, hkey, rfl⟩ := Frontend.exists_form_at hF hv
    obtain rfl := Form.eq_of_at?_node_leaf hleaf
    constructor
    · rintro n rfl
      cases hkey
    · rintro items rfl
      obtain ⟨keys, -, hpure⟩ := Failure.exists_of_bind_eq_ok hkey
      cases hpure
  · have hlong : ¬(LeafKey.setOf [.atom (.int Text.integerBound)]).Writable := by
      rw [LeafKey.writable_setOf, List.forall_mem_singleton, LeafKey.writable_int,
        Int.natAbs_natCast]
      exact Nat.lt_irrefl _
    have hwrites := render_writesIff (h.coherent coherent_empty) hFT hlabels
    exact hwrites.eq_error fun hwritable => hlong (hwritable [0] _ (List.cons_ne_nil 0 []) rfl)

end History

end Canonicalizer

end HashConsing
