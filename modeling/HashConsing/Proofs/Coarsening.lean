import HashConsing.Proofs.GrammarInForce
import HashConsing.Proofs.Pieces
import HashConsing.Proofs.Renaming

/-!
# Looking at less

A front-end that looks at fewer properties tells fewer trees apart. Whatever has a form
has a form without some of its properties, and the one is a projection of the other:
subtrees below a property that is left out are gone, and so is what may be wrong with them
(`Frontend.HasForm.project`). So what had the same id before has the same id now, and as a
projection has no more forms than it was given, there are no more ids.

For Python's syntax trees this is what ignoring more properties does:
`Canonicalizer.History.ignoring_coarsens`.
-/

namespace HashConsing

/-! ## Projections -/

/-- **A front-end that looks at some of the properties only.** -/
def Frontend.restrict (fe : Frontend) (keeps : String → Property → Bool) : Frontend :=
  { fe with properties? := fun kind => (fe.properties? kind).map (List.filter (keeps kind)) }

section Projections

variable (fe : Frontend) (keeps : String → Property → Bool)

mutual

/-- **A form without some of its properties.** The properties of a node are in the order
of their declaration. -/
def Form.project : Form → Form
  | .absent => .absent
  | .leaf key => .leaf key
  | .list items => .list (projectItems items)
  | .node kind properties =>
    .node kind (projectProperties (keeps kind) ((fe.properties? kind).getD []) properties)

/-- The items of a list without some of their properties. -/
def Form.projectItems : List Form → List Form
  | [] => []
  | item :: items => item.project :: projectItems items

/-- The properties of a node that are kept, without some of their own properties. -/
def Form.projectProperties (keep : Property → Bool) : List Property → List Form → List Form
  | p :: ps, property :: properties =>
    if keep p then property.project :: projectProperties keep ps properties
    else projectProperties keep ps properties
  | _, _ => []

end

variable {fe keeps}

namespace Frontend

/-- The form of a place for a node is projected if the form of the node is. -/
theorem SlotForm.project {v : Value} {F : Form} (h : fe.SlotForm v F)
    (hproject : ∀ piece, fe.HasForm piece F →
      (fe.restrict keeps).HasForm piece (F.project fe keeps)) :
    (fe.restrict keeps).SlotForm v (F.project fe keeps) := by
  cases h with
  | absent hnull =>
    rw [Form.project]
    exact .absent hnull
  | node hpart hform => exact .node hpart (hproject (.node v) hform)

/-- The form of a property is projected if the form of the piece that it holds is. -/
theorem PropertyForm.project {v : Value} {p : Property} {F : Form} (h : fe.PropertyForm v p F)
    (hproject : ∀ piece, fe.HasForm piece F →
      (fe.restrict keeps).HasForm piece (F.project fe keeps)) :
    (fe.restrict keeps).PropertyForm v p (F.project fe keeps) := by
  cases hk : p.kind with
  | leaf =>
    obtain ⟨hnode, hform⟩ := (propertyForm_leaf hk).1 h
    exact (propertyForm_leaf hk).2 ⟨hnode, hproject _ hform⟩
  | child => exact (propertyForm_child hk).2 (((propertyForm_child hk).1 h).project hproject)
  | childList =>
    obtain ⟨items, hitems, hform⟩ := (propertyForm_childList hk).1 h
    exact (propertyForm_childList hk).2 ⟨items, hitems, hproject _ hform⟩

mutual

/-- **A piece that has a form has its projection for a form** where less is looked at. -/
theorem HasForm.project : ∀ {F : Form} {piece : Piece}, fe.HasForm piece F →
    (fe.restrict keeps).HasForm piece (F.project fe keeps)
  | .leaf _, .leaf _, ⟨key, hkey, rfl⟩ => ⟨key, hkey, by rw [Form.project]⟩
  | .list _, .list _, ⟨Gs, hGs, rfl⟩ => ⟨_, items_project hGs, by rw [Form.project]⟩
  | .node _ _, .node v, h => by
    obtain ⟨ps, Gs, hps, hGs, hnode⟩ := form_eq_ok_iff.1 h
    obtain ⟨rfl, rfl⟩ := Form.node.inj hnode
    refine form_eq_ok_iff.2 ⟨ps.filter (keeps (fe.kindOf v)), _, ?_,
      properties_project (keeps (fe.kindOf v)) hGs, ?_⟩
    · exact congrArg (Option.map _) hps
    · rw [Form.project, hps]
      rfl
  | .absent, .node v, h => by
    obtain ⟨_, _, -, -, hnode⟩ := form_eq_ok_iff.1 h
    cases hnode
  | .leaf _, .node v, h => by
    obtain ⟨_, _, -, -, hnode⟩ := form_eq_ok_iff.1 h
    cases hnode
  | .list _, .node v, h => by
    obtain ⟨_, _, -, -, hnode⟩ := form_eq_ok_iff.1 h
    cases hnode

/-- The items of a list have the projections of their forms. -/
theorem items_project : ∀ {Fs : List Form} {items : List Value},
    List.Forall₂ fe.SlotForm items Fs →
    List.Forall₂ (fe.restrict keeps).SlotForm items (Form.projectItems fe keeps Fs)
  | [], _, h => by
    rw [List.forall₂_nil_right_iff.1 h, Form.projectItems]
    exact .nil
  | F :: Fs, _, .cons hF hFs => by
    rw [Form.projectItems]
    exact .cons (hF.project fun _ => HasForm.project) (items_project hFs)

/-- The properties that are kept have the projections of their forms. -/
theorem properties_project (keep : Property → Bool) : ∀ {Fs : List Form} {ps : List Property}
    {v : Value}, List.Forall₂ (fe.PropertyForm v) ps Fs →
    List.Forall₂ ((fe.restrict keeps).PropertyForm v) (ps.filter keep)
      (Form.projectProperties fe keeps keep ps Fs)
  | [], ps, v, h => by
    rw [List.forall₂_nil_right_iff.1 h, Form.projectProperties]
    · exact .nil
    · simp
  | F :: Fs, p :: ps, v, .cons hF hFs => by
    have hrest := properties_project keep hFs
    rw [Form.projectProperties]
    cases hkeep : keep p with
    | true =>
      rw [List.filter_cons_of_pos hkeep, if_pos rfl]
      exact .cons (hF.project fun _ => HasForm.project) hrest
    | false =>
      rw [List.filter_cons_of_neg (by simp [hkeep]), if_neg Bool.false_ne_true]
      exact hrest

end

/-- What a property holds does not depend on which properties are looked at. -/
theorem Offers.of_restrict {v : Value} {p : Property} {piece : Piece}
    (h : (fe.restrict keeps).Offers v p piece) : fe.Offers v p piece := by
  cases h with
  | leaf hk => exact .leaf hk
  | child hk hpart => exact .child hk hpart
  | childList hk hitems => exact .childList hk hitems

/-- **What is reached where less is looked at** is reached anyway. -/
theorem Reaches.of_restrict {root : Value} {path : List Nat} {piece : Piece}
    (h : (fe.restrict keeps).Reaches root path piece) : ∃ path', fe.Reaches root path' piece := by
  induction h with
  | root => exact ⟨[], .root⟩
  | property _ known declared offered ih =>
    obtain ⟨path', habove⟩ := ih
    obtain ⟨ps, hps, rfl⟩ := Option.map_eq_some_iff.1 known
    obtain ⟨i, hi⟩ := List.getElem?_of_mem
      (List.mem_of_mem_filter (List.mem_of_getElem? declared))
    exact ⟨path' ++ [i], habove.property hps hi offered.of_restrict⟩
  | item _ listed hpart ih =>
    obtain ⟨path', habove⟩ := ih
    exact ⟨_, habove.item listed hpart⟩

end Frontend

/-- **What occurs where less is looked at** are projections of what occurs anyway. -/
theorem Frontend.formsIn_restrict_subset {roots : List Value}
    (hroots : ∀ root ∈ roots, ∃ F, fe.form root = some (.ok F)) :
    (fe.restrict keeps).formsIn roots \ {.absent}
      ⊆ Form.project fe keeps '' (fe.formsIn roots \ {.absent}) := by
  rintro G ⟨⟨root, hroot, F', path, hF', hG⟩, hpresent⟩
  obtain ⟨F, hF⟩ := hroots root hroot
  -- What occurs is the form of a piece, which has the form that is projected.
  obtain ⟨piece, hreached, hform⟩ := exists_piece_at hF' hG hpresent
  obtain ⟨path', hreached'⟩ := hreached.of_restrict
  obtain ⟨H, hH, hform'⟩ := exists_form_at hF hreached'
  obtain rfl : G = H.project fe keeps := hform.unique hform'.project
  refine ⟨H, ⟨⟨root, hroot, F, path', hF, hH⟩, ?_⟩, rfl⟩
  rintro rfl
  exact hpresent (by rw [Form.project]; rfl)

end Projections

/-! ## Histories -/

namespace Canonicalizer

open Tables

/-- **A piece of a tree got an id** in one of some labelings. -/
def LabeledAs (fe : Frontend) (calls : List Call) (piece : Piece) (id : Nat) : Prop :=
  ∃ call ∈ calls, ∃ T path U, call.labeled.result = .ok T ∧ fe.Reaches call.root path piece
    ∧ T.at? path = some U ∧ U.value = id

namespace History

variable {fe : Frontend} {reporter reporter' : Reporter} {calls calls' : List Call}
  {c c' : Canonicalizer}

/-- The id of a piece is that of its form. -/
theorem exists_form_of_labeledAs (h : (create fe reporter).History calls c) {piece : Piece}
    {id : Nat} (hpiece : LabeledAs fe calls piece id) :
    ∃ G U, fe.HasForm piece G ∧ c.tables.treeOf? G = some U ∧ U.value = id := by
  obtain ⟨call, hcall, T, path, U, hT, hreached, hU, hid⟩ := hpiece
  obtain ⟨F, hF, hFT⟩ := h.treeOf? coherent_empty hcall hT
  obtain ⟨G, hG, hform⟩ := Frontend.exists_form_at hF hreached
  obtain ⟨U', hU', hGU⟩ := exists_tree_at? hFT hG
  obtain rfl := Option.some.inj (hU.symm.trans hU')
  exact ⟨G, U, hform, hGU, hid⟩

variable {keeps : String → Property → Bool}

/-- **Looking at less only coarsens.** -/
theorem restrict_coarsens (h : (create fe reporter).History calls c)
    (hok : ∀ call ∈ calls, ∃ T, call.labeled.result = .ok T) (reporter' : Reporter) :
    (∃ calls' c', (create (fe.restrict keeps) reporter').History calls' c'
        ∧ calls'.map Call.root = calls.map Call.root)
    ∧ ∀ calls' c', (create (fe.restrict keeps) reporter').History calls' c' →
      calls'.map Call.root = calls.map Call.root →
      (∀ call' ∈ calls', ∃ T, call'.labeled.result = .ok T)
      ∧ (∀ piece id', LabeledAs (fe.restrict keeps) calls' piece id' →
          ∃ id, LabeledAs fe calls piece id)
      ∧ (∀ piece₁ piece₂ id id₁ id₂, LabeledAs fe calls piece₁ id → LabeledAs fe calls piece₂ id →
          LabeledAs (fe.restrict keeps) calls' piece₁ id₁ →
          LabeledAs (fe.restrict keeps) calls' piece₂ id₂ → id₁ = id₂)
      ∧ c'.tables.nextId ≤ c.tables.nextId := by
  have hforms : ∀ root ∈ calls.map Call.root, ∃ F, fe.form root = some (.ok F) :=
    h.all_forms coherent_empty hok
  have hforms' : ∀ root ∈ calls.map Call.root,
      ∃ F, (fe.restrict keeps).form root = some (.ok F) := by
    intro root hroot
    obtain ⟨F, hF⟩ := hforms root hroot
    have hpiece : fe.HasForm (.node root) F := hF
    exact ⟨_, hpiece.project⟩
  refine ⟨exists_of_forms coherent_empty hforms', fun calls' c' h' hroots => ?_⟩
  have hok' : ∀ call' ∈ calls', ∃ T, call'.labeled.result = .ok T :=
    h'.all_ok coherent_empty (hroots ▸ hforms')
  refine ⟨hok', ?_, ?_, ?_⟩
  · rintro piece id' ⟨call', hcall', -, path, -, -, hreached, -, -⟩
    obtain ⟨call, hcall, hroot⟩ := List.mem_map.1 (hroots ▸ List.mem_map_of_mem hcall')
    obtain ⟨path', hreached⟩ := hreached.of_restrict
    obtain ⟨T, hT⟩ := hok call hcall
    obtain ⟨F, hF, hFT⟩ := h.treeOf? coherent_empty hcall hT
    rw [← hroot] at hreached
    obtain ⟨G, hG, -⟩ := Frontend.exists_form_at hF hreached
    obtain ⟨U, hU, -⟩ := exists_tree_at? hFT hG
    exact ⟨U.value, call, hcall, T, path', U, hT, hreached, hU, rfl⟩
  · intro piece₁ piece₂ id id₁ id₂ hpiece₁ hpiece₂ hpiece₁' hpiece₂'
    obtain ⟨G₁, U₁, hG₁, hU₁, rfl⟩ := h.exists_form_of_labeledAs hpiece₁
    obtain ⟨G₂, U₂, hG₂, hU₂, hid⟩ := h.exists_form_of_labeledAs hpiece₂
    obtain ⟨H₁, V₁, hH₁, hV₁, rfl⟩ := h'.exists_form_of_labeledAs hpiece₁'
    obtain ⟨H₂, V₂, hH₂, hV₂, rfl⟩ := h'.exists_form_of_labeledAs hpiece₂'
    -- The pieces had the same form, so they have the same projection.
    have hsame : G₁ = G₂ := (h.coherent coherent_empty).form_unique hU₁ hU₂ hid.symm
    obtain rfl : H₁ = H₂ := by
      rw [hH₁.unique hG₁.project, hH₂.unique hG₂.project, hsame]
    rw [Option.some.inj (hV₁.symm.trans hV₂)]
  · have hexact := h.haveExactly hok
    have hsubset : (fe.restrict keeps).formsIn (calls.map Call.root) \ {.absent} ⊆ _ :=
      Frontend.formsIn_restrict_subset hforms
    rw [(h'.haveExactly hok').nextId_eq, hexact.nextId_eq, hroots]
    refine Nat.add_le_add_left ?_ firstId
    exact (Set.ncard_le_ncard hsubset (hexact.finite.image _)).trans
      (Set.ncard_image_le hexact.finite)

end History

end Canonicalizer

/-! ## Python's syntax trees -/

/-- The front-end of a dialect without some properties looks at the others only. -/
theorem Dialect.frontend_restrict (d : Dialect) (keeps : String → Property → Bool) :
    Dialect.frontend { d with grammar := d.grammar.restrict keeps } = d.frontend.restrict keeps := by
  have hproperties : (d.grammar.restrict keeps).properties?
      = fun kind => (d.grammar.properties? kind).map (List.filter (keeps kind)) := by
    funext kind
    exact Grammar.properties?_restrict d.grammar keeps kind
  unfold frontend Frontend.restrict
  rw [hproperties]
  rfl

/-- **Ignoring more is looking at less.** -/
theorem Frontend.python_of_subset {ignored ignored' : List String} (h : ignored ⊆ ignored') :
    Frontend.python ignored' = (Frontend.python ignored).restrict (isKept ignored') := by
  unfold python
  rw [Grammar.inForce_of_subset h]
  exact Dialect.frontend_restrict ⟨declaredGrammar.inForce ignored, none, true, _⟩ _

/-- A property is not ignored if neither its name is nor its name behind that of the kind. -/
theorem isKept_eq (ignored : List String) (kind : String) (p : Property) :
    isKept ignored kind p = decide (p.name ∉ ignored ∧ kind ++ "." ++ p.name ∉ ignored) := by
  rw [Bool.eq_iff_iff]
  simp [isKept, isIgnored]

namespace Canonicalizer

/-- **Ignoring more only coarsens.** If more properties of Python's syntax trees are
ignored, the same kinds are known, and a kind has the same properties in the same order
without those that are ignored by their names or by their names behind that of the kind.
If some trees have all been labeled with success, they can be labeled with success while
more is ignored. Whatever is reached in them then has got an id before, what had the same
id has the same id, and there are no more ids. -/
theorem History.ignoring_coarsens {ignored ignored' : List String} (h : ignored ⊆ ignored') :
    (declaredGrammar.inForce ignored').kinds = (declaredGrammar.inForce ignored).kinds
    ∧ (∀ kind, (Frontend.python ignored').properties? kind
        = ((Frontend.python ignored).properties? kind).map (List.filter fun p =>
            decide (p.name ∉ ignored' ∧ kind ++ "." ++ p.name ∉ ignored')))
    ∧ ∀ (reporter reporter' : Reporter) (calls : List Call) (c : Canonicalizer),
      (create (Frontend.python ignored) reporter).History calls c →
      (∀ call ∈ calls, ∃ T, call.labeled.result = .ok T) →
      (∃ calls' c', (create (Frontend.python ignored') reporter').History calls' c'
        ∧ calls'.map Call.root = calls.map Call.root)
      ∧ ∀ calls' c', (create (Frontend.python ignored') reporter').History calls' c' →
        calls'.map Call.root = calls.map Call.root →
        (∀ call' ∈ calls', ∃ T, call'.labeled.result = .ok T)
        ∧ (∀ piece id', LabeledAs (Frontend.python ignored') calls' piece id' →
            ∃ id, LabeledAs (Frontend.python ignored) calls piece id)
        ∧ (∀ piece₁ piece₂ id id₁ id₂, LabeledAs (Frontend.python ignored) calls piece₁ id →
            LabeledAs (Frontend.python ignored) calls piece₂ id →
            LabeledAs (Frontend.python ignored') calls' piece₁ id₁ →
            LabeledAs (Frontend.python ignored') calls' piece₂ id₂ → id₁ = id₂)
        ∧ c'.tables.nextId ≤ c.tables.nextId := by
  refine ⟨?_, fun kind => ?_, fun reporter reporter' calls c hc hok => ?_⟩
  · rw [Grammar.inForce_of_subset h, Grammar.kinds_restrict]
  · rw [Frontend.python_of_subset h]
    refine congrArg (Option.map · _) (congrArg List.filter ?_)
    funext p
    exact isKept_eq ignored' kind p
  · rw [Frontend.python_of_subset h]
    exact hc.restrict_coarsens hok reporter'

/-- A name and a number, while the kinds of numbers are looked at and while they are not. -/
theorem History.ignoring_coarsens_numbers :
    ∃ calls c calls' c', (create (Frontend.python []) {}).History calls c
      ∧ (create (Frontend.python ["Constant.kind"]) {}).History calls' c'
      ∧ calls.map Call.root = [.number 0 1, .number 1 2]
      ∧ calls'.map Call.root = [.number 0 1, .number 1 2]
      ∧ (∀ call ∈ calls, ∃ T, call.labeled.result = .ok T)
      ∧ (∀ call' ∈ calls', ∃ T, call'.labeled.result = .ok T)
      ∧ c'.tables.nextId ≤ c.tables.nextId := by
  have hforms : ∀ root ∈ [Value.number 0 1, Value.number 1 2],
      ∃ F, (Frontend.python []).form root = some (.ok F) := by
    simp only [List.forall_mem_cons, List.not_mem_nil, false_implies, implies_true, and_true]
    exact ⟨⟨_, Frontend.form_number 0 1⟩, _, Frontend.form_number 1 2⟩
  obtain ⟨calls, c, h, hroots⟩ : ∃ calls c, (create (Frontend.python []) {}).History calls c
      ∧ calls.map Call.root = [Value.number 0 1, Value.number 1 2] :=
    History.exists_of_forms Tables.coherent_empty hforms
  have hok : ∀ call ∈ calls, ∃ T, call.labeled.result = .ok T :=
    h.all_ok Tables.coherent_empty (hroots ▸ hforms)
  have hmore : ([] : List String) ⊆ ["Constant.kind"] := List.nil_subset _
  obtain ⟨-, -, hcoarser⟩ := History.ignoring_coarsens hmore
  obtain ⟨⟨calls', c', h', hroots'⟩, hall⟩ := hcoarser {} {} calls c h hok
  obtain ⟨hok', -, -, hnext⟩ := hall calls' c' h' hroots'
  exact ⟨calls, c, calls', c', h, h', hroots, hroots'.trans hroots, hok, hok', hnext⟩

end Canonicalizer

end HashConsing
