import HashConsing.Canonicalizer
import HashConsing.Proofs.Encoding
import HashConsing.Proofs.Simulation

/-!
# What labeling means

Labeling a tree does to the tables what they need to have a labeled tree for the
form of the tree, and gives that labeled tree: `label_encodes`. It fails exactly
where the tree has no form, and in the same way. This is one correspondence
between two builders, the one of labeled trees and the one of forms.

What holds of one labeling holds of any history of a canonicalizer, with failed
labelings in between: the tables stay coherent, and labeled trees given out once
are the labeled trees of their forms in all later tables.

Two results about whole histories follow. The tables are consistent, and labels are
equal if and only if the forms they stand for are.
-/

namespace HashConsing

open Ending Tables

/-! ## One labeling -/

/-- **Labeled trees and forms correspond** if the one is the labeled tree of the
other in coherent tables. -/
def encoding (reporter : Reporter) : Simulation (Builder.trees reporter) Form.builder where
  states x := x.1.tables.Coherent
  later x y := x.1.tables.GrowsTo y.1.tables
  results x T F := x.1.tables.treeOf? F = some T
  later_refl x := .refl x.1.tables
  later_trans h h' := h.trans h'
  results_later h h' := h.treeOf? h'
  absent hx := ⟨hx, .refl _, rfl⟩
  leaf {x v key} hx hkey := by
    obtain ⟨hc, hl, hid⟩ := Progress.internLeaf_spec hx (reporter.reportLeaf v) hkey
    exact ⟨hc, hl, treeOf?_leaf_eq_some.2 ⟨_, hid, rfl⟩⟩
  list {x items Ts Fs} hx h := by
    have hTs := treesOf?_eq_some.2 h
    obtain ⟨hc, hl, hid⟩ := Progress.internShape_spec hx
      (reporter.reportList items (.list (Ts.map Rose.value))) (.list (Ts.map Rose.value))
      (hx.handedOutBefore_values hTs)
    exact ⟨hc, hl, treeOf?_list_eq_some.2 ⟨Ts, _, hl.treesOf? hTs, hid, rfl⟩⟩
  node {x v kind Ts Fs} hx h := by
    have hTs := treesOf?_eq_some.2 h
    obtain ⟨hc, hl, hid⟩ := Progress.internShape_spec hx
      (reporter.reportNode v kind (.node kind (Ts.map Rose.value))) (.node kind (Ts.map Rose.value))
      (hx.handedOutBefore_values hTs)
    exact ⟨hc, hl, treeOf?_node_eq_some.2 ⟨Ts, _, hl.treesOf? hTs, hid, rfl⟩⟩

/-- **What labeling gives for what a tree has for a form**: the labeled tree of the
form, or the same failure. -/
def Tables.Encodes (t : Tables) : Except Failure (Rose Nat) → Except Failure Form → Prop
  | .ok T, .ok F => t.treeOf? F = some T
  | .error failure, .error failure' => failure = failure'
  | _, _ => False

namespace Tables.Encodes

variable {t : Tables} {result : Except Failure (Rose Nat)}

theorem exists_ok {F : Form} (h : t.Encodes result (.ok F)) :
    ∃ T, result = .ok T ∧ t.treeOf? F = some T := by
  cases result with
  | error failure => exact h.elim
  | ok T => exact ⟨T, rfl, h⟩

theorem eq_error {failure : Failure} (h : t.Encodes result (.error failure)) :
    result = .error failure := by
  cases result with
  | error failure' => exact congrArg Except.error h
  | ok T => exact h.elim

end Tables.Encodes

section Labeling

variable {fe : Frontend} {reporter : Reporter} {root : Value} {s : Progress}

/-- **A labeling that ends has encoded the form of its tree.** -/
theorem label_encodes {ending : Ending Progress (Rose Nat)} (hs : s.tables.Coherent)
    (h : label fe reporter root s = some ending) :
    ending.2.tables.Coherent ∧ s.tables.GrowsTo ending.2.tables
      ∧ ∃ outcome, fe.form root = some outcome ∧ ending.2.tables.Encodes ending.1 outcome := by
  rw [label_eq_recursion] at h
  obtain ⟨⟨outcome, ⟨⟩⟩, hform, hc, hl, ho⟩ :=
    (encoding reporter).buildNode (x := (s, ())) hs h
  refine ⟨hc, hl, outcome, congrArg (Option.map Prod.fst) hform, ?_⟩
  rcases ending with ⟨_ | T, s'⟩ <;> rcases outcome with _ | F <;> exact ho

/-- **A tree whose form can be told can be labeled**, in any coherent tables. -/
theorem exists_label (reporter : Reporter) {outcome : Except Failure Form} (hs : s.tables.Coherent)
    (h : fe.form root = some outcome) :
    ∃ ending, label fe reporter root s = some ending
      ∧ ending.2.tables.Encodes ending.1 outcome := by
  obtain ⟨⟨_, ⟨⟩⟩, hform, -⟩ := Option.map_eq_some_iff.1 h
  obtain ⟨ending, hbuild, -⟩ :=
    (encoding reporter).symm.buildNode (x := ((), s)) hs hform
  have hending : label fe reporter root s = some ending :=
    (label_eq_recursion fe reporter root s).trans hbuild
  obtain ⟨-, -, outcome', h', hencodes⟩ := label_encodes hs hending
  obtain rfl := Option.some.inj (h.symm.trans h')
  exact ⟨ending, hending, hencodes⟩

end Labeling

/-! ## Histories -/

namespace Canonicalizer

variable {c : Canonicalizer} {root : Value} {labeled : Labeled}

/-- **What a labeling does to a canonicalizer.** -/
theorem label_spec (hc : c.tables.Coherent) (h : c.label root = some labeled) :
    labeled.canonicalizer.frontend = c.frontend
      ∧ labeled.canonicalizer.reporter = c.reporter
      ∧ labeled.canonicalizer.tables.Coherent
      ∧ c.tables.GrowsTo labeled.canonicalizer.tables
      ∧ ∃ outcome, c.frontend.form root = some outcome
          ∧ labeled.canonicalizer.tables.Encodes labeled.result outcome := by
  obtain ⟨ending, hending, rfl⟩ := Option.map_eq_some_iff.1 h
  exact ⟨rfl, rfl, label_encodes hc hending⟩

namespace History

variable {start c : Canonicalizer} {calls : List Call}

/-- A canonicalizer keeps its front-end. -/
theorem frontend_eq (h : start.History calls c) : c.frontend = start.frontend := by
  induction h with
  | nil => rfl
  | snoc before last ih =>
    obtain ⟨ending, -, rfl⟩ := Option.map_eq_some_iff.1 last
    exact ih

/-- A canonicalizer keeps its reporter. -/
theorem reporter_eq (h : start.History calls c) : c.reporter = start.reporter := by
  induction h with
  | nil => rfl
  | snoc before last ih =>
    obtain ⟨ending, -, rfl⟩ := Option.map_eq_some_iff.1 last
    exact ih

/-- Without a labeling nothing changes. -/
theorem eq_start (h : start.History [] c) : c = start := by
  generalize hcalls : ([] : List Call) = calls at h
  cases h with
  | nil => rfl
  | snoc before last => simp at hcalls

/-- The last labeling of a history, and the history before it. -/
theorem exists_before {call : Call} (h : start.History (calls ++ [call]) c) :
    ∃ d, start.History calls d ∧ d.label call.root = some call.labeled
      ∧ c = call.labeled.canonicalizer := by
  generalize hcalls : calls ++ [call] = all at h
  cases h with
  | nil => simp at hcalls
  | snoc before last =>
    obtain ⟨rfl, rfl⟩ := List.append_singleton_inj.1 hcalls
    exact ⟨_, before, last, rfl⟩

/-- **Tables stay coherent** through any labelings. -/
theorem coherent (hs : start.tables.Coherent) (h : start.History calls c) :
    c.tables.Coherent := by
  induction h with
  | nil => exact hs
  | snoc before last ih => exact (label_spec ih last).2.2.1

/-- **What labelings have encoded stays encoded**: labeled trees are those of the
forms of the trees that were labeled, in the tables at the end. -/
theorem treeOf? (hs : start.tables.Coherent) (h : start.History calls c) {call : Call}
    (hcall : call ∈ calls) {T : Rose Nat} (hT : call.labeled.result = .ok T) :
    ∃ F, start.frontend.form call.root = some (.ok F) ∧ c.tables.treeOf? F = some T := by
  induction h with
  | nil => cases hcall
  | @snoc calls c root labeled before last ih =>
    obtain ⟨-, -, -, hgrows, outcome, hform, hencodes⟩ := label_spec (before.coherent hs) last
    rcases List.mem_append.1 hcall with hold | hnew
    · -- An earlier labeling: the last one, failed or not, has forgotten nothing.
      obtain ⟨F, hF, hFT⟩ := ih hold
      exact ⟨F, hF, hgrows.treeOf? hFT⟩
    · obtain rfl := List.mem_singleton.1 hnew
      rw [before.frontend_eq] at hform
      rw [hT] at hencodes
      cases outcome with
      | error failure => exact hencodes.elim
      | ok F => exact ⟨F, hform, hencodes⟩

/-- The labeled tree of a labeling is that of the form of its root. -/
theorem treeOf?_of_form (hs : start.tables.Coherent) (h : start.History calls c) {call : Call}
    (hcall : call ∈ calls) {F : Form} (hF : start.frontend.form call.root = some (.ok F))
    {T : Rose Nat} (hT : call.labeled.result = .ok T) : c.tables.treeOf? F = some T := by
  obtain ⟨G, hG, hGT⟩ := h.treeOf? hs hcall hT
  obtain rfl := Except.ok.inj (Option.some.inj (hF.symm.trans hG))
  exact hGT

/-- **A tree whose form can be told can be labeled** after any history. -/
theorem exists_label (hs : start.tables.Coherent) (h : start.History calls c)
    {outcome : Except Failure Form} (hform : start.frontend.form root = some outcome) :
    ∃ labeled, c.label root = some labeled
      ∧ labeled.canonicalizer.tables.Encodes labeled.result outcome := by
  rw [← h.frontend_eq] at hform
  obtain ⟨ending, hending, hencodes⟩ :=
    HashConsing.exists_label c.reporter (s := ⟨c.tables, .empty⟩) (h.coherent hs) hform
  exact ⟨c.conclude ending, congrArg (Option.map c.conclude) hending, hencodes⟩

/-- **A history goes on** with any tree whose form can be told. -/
theorem exists_snoc (hs : start.tables.Coherent) (h : start.History calls c)
    {outcome : Except Failure Form} (hform : start.frontend.form root = some outcome) :
    ∃ labeled, start.History (calls ++ [⟨root, labeled⟩]) labeled.canonicalizer
      ∧ labeled.canonicalizer.tables.Encodes labeled.result outcome := by
  obtain ⟨labeled, hlabeled, hencodes⟩ := h.exists_label hs hform
  exact ⟨labeled, h.snoc hlabeled, hencodes⟩

end History

/-! ## Blocks of names -/

/-- The form of a name. -/
theorem buildNode_name (ref : Nat) (text : String) :
    buildNode Dialect.blocks.frontend Form.builder (.name ref text) ()
      = some (.ok (.node "Name" [.leaf (.atom (.text text))]), ()) := by
  simp [buildNode, buildProperties, buildProperty, Frontend.properties, Frontend.leafKey,
    Form.builder, Ending.andThen, Ending.success, Dialect.blocks, Dialect.frontend,
    Dialect.kindOf, Dialect.isNode, Dialect.read, Dialect.attribute?, Grammar.properties?,
    List.lookup_cons, Value.name, Value.leafKey]

theorem form_name (ref : Nat) (text : String) :
    Dialect.blocks.frontend.form (.name ref text)
      = some (.ok (.node "Name" [.leaf (.atom (.text text))])) :=
  congrArg (Option.map Prod.fst) (buildNode_name ref text)

/-- The form of a block is made of the forms of its items. -/
theorem buildNode_block (ref : Nat) (items : List Value) :
    buildNode Dialect.blocks.frontend Form.builder (.block ref items) ()
      = chain (buildItems Dialect.blocks.frontend Form.builder "Block" ⟨"items", .childList⟩
          items ()) fun Fs s => some (.ok (.node "Block" [.list Fs]), s) := by
  have hread : Dialect.blocks.frontend.read (.block ref items) ⟨"items", .childList⟩
      = .list items := rfl
  rw [buildNode]
  show (do
    let ending ← buildProperties Dialect.blocks.frontend Form.builder (.block ref items) "Block"
      [⟨"items", .childList⟩] ()
    return _) = _
  rw [bind_andThen, buildProperties_cons, buildProperty]
  simp only [hread, listItems, Value.sequence?, bind_andThen, chain_chain, buildProperties]
  rfl

/-- A name may stand in any place for a node. -/
theorem buildSlot_name (kind : String) (p : Property) (expected : String) (ref : Nat)
    (text : String) :
    buildSlot Dialect.blocks.frontend Form.builder kind p expected (.name ref text) ()
      = some (.ok (.node "Name" [.leaf (.atom (.text text))]), ()) := by
  rw [buildSlot]
  exact buildNode_name ref text

/-- Any place for a node may be empty. -/
theorem buildSlot_null (kind : String) (p : Property) (expected : String) :
    buildSlot Dialect.blocks.frontend Form.builder kind p expected .null ()
      = some (.ok .absent, ()) := by
  rw [buildSlot]
  rfl

/-- The form of a block of two names with nothing between them. -/
theorem form_names : Dialect.blocks.frontend.form (.block 0 [.name 1 "x", .null, .name 2 "x"])
    = some (.ok (.node "Block" [.list [.node "Name" [.leaf (.atom (.text "x"))], .absent,
        .node "Name" [.leaf (.atom (.text "x"))]]])) := by
  unfold Frontend.form
  rw [buildNode_block]
  simp only [buildItems_cons, buildItems, buildSlot_name, buildSlot_null, chain_ok]
  rfl

/-- A block of something that is no node has no form. -/
theorem form_number : Dialect.blocks.frontend.form (.block 3 [.name 4 "y", .int 5])
    = some (.error (.shapeMismatch "Block" "items" Expected.nodeList (.int 5))) := by
  have hnumber : buildSlot Dialect.blocks.frontend Form.builder "Block" ⟨"items", .childList⟩
      Expected.nodeList (.int 5) ()
      = some (.error (.shapeMismatch "Block" "items" Expected.nodeList (.int 5)), ()) := by
    rw [buildSlot]
    rfl
  unfold Frontend.form
  rw [buildNode_block]
  simp only [buildItems_cons, buildSlot_name, hnumber, chain_ok]
  rfl

/-- Three labelings: a block of two names, a block of something that is no node, and
a name like the two. -/
def blockCalls (a b d : Labeled) : List Call :=
  [⟨.block 0 [.name 1 "x", .null, .name 2 "x"], a⟩, ⟨.block 3 [.name 4 "y", .int 5], b⟩,
    ⟨.name 6 "x", d⟩]

/-- They can take place, and the second one fails. -/
theorem exists_history_blockCalls :
    ∃ a b d c, (create Dialect.blocks.frontend {}).History (blockCalls a b d) c
      ∧ (∃ T, a.result = .ok T) ∧ (∃ failure, b.result = .error failure)
      ∧ ∃ T, d.result = .ok T := by
  have h : (create Dialect.blocks.frontend {}).History [] _ := .nil
  obtain ⟨a, h, ha⟩ := h.exists_snoc coherent_empty form_names
  obtain ⟨b, h, hb⟩ := h.exists_snoc coherent_empty form_number
  obtain ⟨d, h, hd⟩ := h.exists_snoc coherent_empty (form_name 6 "x")
  obtain ⟨T, hT, -⟩ := ha.exists_ok
  obtain ⟨T', hT', -⟩ := hd.exists_ok
  exact ⟨a, b, d, _, h, ⟨T, hT⟩, ⟨_, hb.eq_error⟩, T', hT'⟩

/-! ## Tables after any history -/

section Fresh

variable {fe : Frontend} {reporter : Reporter} {calls : List Call} {c : Canonicalizer}

/-- **Labels are equal if and only if the forms are**, at any two positions of any
two labeled trees of one canonicalizer. -/
theorem History.label_eq_iff (h : (create fe reporter).History calls c) {call call' : Call}
    (hcall : call ∈ calls) (hcall' : call' ∈ calls) {T T' : Rose Nat}
    (hT : call.labeled.result = .ok T) (hT' : call'.labeled.result = .ok T') :
    ∃ F F', fe.form call.root = some (.ok F) ∧ fe.form call'.root = some (.ok F') ∧
      ∀ {path path' : List Nat} {U U' : Rose Nat},
        T.at? path = some U → T'.at? path' = some U' →
        ∃ G G', F.at? path = some G ∧ F'.at? path' = some G' ∧ (U.label = U'.label ↔ G = G') := by
  have hc : c.tables.Coherent := h.coherent coherent_empty
  obtain ⟨F, hF, hFT⟩ := h.treeOf? coherent_empty hcall hT
  obtain ⟨F', hF', hFT'⟩ := h.treeOf? coherent_empty hcall' hT'
  refine ⟨F, F', hF, hF', fun hU hU' => ?_⟩
  obtain ⟨G, hG, hGU⟩ := at?_of_treeOf? hFT hU
  obtain ⟨G', hG', hGU'⟩ := at?_of_treeOf? hFT' hU'
  refine ⟨G, G', hG, hG', ?_⟩
  rw [Rose.label_inj]
  constructor
  · exact hc.form_unique hGU hGU'
  · rintro rfl
    rw [Option.some.inj (hGU.symm.trans hGU')]

/-- Labels in a block and in a name labeled after a failure. -/
theorem History.label_eq_iff_blocks :
    ∃ a b d c T T', (create Dialect.blocks.frontend {}).History (blockCalls a b d) c
      ∧ a.result = .ok T ∧ d.result = .ok T'
      ∧ ∃ F F', Dialect.blocks.frontend.form (.block 0 [.name 1 "x", .null, .name 2 "x"])
            = some (.ok F)
          ∧ Dialect.blocks.frontend.form (.name 6 "x") = some (.ok F')
          ∧ ∀ {path path' : List Nat} {U U' : Rose Nat},
              T.at? path = some U → T'.at? path' = some U' →
              ∃ G G', F.at? path = some G ∧ F'.at? path' = some G'
                ∧ (U.label = U'.label ↔ G = G') := by
  obtain ⟨a, b, d, c, h, ⟨T, hT⟩, -, T', hT'⟩ := exists_history_blockCalls
  have hfirst : ⟨_, a⟩ ∈ blockCalls a b d := List.mem_cons_self
  have hlast : ⟨.name 6 "x", d⟩ ∈ blockCalls a b d := by simp [blockCalls]
  exact ⟨a, b, d, c, T, T', h, hT, hT', h.label_eq_iff hfirst hlast hT hT'⟩

end Fresh

end Canonicalizer

end HashConsing
