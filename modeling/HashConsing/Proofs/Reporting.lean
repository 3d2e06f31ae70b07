import HashConsing.Proofs.Meaning

/-!
# Reports have no influence

What is reported of a labeling depends on the settings, on how nodes are described and
on the sink, and any of these may fail. The labeled tree, the failure and the tables
do not depend on them. `Labeled.essence` is what is left of a labeling without its
report; it is the same for all reporters (`label_essence_eq`), and so are the essences
of whole histories.

A reporter is only ever asked for the report of an id that has been handed out. So two
labelings with different reporters take the same steps, and all that has to be seen is
that a step changes equal tables in the same way.
-/

namespace HashConsing

/-! ## Steps -/

namespace Progress

variable {s s' : Progress} (h : s.tables = s'.tables) (report report' : Nat → Report)

include h

/-- The id of a leaf is handed out in the same way, whatever is reported of it. -/
theorem internLeaf_tables_eq (key : LeafKey) (v : Value) :
    let r := s.internLeaf key v report
    let r' := s'.internLeaf key v report'
    r.2.tables = r'.2.tables ∧ r.1 = r'.1 := by
  unfold internLeaf
  rw [← h]
  cases s.tables.leafId? key with
  | some id => exact ⟨h, rfl⟩
  | none => exact ⟨rfl, rfl⟩

/-- The id of a shape is handed out in the same way, whatever is reported of it. -/
theorem internShape_tables_eq (shape : Shape) :
    let r := s.internShape shape report
    let r' := s'.internShape shape report'
    r.2.tables = r'.2.tables ∧ r.1 = r'.1 := by
  unfold internShape
  rw [← h]
  cases s.tables.shapeId? shape with
  | some id => exact ⟨h, rfl⟩
  | none => exact ⟨rfl, rfl⟩

end Progress

/-- **Two reporters side by side**: states correspond if the tables are the same, and
trees if they are equal. -/
def reporters (reporter reporter' : Reporter) :
    Simulation (Builder.trees reporter) (Builder.trees reporter') where
  states x := x.1.tables = x.2.tables
  later _ _ := True
  results _ T U := T = U
  later_refl _ := trivial
  later_trans _ _ := trivial
  results_later _ h := h
  absent hx := ⟨hx, trivial, rfl⟩
  leaf {x v key} hx _ := by
    obtain ⟨ht, hid⟩ := Progress.internLeaf_tables_eq hx (reporter.reportLeaf v)
      (reporter'.reportLeaf v) key v
    exact ⟨ht, trivial, congrArg (Rose.node · []) hid⟩
  list {x items Ts Us} hx hTU := by
    obtain rfl : Ts = Us := List.forall₂_eq_eq_eq ▸ hTU
    obtain ⟨ht, hid⟩ := Progress.internShape_tables_eq hx
      (reporter.reportList items (.list (Ts.map Rose.value)))
      (reporter'.reportList items (.list (Ts.map Rose.value))) (.list (Ts.map Rose.value))
    exact ⟨ht, trivial, congrArg (Rose.node · Ts) hid⟩
  node {x v kind Ts Us} hx hTU := by
    obtain rfl : Ts = Us := List.forall₂_eq_eq_eq ▸ hTU
    obtain ⟨ht, hid⟩ := Progress.internShape_tables_eq hx
      (reporter.reportNode v kind (.node kind (Ts.map Rose.value)))
      (reporter'.reportNode v kind (.node kind (Ts.map Rose.value)))
      (.node kind (Ts.map Rose.value))
    exact ⟨ht, trivial, congrArg (Rose.node · Ts) hid⟩

/-! ## Labelings -/

/-- **What a labeling comes to, apart from its report**: the labeled tree or the
failure, and the tables afterwards. -/
def Labeled.essence (labeled : Labeled) : Except Failure (Rose Nat) × Tables :=
  (labeled.result, labeled.canonicalizer.tables)

/-- A labeling that ends with one reporter ends with any other one. -/
theorem exists_label_reporter {fe : Frontend} {reporter : Reporter} (reporter' : Reporter)
    {root : Value} {s : Progress} (s' : Progress) (h : s.tables = s'.tables)
    {ending : Ending Progress (Rose Nat)} (hending : label fe reporter root s = some ending) :
    ∃ ending', label fe reporter' root s' = some ending'
      ∧ ending'.1 = ending.1 ∧ ending'.2.tables = ending.2.tables := by
  rw [label_eq_recursion] at hending ⊢
  obtain ⟨ending', hending', ht, -, houtcome⟩ :=
    (reporters reporter reporter').buildNode (x := (s, s')) h hending
  exact ⟨ending', hending', houtcome.eq.symm, ht.symm⟩

namespace Canonicalizer

variable {c c' : Canonicalizer}

/-- The essence of a labeling is that of another one of the same front-end, from the
same tables. -/
theorem exists_label_essence (hfe : c.frontend = c'.frontend) (ht : c.tables = c'.tables)
    {root : Value} {labeled : Labeled} (h : c.label root = some labeled) :
    ∃ labeled', c'.label root = some labeled' ∧ labeled'.essence = labeled.essence := by
  obtain ⟨ending, hending, rfl⟩ := Option.map_eq_some_iff.1 h
  obtain ⟨ending', hending', hresult, htables⟩ := exists_label_reporter c'.reporter
    ⟨c'.tables, .empty⟩ ht hending
  rw [hfe] at hending'
  exact ⟨c'.conclude ending', congrArg (Option.map c'.conclude) hending',
    Prod.ext hresult htables⟩

/-- **The reporter has no influence on a labeling**: not on whether it ends, and not on
what it comes to. -/
theorem label_essence_eq (hfe : c.frontend = c'.frontend) (ht : c.tables = c'.tables)
    (root : Value) : (c.label root).map Labeled.essence = (c'.label root).map Labeled.essence := by
  refine Option.ext fun essence => ?_
  simp only [Option.map_eq_some_iff]
  constructor
  · rintro ⟨labeled, hlabeled, rfl⟩
    exact exists_label_essence hfe ht hlabeled
  · rintro ⟨labeled, hlabeled, rfl⟩
    exact exists_label_essence hfe.symm ht.symm hlabeled

/-! ## Histories -/

/-- **What a call comes to**, apart from its report: the root that was labeled, and the
essence of the labeling. -/
def Call.essence (call : Call) : Value × Except Failure (Rose Nat) × Tables :=
  (call.root, call.labeled.essence)

namespace History

variable {start : Canonicalizer} {calls : List Call}

/-- A history can be lived through with any reporter. -/
theorem exists_reporter (h : start.History calls c) (reporter' : Reporter) :
    ∃ calls' c', { start with reporter := reporter' }.History calls' c'
      ∧ calls'.map Call.root = calls.map Call.root ∧ c'.tables = c.tables := by
  induction h with
  | nil => exact ⟨[], _, .nil, rfl, rfl⟩
  | @snoc calls c root labeled before last ih =>
    obtain ⟨calls', c', h', hroots, ht⟩ := ih
    have hfe : c.frontend = c'.frontend := before.frontend_eq.trans h'.frontend_eq.symm
    obtain ⟨labeled', hlabeled', hessence⟩ := exists_label_essence hfe ht.symm last
    refine ⟨_, _, h'.snoc hlabeled', ?_, congrArg Prod.snd hessence⟩
    rw [List.map_append, List.map_append, hroots]
    rfl

/-- Histories of the same roots come to the same, whatever the reporters are. -/
theorem essence_eq {reporter' : Reporter} (h : start.History calls c) {calls' : List Call}
    (h' : { start with reporter := reporter' }.History calls' c')
    (hroots : calls'.map Call.root = calls.map Call.root) :
    calls'.map Call.essence = calls.map Call.essence ∧ c'.tables = c.tables := by
  induction h generalizing calls' c' with
  | nil =>
    obtain rfl := List.map_eq_nil_iff.1 hroots
    obtain rfl := h'.eq_start
    exact ⟨rfl, rfl⟩
  | @snoc calls c root labeled before last ih =>
    rw [List.map_append, List.map_singleton] at hroots
    obtain ⟨calls', last', rfl, hbefore, hlast⟩ := List.map_eq_append_iff.1 hroots
    obtain ⟨call, rfl, rfl⟩ := List.map_eq_singleton_iff.1 hlast
    obtain ⟨d, hd, hcall, rfl⟩ := h'.exists_before
    obtain ⟨hessences, ht⟩ := ih hd hbefore
    -- The last labelings start from the same tables, so they come to the same.
    have hfe : d.frontend = c.frontend := hd.frontend_eq.trans before.frontend_eq.symm
    obtain ⟨labeled', hlabeled', hessence⟩ := exists_label_essence hfe ht hcall
    obtain rfl := Option.some.inj (last.symm.trans hlabeled')
    refine ⟨?_, congrArg Prod.snd hessence.symm⟩
    rw [List.map_append, List.map_append, hessences]
    exact congrArg (_ ++ [·]) (Prod.ext rfl hessence.symm)

/-- **Reports have no influence.** With any other settings, any other sink and any
other way to describe nodes, the same trees can be labeled one after the other, and every
labeling comes to the same: the same labeled tree or the same failure, and the same
tables afterwards. The next labeling ends with both or with none, and then it comes to
the same as well. -/
theorem reporter_irrelevant (h : start.History calls c) (reporter' : Reporter) :
    (∃ calls' c', { start with reporter := reporter' }.History calls' c'
        ∧ calls'.map Call.root = calls.map Call.root)
    ∧ ∀ calls' c', { start with reporter := reporter' }.History calls' c' →
        calls'.map Call.root = calls.map Call.root →
        calls'.map Call.essence = calls.map Call.essence
        ∧ c'.tables = c.tables
        ∧ ∀ root, (c'.label root).map Labeled.essence = (c.label root).map Labeled.essence := by
  constructor
  · obtain ⟨calls', c', h', hroots, -⟩ := h.exists_reporter reporter'
    exact ⟨calls', c', h', hroots⟩
  · intro calls' c' h' hroots
    obtain ⟨hessences, ht⟩ := h.essence_eq h' hroots
    have hfe : c'.frontend = c.frontend := h'.frontend_eq.trans h.frontend_eq.symm
    exact ⟨hessences, ht, label_essence_eq hfe ht⟩

/-- Three labelings, the second of which fails, once with the usual reporter and once
with one that can describe nothing and has every event refused. -/
theorem reporter_irrelevant_blocks :
    let contrary : Reporter := ⟨{ summaryWidth := 10 }, fun _ => none, fun _ => .failed⟩
    ∃ a b d c calls' c', (create Dialect.blocks.frontend {}).History (blockCalls a b d) c
      ∧ (create Dialect.blocks.frontend contrary).History calls' c'
      ∧ calls'.map Call.root = (blockCalls a b d).map Call.root
      ∧ calls'.map Call.essence = (blockCalls a b d).map Call.essence
      ∧ c'.tables = c.tables := by
  intro contrary
  obtain ⟨a, b, d, c, h, -⟩ := exists_history_blockCalls
  obtain ⟨⟨calls', c', h', hroots⟩, hsame⟩ := h.reporter_irrelevant contrary
  obtain ⟨hessences, ht, -⟩ := hsame calls' c' h' hroots
  exact ⟨a, b, d, c, calls', c', h, h', hroots, hessences, ht⟩

end History

end Canonicalizer

end HashConsing
