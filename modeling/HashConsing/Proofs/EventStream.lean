import HashConsing.Proofs.Accounting

/-!
# Every id is accounted for

A labeling takes the way through a tree that can be recorded without it. At each piece that
is met it either finds an id and does nothing, or it hands out the next id and reports it,
once; so the account of what was reported grows with the ids (`Accounted.meet`). This is a
correspondence between labeling and recording, and it gives the account of a whole labeling,
whether the labeling fails or not.

The ids of one labeling come after those of the labelings before. So the events of a history
come in the order of their ids (`Canonicalizer.History.offered_ids`).
-/

namespace HashConsing

open Tables

/-! ## New ids -/

namespace Tables

variable {t u w : Tables}

theorem newIds_self (t : Tables) : t.newIds t = [] := by
  rw [newIds, Nat.sub_self]
  rfl

theorem mem_newIds (h : t.nextId ≤ u.nextId) {id : Nat} :
    id ∈ t.newIds u ↔ t.nextId ≤ id ∧ id < u.nextId := by
  rw [newIds, List.mem_range'_1, Nat.add_sub_cancel' h]

/-- New ids come after older ones. -/
theorem newIds_append (h : t.nextId ≤ u.nextId) (h' : u.nextId ≤ w.nextId) :
    t.newIds u ++ u.newIds w = t.newIds w := by
  have hlength : u.nextId - t.nextId + (w.nextId - u.nextId) = w.nextId - t.nextId := by omega
  rw [newIds, newIds, newIds, ← hlength, ← List.range'_append_1, Nat.add_sub_cancel' h]

theorem newIds_next (h : u.nextId = t.nextId + 1) : t.newIds u = [t.nextId] := by
  rw [newIds, h, Nat.add_sub_cancel_left]
  rfl

/-- The id of what was met is an old one. -/
theorem Coherent.formId_lt (h : t.Coherent) {F : Form} {T : Rose Nat}
    (hT : t.treeOf? F = some T) : t.formId F < t.nextId := by
  rw [formId_eq hT]
  refine h.lt_of_mem_ids hT ?_
  obtain ⟨id, Ts⟩ := T
  rw [Rose.ids_node]
  exact List.mem_append_right _ (List.mem_singleton_self id)

end Tables

/-! ## Steps -/

namespace Progress

/-- **A step that hands out the next id** for something and reports it. -/
structure HandsOut (s s' : Progress) (id : Nat) (r : Representation) (report : Report) :
    Prop where
  id_eq : id = s.tables.nextId
  nextId_eq : s'.tables.nextId = s.tables.nextId + 1
  representation : s'.tables.representations[id]? = some r
  report_eq : s'.report = s.report.append report

variable {s : Progress} (h : s.tables.Coherent) (report : Nat → Report)

include h

/-- A leaf has an id, or it gets the next one. -/
theorem internLeaf_cases (key : LeafKey) (v : Value) :
    let r := s.internLeaf key v report
    r.2 = s ∨ s.HandsOut r.2 r.1 (.leaf v) (report r.1) := by
  unfold internLeaf
  cases s.tables.leafId? key with
  | some id => exact .inl rfl
  | none => exact .inr ⟨rfl, rfl, h.getElem?_push.2 (.inl ⟨rfl, rfl⟩), rfl⟩

/-- A shape has an id, or it gets the next one. -/
theorem internShape_cases (shape : Shape) :
    let r := s.internShape shape report
    r.2 = s ∨ s.HandsOut r.2 r.1 (.shape shape) (report r.1) := by
  unfold internShape
  cases s.tables.shapeId? shape with
  | some id => exact .inl rfl
  | none => exact .inr ⟨rfl, rfl, h.getElem?_push.2 (.inl ⟨rfl, rfl⟩), rfl⟩

end Progress

/-- **What was reported since the start is accounted for**, given what was met. -/
structure Accounted (reporter : Reporter) (start : Tables) (s : Progress)
    (es : List Encounter) : Prop where
  coherent : s.tables.Coherent
  growsTo : start.GrowsTo s.tables
  knows : s.tables.Knows es
  accounts : reporter.Accounts s.tables es (start.newIds s.tables) s.report

namespace Accounted

variable {reporter : Reporter} {start : Tables} {s s' : Progress} {es : List Encounter}

/-- At the start nothing was met and nothing was reported. -/
theorem nil (reporter : Reporter) (hs : start.Coherent) :
    Accounted reporter start ⟨start, .empty⟩ [] where
  coherent := hs
  growsTo := .refl start
  knows := by simp [Knows]
  accounts := by
    rw [newIds_self]
    exact .nil reporter start []

/-- **One more piece is met.** It has an id already, or it gets one that is reported. -/
theorem meet (h : Accounted reporter start s es) {F : Form} {T : Rose Nat}
    (hencoded : s'.tables.Coherent ∧ s.tables.GrowsTo s'.tables ∧ s'.tables.treeOf? F = some T)
    {piece : Piece} {r : Representation} {report : Report}
    (hstep : s' = s ∨ s.HandsOut s' T.value r report)
    (hreport : ∀ t es, t.representation (.int T.value) = .ok r →
      t.firstMet? es T.value = some piece → reporter.Accounts t es [T.value] report) :
    Accounted reporter start s' (es ++ [⟨piece, F⟩])
      ∧ s.tables.GrowsTo s'.tables ∧ s'.tables.treeOf? F = some T := by
  obtain ⟨hs', hgrows, hT⟩ := hencoded
  refine ⟨⟨hs', h.growsTo.trans hgrows, ?_, ?_⟩, hgrows, hT⟩
  · exact List.forall_mem_append.2 ⟨hgrows.knows h.knows, List.forall_mem_singleton.2 ⟨T, hT⟩⟩
  have hold : ∀ id ∈ start.newIds s.tables, id < s.tables.nextId := fun id hid =>
    ((mem_newIds h.growsTo.nextId_le).1 hid).2
  have haccounts := h.accounts.later h.coherent hgrows h.knows [⟨piece, F⟩] hold
  rcases hstep with rfl | hout
  · exact haccounts
  · -- What was met before has older ids, so the piece is the first one with this id.
    have hmet : s'.tables.firstMet? (es ++ [⟨piece, F⟩]) T.value = some piece := by
      refine firstMet?_new (fun e he => Nat.ne_of_lt ?_) (formId_eq hT)
      obtain ⟨U, hU⟩ := h.knows e he
      rw [hgrows.formId_eq hU, hout.id_eq]
      exact h.coherent.formId_lt hU
    have hlt : T.value < s'.tables.nextId := by
      rw [hout.id_eq, hout.nextId_eq]
      exact Nat.lt_succ_self _
    have hrepresentation : s'.tables.representation (.int T.value) = .ok r :=
      representation_eq_ok (allocated_eq_ok rfl hlt) hout.representation
    rw [hout.report_eq, ← newIds_append h.growsTo.nextId_le hgrows.nextId_le,
      newIds_next hout.nextId_eq, ← hout.id_eq]
    exact haccounts.append (hreport _ _ hrepresentation hmet)

end Accounted

/-! ## Labelings -/

/-- **Labeling and recording side by side**: what was reported is accounted for by what was
met, and labeled trees go with their forms. -/
def recording {reporter : Reporter} (hlog : reporter.settings.logAllocations = true)
    (start : Tables) : Simulation (Builder.trees reporter) Encounter.recorder where
  states x := Accounted reporter start x.1 x.2
  later x y := x.1.tables.GrowsTo y.1.tables
  results x T F := x.1.tables.treeOf? F = some T
  later_refl x := .refl x.1.tables
  later_trans h h' := h.trans h'
  results_later h h' := h.treeOf? h'
  absent {x} hx := ⟨hx, .refl x.1.tables, rfl⟩
  leaf {x v key} hx hkey := by
    have hstep := Progress.internLeaf_cases hx.coherent (reporter.reportLeaf v) key v
    exact hx.meet ((encoding reporter).leaf (x := (x.1, ())) hx.coherent hkey) hstep
      fun _ _ => Reporter.accounts_leaf hlog
  list {x items Ts Fs} hx h := by
    have hstep := Progress.internShape_cases hx.coherent
      (reporter.reportList items (.list (Ts.map Rose.value))) (.list (Ts.map Rose.value))
    exact hx.meet ((encoding reporter).list (x := (x.1, ())) hx.coherent h) hstep
      fun _ _ => Reporter.accounts_list hlog
  node {x v kind Ts Fs} hx h := by
    have hstep := Progress.internShape_cases hx.coherent
      (reporter.reportNode v kind (.node kind (Ts.map Rose.value))) (.node kind (Ts.map Rose.value))
    exact hx.meet ((encoding reporter).node (x := (x.1, ())) hx.coherent h) hstep
      fun _ _ => Reporter.accounts_node hlog

namespace Canonicalizer

/-- **A labeling is accounted for** by what is met on the way through its tree. -/
theorem label_accounted {c : Canonicalizer} (hlog : c.reporter.settings.logAllocations = true)
    (hc : c.tables.Coherent) {root : Value} {labeled : Labeled}
    (h : c.label root = some labeled) :
    ∃ es, c.frontend.encounters root = some es
      ∧ c.reporter.Accounts labeled.canonicalizer.tables es
          (c.tables.newIds labeled.canonicalizer.tables) labeled.report := by
  obtain ⟨ending, hending, rfl⟩ := Option.map_eq_some_iff.1 h
  rw [label_eq_recursion] at hending
  obtain ⟨⟨outcome, es⟩, hbuild, haccounted, -⟩ := (recording hlog c.tables).buildNode
    (x := (⟨c.tables, .empty⟩, [])) (.nil c.reporter hc) hending
  exact ⟨es, congrArg (Option.map Prod.snd) hbuild, haccounted.accounts⟩

/-- **The events that were handed to the sink** over some labelings. -/
def offered (calls : List Call) : List Event :=
  calls.flatMap fun call => call.labeled.report.offered

namespace History

variable {fe : Frontend} {reporter : Reporter} {calls : List Call} {c : Canonicalizer}

/-- **The events of a history come in the order of their ids**, and only leaves without a
text have none. -/
theorem offered_ids (hlog : reporter.settings.logAllocations = true)
    (h : (create fe reporter).History calls c) :
    (offered calls).map Event.id
      = ((empty.newIds c.tables).filter fun id => !c.tables.isUnwritten id).map Int.ofNat := by
  induction h with
  | nil => rfl
  | @snoc calls c root labeled before last ih =>
    have hc : c.tables.Coherent := before.coherent coherent_empty
    have hgrows : c.tables.GrowsTo labeled.canonicalizer.tables := (label_spec hc last).2.2.2.1
    have hnext : empty.nextId ≤ c.tables.nextId := hc.first_le
    have hreporter : c.reporter = reporter := before.reporter_eq
    obtain ⟨es, -, haccounts⟩ := label_accounted (hreporter ▸ hlog) hc last
    -- Later answers about old ids are the answers before.
    have hold : (empty.newIds c.tables).filter (fun id => !c.tables.isUnwritten id)
        = (empty.newIds c.tables).filter fun id =>
            !labeled.canonicalizer.tables.isUnwritten id := by
      refine List.filter_congr fun id hid => ?_
      rw [(hgrows.answersAlike hc rfl ((mem_newIds hnext).1 hid).2).isUnwritten_eq]
    have hsplit : offered (calls ++ [⟨root, labeled⟩]) = offered calls ++ labeled.report.offered := by
      rw [offered, List.flatMap_append, List.flatMap_singleton]
      rfl
    rw [hsplit, List.map_append, ih, haccounts.offered_ids, hold, ← List.map_append,
      ← List.filter_append, newIds_append hnext hgrows.nextId_le]

/-- **Every id is accounted for.** If allocations are reported, the events that are handed to
the sink over any labelings, whether these fail or not, come with greater and greater ids. And
whatever is labeled next, with success or not, is accounted for by the pieces that are met on
the way through its tree, all of which are found in the tree: there is one event for each id
handed out, apart from leaves whose value cannot be written; events tell what the tables answer
about their ids, and summarize the first piece met that has the id; and the lines in the log
that report a failed event or a failed description are as many as the ids without an event and
the events that the sink failed on, and as the ids of pieces without a description, apart from
what the sink wrote. -/
theorem events_account (hlog : reporter.settings.logAllocations = true)
    (h : (create fe reporter).History calls c) :
    ((offered calls).map Event.id).Pairwise (· < ·)
    ∧ ∀ root labeled, c.label root = some labeled → ∃ es, fe.encounters root = some es
      ∧ (∀ e ∈ es, e.FoundIn fe root)
      ∧ reporter.Accounts labeled.canonicalizer.tables es
          (c.tables.newIds labeled.canonicalizer.tables) labeled.report := by
  constructor
  · have hsorted : (empty.newIds c.tables).Pairwise (· < ·) := List.pairwise_lt_range' ..
    rw [h.offered_ids hlog, List.pairwise_map]
    exact (hsorted.filter _).imp Int.ofNat_lt.2
  · intro root labeled hlabel
    have hreporter : c.reporter = reporter := h.reporter_eq
    obtain ⟨es, hes, haccounts⟩ :=
      label_accounted (hreporter ▸ hlog) (h.coherent coherent_empty) hlabel
    rw [h.frontend_eq] at hes
    rw [hreporter] at haccounts
    exact ⟨es, hes, Frontend.encounters_foundIn hes, haccounts⟩

/-- A labeling that fails after it has met a name, and after a labeling that succeeded. -/
theorem events_account_block :
    ∃ a b c es, (create Dialect.blocks.frontend {}).History [⟨.name 6 "x", a⟩] c
      ∧ c.label (.block 3 [.name 4 "y", .int 5]) = some b
      ∧ (∃ failure, b.result = .error failure)
      ∧ ((offered [⟨.name 6 "x", a⟩]).map Event.id).Pairwise (· < ·)
      ∧ Dialect.blocks.frontend.encounters (.block 3 [.name 4 "y", .int 5]) = some es
      ∧ Reporter.Accounts {} b.canonicalizer.tables es
          (c.tables.newIds b.canonicalizer.tables) b.report := by
  have h : (create Dialect.blocks.frontend {}).History [] _ := .nil
  obtain ⟨a, h, -⟩ := h.exists_snoc coherent_empty (form_name 6 "x")
  obtain ⟨b, hb, hencodes⟩ := h.exists_label coherent_empty form_number
  obtain ⟨hsorted, haccounts⟩ := h.events_account rfl
  obtain ⟨es, hes, -, haccounts⟩ := haccounts _ _ hb
  exact ⟨a, b, _, es, h, hb, ⟨_, hencodes.eq_error⟩, hsorted, hes, haccounts⟩

end History

end Canonicalizer

end HashConsing
