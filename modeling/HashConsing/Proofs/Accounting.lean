import HashConsing.Proofs.Permanence
import HashConsing.Proofs.Recording
import HashConsing.Proofs.Renaming
import HashConsing.Proofs.Summaries
import Mathlib.Data.List.Find

/-!
# Accounts of what was reported

Whoever follows a labeling sees a stream of events and a log. This module says what they
have to be like for given ids that were handed out: `Reporter.Accounts`. There is one event
for each id, in order, except for leaves whose value cannot be written. What an event tells
agrees with what the tables answer about its id, and with the piece of the tree that the id
was handed out for, which is the first one met that has the id. And the lines in the log
that report something gone wrong can be counted.

Accounts are kept id by id. The report of one id has an account (`Reporter.accounts_leaf`,
`Reporter.accounts_list`, `Reporter.accounts_node`), accounts of reports that follow each
other go together (`Reporter.Accounts.append`), and an account stays right when tables grow
and more is met (`Reporter.Accounts.later`).
-/

namespace HashConsing

/-! ## What is met -/

namespace Tables

/-- **The first piece met that has an id.** -/
def firstMet? (t : Tables) (es : List Encounter) (id : Nat) : Option Piece :=
  (es.find? fun e => t.formId e.form == id).map Encounter.piece

/-- There are ids for everything that was met. -/
def Knows (t : Tables) (es : List Encounter) : Prop :=
  ∀ e ∈ es, ∃ T, t.treeOf? e.form = some T

/-- The ids that were handed out between some tables and later ones. -/
def newIds (t u : Tables) : List Nat := List.range' t.nextId (u.nextId - t.nextId)

/-- **A leaf that has no text**: its value cannot be written. -/
def isUnwritten (t : Tables) (id : Nat) : Bool :=
  match t.isLeaf (.int id), t.leafText (.int id) with
  | .ok true, .error _ => true
  | _, _ => false

variable {t u : Tables} {es es' : List Encounter} {id : Nat}

theorem GrowsTo.knows (h : t.GrowsTo u) (hes : t.Knows es) : u.Knows es := fun e he =>
  (hes e he).imp fun _ hT => h.treeOf? hT

/-- What was met keeps its id. -/
theorem GrowsTo.formId_eq (h : t.GrowsTo u) {F : Form} {T : Rose Nat}
    (hT : t.treeOf? F = some T) : u.formId F = t.formId F := by
  rw [Tables.formId_eq hT, Tables.formId_eq (h.treeOf? hT)]

/-- **The first piece met stays the first one** when tables grow and more is met. -/
theorem GrowsTo.firstMet?_append (h : t.GrowsTo u) (hes : t.Knows es) (es' : List Encounter)
    {piece : Piece} (hpiece : t.firstMet? es id = some piece) :
    u.firstMet? (es ++ es') id = some piece := by
  obtain ⟨e, he, rfl⟩ := Option.map_eq_some_iff.1 hpiece
  have hold : (es.find? fun e => u.formId e.form == id) = some e := by
    rw [← he]
    refine List.find?_congr fun e he => ?_
    obtain ⟨T, hT⟩ := hes e he
    rw [h.formId_eq hT]
  rw [firstMet?, List.find?_append, hold]
  rfl

/-- What has a new id was not met before. -/
theorem firstMet?_new (hes : ∀ e ∈ es, t.formId e.form ≠ id) {e : Encounter}
    (he : t.formId e.form = id) : t.firstMet? (es ++ [e]) id = some e.piece := by
  have hnone : (es.find? fun e => t.formId e.form == id) = none := by
    rw [List.find?_eq_none]
    intro e' he'
    simpa using hes e' he'
  rw [firstMet?, List.find?_append, hnone, Option.none_or, List.find?_singleton, he,
    if_pos (beq_self_eq_true id)]
  rfl

/-- Whether a leaf has a text does not change. -/
theorem AnswersAlike.isUnwritten_eq (h : t.AnswersAlike u (.int id)) :
    u.isUnwritten id = t.isUnwritten id := by
  unfold isUnwritten
  rw [h.isLeaf, h.leafText]

section Unwritten

variable {r : Representation} (hr : t.representation (.int id) = .ok r)

include hr

theorem isLeaf_eq_ok : t.isLeaf (.int id) = .ok r.isLeaf := by
  unfold isLeaf
  rw [hr]
  rfl

/-- What is no leaf is not a leaf without a text. -/
theorem isUnwritten_of_not_isLeaf (hleaf : r.isLeaf = false) : t.isUnwritten id = false := by
  unfold isUnwritten
  rw [isLeaf_eq_ok hr, hleaf]

end Unwritten

section Leaf

variable {v : Value} (hv : t.representation (.int id) = .ok (.leaf v))

include hv

theorem leafText_eq : t.leafText (.int id) = v.leafText := by
  unfold leafText
  rw [hv]
  rfl

theorem isUnwritten_eq_false {text : String} (htext : v.leafText = .ok text) :
    t.isUnwritten id = false := by
  unfold isUnwritten
  rw [leafText_eq hv, htext]
  cases t.isLeaf (.int id) with
  | error failure => rfl
  | ok leaf => cases leaf <;> rfl

theorem isUnwritten_eq_true {failure : Failure} (hfailure : v.leafText = .error failure) :
    t.isUnwritten id = true := by
  unfold isUnwritten
  rw [isLeaf_eq_ok hv, leafText_eq hv, hfailure]
  rfl

end Leaf

end Tables

/-! ## What the sink makes of events -/

/-- **The events that were handed to the sink**, whether it took them or not. -/
def Report.offered (report : Report) : List Event :=
  report.deliveries.toList.map Delivery.event

theorem Report.offered_append (report report' : Report) :
    (report.append report').offered = report.offered ++ report'.offered := by
  simp [Report.offered, Report.append]

theorem Report.events_append (report report' : Report) :
    (report.append report').events = report.events ++ report'.events := by
  simp [Report.events, Report.append]

theorem Report.log_append (report report' : Report) :
    (report.append report').log.toList = report.log.toList ++ report'.log.toList := by
  simp [Report.append]

/-! ## What summaries are like -/

/-- **A text with its blanks collapsed**: what lies between blanks, with single spaces between. -/
def Text.collapsed (text : String) : List Char :=
  [' '].intercalate ((text.toList.splitOnP isBlank).filter (· ≠ []))

/-- **What sums up a description**, if there is one: the text with its blanks collapsed where it
fits the width, and otherwise as much of it as leaves room for three dots behind it. -/
inductive Summarizes (width : Nat) : Option String → String → Prop where
  | whole {text : String} (hfits : (Text.collapsed text).length ≤ width) :
      Summarizes width (some text) (String.ofList (Text.collapsed text))
  | cut {text : String} (hlong : width < (Text.collapsed text).length) :
      Summarizes width (some text)
        (String.ofList ((Text.collapsed text).take (width - 3) ++ ['.', '.', '.']))
  | unavailable : Summarizes width none "<unavailable>"

theorem Text.joinWords_words_toList (text : String) :
    joinWords (words text.toList) = collapsed text :=
  congrArg joinWords (words_eq_filter_splitOnP text.toList)

namespace Reporter

variable (r : Reporter)

/-- **A summary sums up its description.** -/
theorem summarizes_summary (description : String) :
    Summarizes r.settings.summaryWidth (some description) (r.summary description) := by
  have hjoined : Text.joinWords (Text.words description.toList) = Text.collapsed description :=
    Text.joinWords_words_toList description
  by_cases hfits : (Text.collapsed description).length ≤ r.settings.summaryWidth
  · rw [summary, Text.shorten_of_le (hjoined ▸ hfits), hjoined]
    exact .whole hfits
  · have hlong := Nat.lt_of_not_le hfits
    rw [summary, Text.shorten_of_lt (hjoined ▸ hlong), hjoined]
    exact .cut hlong

/-- **The sink fails on an event.** -/
def refuses (e : Event) : Bool :=
  match r.sink e with
  | .accepted _ => false
  | .failed => true

/-- The lines that the sink itself writes when it takes an event. -/
def sinkLines (e : Event) : List LogLine :=
  match r.sink e with
  | .accepted log => log
  | .failed => []

/-! ## What events tell -/

/-- **The description of an item of a list**, which may be absent. -/
inductive ItemText : Value → String → Prop where
  | absent : ItemText .null "<null>"
  | node {v : Value} {text : String} (hpresent : v.isNull = false)
      (hdescribe : r.describe v = some text) : ItemText v text

/-- **The description of a node or a list**, if there is one. A list has none if one of its
items that are not absent has none. -/
inductive Describes : Piece → Option String → Prop where
  | node (v : Value) : Describes (.node v) (r.describe v)
  | list {items : List Value} {texts : List String}
      (heach : List.Forall₂ r.ItemText items texts) :
      Describes (.list items) (some (", ".intercalate texts))
  | undescribed {items : List Value} {item : Value} (hitem : item ∈ items)
      (hpresent : item.isNull = false) (hnone : r.describe item = none) :
      Describes (.list items) none

/-- **What an event tells of an id**: the text of a leaf, or the shape of a node or a list
with what sums up the description of the piece that was met first. -/
inductive Tells (t : Tables) (es : List Encounter) (id : Nat) : Event → Prop where
  | leaf {text : String} (htext : t.leafText (.int id) = .ok text) :
      Tells t es id ⟨id, "leaf", text, none⟩
  | shape {s : Shape} {piece : Piece} {description : Option String}
      (hs : t.representation (.int id) = .ok (.shape s))
      (hpiece : t.firstMet? es id = some piece) (hdescribes : r.Describes piece description)
      {value : String} (hvalue : Summarizes r.settings.summaryWidth description value) :
      Tells t es id ⟨id, s.kind?.getD "list", value, some s.record⟩

/-- **A piece that cannot be described.** -/
def isUndescribed : Piece → Bool
  | .leaf _ => false
  | .list items => items.any fun v => !v.isNull && (r.describe v).isNone
  | .node v => (r.describe v).isNone

/-- **The account of a report** about some ids. -/
structure Accounts (t : Tables) (es : List Encounter) (ids : List Nat) (report : Report) :
    Prop where
  /-- Every id was handed out for something that was met. -/
  met : ∀ id ∈ ids, ∃ piece, t.firstMet? es id = some piece
  /-- There is one event for each id, in order; only leaves without a text have none. -/
  offered_ids : report.offered.map Event.id
    = (ids.filter fun id => !t.isUnwritten id).map Int.ofNat
  tells : ∀ e ∈ report.offered, ∃ id ∈ ids, r.Tells t es id e
  /-- The sink took the events that it did not fail on. -/
  events_eq : report.events = report.offered.filter fun e => !r.refuses e
  /-- A line for each id without an event, and for each event that the sink failed on. -/
  count_sinkFailed : report.log.toList.count .sinkFailed
    = ids.countP t.isUnwritten + report.offered.countP r.refuses
      + (report.offered.flatMap r.sinkLines).count .sinkFailed
  /-- A line for each id that was handed out for something that cannot be described. -/
  count_summaryFailed : report.log.toList.count .summaryFailed
    = (ids.countP fun id => (t.firstMet? es id).any r.isUndescribed)
      + (report.offered.flatMap r.sinkLines).count .summaryFailed

variable {r} {t u : Tables} {es : List Encounter} {ids ids' : List Nat} {report report' : Report}

namespace Accounts

/-- Nothing is reported of no id. -/
theorem nil (r : Reporter) (t : Tables) (es : List Encounter) : r.Accounts t es [] .empty where
  met := by simp
  offered_ids := rfl
  tells := by simp [Report.offered, Report.empty]
  events_eq := rfl
  count_sinkFailed := rfl
  count_summaryFailed := rfl

/-- **Accounts go together.** -/
theorem append (h : r.Accounts t es ids report) (h' : r.Accounts t es ids' report') :
    r.Accounts t es (ids ++ ids') (report.append report') where
  met id hid := (List.mem_append.1 hid).elim (h.met id) (h'.met id)
  offered_ids := by
    rw [Report.offered_append, List.map_append, h.offered_ids, h'.offered_ids, List.filter_append,
      List.map_append]
  tells e he := by
    rw [Report.offered_append, List.mem_append] at he
    rcases he with he | he
    · obtain ⟨id, hid, htells⟩ := h.tells e he
      exact ⟨id, List.mem_append_left _ hid, htells⟩
    · obtain ⟨id, hid, htells⟩ := h'.tells e he
      exact ⟨id, List.mem_append_right _ hid, htells⟩
  events_eq := by
    rw [Report.events_append, Report.offered_append, h.events_eq, h'.events_eq,
      List.filter_append]
  count_sinkFailed := by
    rw [Report.log_append, Report.offered_append, List.count_append, h.count_sinkFailed,
      h'.count_sinkFailed, List.countP_append, List.countP_append, List.flatMap_append,
      List.count_append]
    omega
  count_summaryFailed := by
    rw [Report.log_append, Report.offered_append, List.count_append, h.count_summaryFailed,
      h'.count_summaryFailed, List.countP_append, List.flatMap_append, List.count_append]
    omega

end Accounts

/-! ## Growing tables -/

section Later

variable (ht : t.Coherent) (hgrows : t.GrowsTo u)

include ht hgrows

theorem Tells.later (hes : t.Knows es) (es' : List Encounter) {id : Nat} (hid : id < t.nextId)
    {e : Event} (h : r.Tells t es id e) : r.Tells u (es ++ es') id e := by
  have halike : t.AnswersAlike u (.int id) := hgrows.answersAlike ht rfl hid
  cases h with
  | leaf htext => exact .leaf (halike.leafText.trans htext)
  | shape hs hpiece hdescribes hvalue =>
    exact .shape (halike.representation.trans hs) (hgrows.firstMet?_append hes es' hpiece)
      hdescribes hvalue

/-- **An account stays right** when tables grow and more is met. -/
theorem Accounts.later (hes : t.Knows es) (es' : List Encounter) (hids : ∀ id ∈ ids, id < t.nextId)
    (h : r.Accounts t es ids report) : r.Accounts u (es ++ es') ids report := by
  have hmet : ∀ id ∈ ids, u.firstMet? (es ++ es') id = t.firstMet? es id := by
    intro id hid
    obtain ⟨piece, hpiece⟩ := h.met id hid
    rw [hpiece, hgrows.firstMet?_append hes es' hpiece]
  have hunwritten : ∀ id ∈ ids, u.isUnwritten id = t.isUnwritten id := fun id hid =>
    (hgrows.answersAlike ht rfl (hids id hid)).isUnwritten_eq
  refine ⟨fun id hid => ?_, ?_, fun e he => ?_, h.events_eq, ?_, ?_⟩
  · rw [hmet id hid]
    exact h.met id hid
  · rw [h.offered_ids]
    exact congrArg (List.map Int.ofNat) (List.filter_congr fun id hid => by rw [hunwritten id hid])
  · obtain ⟨id, hid, htells⟩ := h.tells e he
    exact ⟨id, hid, htells.later ht hgrows hes es' (hids id hid)⟩
  · have hcount : ids.countP u.isUnwritten = ids.countP t.isUnwritten :=
      List.countP_congr fun id hid => by rw [hunwritten id hid]
    rw [hcount, h.count_sinkFailed]
  · have hcount : (ids.countP fun id => (u.firstMet? (es ++ es') id).any r.isUndescribed)
        = ids.countP fun id => (t.firstMet? es id).any r.isUndescribed :=
      List.countP_congr fun id hid => by rw [hmet id hid]
    rw [hcount, h.count_summaryFailed]

end Later

/-! ## Descriptions -/

/-- An item whose description is at hand has it. -/
theorem itemText_of_describeItem {v : Value} {text : String} (h : r.describeItem v = some text) :
    r.ItemText v text := by
  cases v with
  | null =>
    cases h
    exact .absent
  | _ => exact .node rfl h

/-- Only items that are not absent have no description. -/
theorem describe_eq_none {v : Value} (h : r.describeItem v = none) :
    v.isNull = false ∧ r.describe v = none := by
  cases v with
  | null => cases h
  | _ => exact ⟨rfl, h⟩

theorem itemTexts_of_mapM {items : List Value} {texts : List String}
    (h : items.mapM r.describeItem = some texts) : List.Forall₂ r.ItemText items texts := by
  induction items generalizing texts with
  | nil =>
    cases h
    exact .nil
  | cons item items ih =>
    rw [List.mapM_cons] at h
    obtain ⟨text, htext, h⟩ := Option.bind_eq_some_iff.1 h
    obtain ⟨texts, htexts, h⟩ := Option.bind_eq_some_iff.1 h
    cases h
    exact .cons (itemText_of_describeItem htext) (ih htexts)

theorem exists_undescribed_of_mapM {items : List Value}
    (h : items.mapM r.describeItem = none) :
    ∃ item ∈ items, item.isNull = false ∧ r.describe item = none := by
  induction items with
  | nil => cases h
  | cons item items ih =>
    rw [List.mapM_cons] at h
    cases hitem : r.describeItem item with
    | none => exact ⟨item, List.mem_cons_self, describe_eq_none hitem⟩
    | some text =>
      cases hitems : items.mapM r.describeItem with
      | none =>
        obtain ⟨other, hother, hnone⟩ := ih hitems
        exact ⟨other, List.mem_cons_of_mem _ hother, hnone⟩
      | some texts =>
        rw [hitem, hitems] at h
        cases h

/-- **Lists are described item by item.** -/
theorem describes_items (items : List Value) :
    r.Describes (.list items) (r.describeItems items) := by
  unfold describeItems
  cases htexts : items.mapM r.describeItem with
  | some texts => exact .list (itemTexts_of_mapM htexts)
  | none =>
    obtain ⟨item, hitem, hpresent, hnone⟩ := exists_undescribed_of_mapM htexts
    exact .undescribed hitem hpresent hnone

/-- A piece that cannot be described has no description. -/
theorem Describes.isUndescribed_eq {piece : Piece} {description : Option String}
    (h : r.Describes piece description) : r.isUndescribed piece = description.isNone := by
  cases h with
  | node v => rfl
  | list heach =>
    refine List.any_eq_false.2 fun item hitem => ?_
    obtain ⟨i, hi⟩ := List.getElem?_of_mem hitem
    obtain ⟨text, -, htext⟩ := exists_getElem?_of_forall₂ heach hi
    cases htext with
    | absent => simp [Value.isNull]
    | node _ hdescribe => simp [hdescribe]
  | undescribed hitem hpresent hnone =>
    exact List.any_eq_true.2 ⟨_, hitem, by simp [hpresent, hnone]⟩

/-! ## One id -/

section Deliveries

variable (r) (e : Event)

theorem offered_deliver : (r.deliver e).offered = [e] := by
  unfold deliver
  cases r.sink e <;> rfl

theorem events_deliver : (r.deliver e).events = [e].filter fun e => !r.refuses e := by
  unfold deliver
  rw [List.filter_singleton, refuses]
  cases r.sink e <;> rfl

theorem log_deliver : (r.deliver e).log.toList
    = r.sinkLines e ++ if r.refuses e then [.sinkFailed] else [] := by
  unfold deliver refuses sinkLines
  cases r.sink e with
  | accepted log => exact (List.append_nil log).symm
  | failed => rfl

end Deliveries

theorem Tells.id_eq {id : Nat} {e : Event} (h : r.Tells t es id e) : e.id = id := by
  cases h <;> rfl

variable {id : Nat} {piece : Piece}

/-- The account of one event, before which the log tells if there is no description. -/
theorem Accounts.single {e : Event} (hmet : t.firstMet? es id = some piece)
    (hwritten : t.isUnwritten id = false) (htells : r.Tells t es id e)
    (hoffered : report.offered = [e])
    (hevents : report.events = [e].filter fun e => !r.refuses e)
    (hlog : report.log.toList
      = (if r.isUndescribed piece then [.summaryFailed] else []) ++ (r.deliver e).log.toList) :
    r.Accounts t es [id] report where
  met := List.forall_mem_singleton.2 ⟨piece, hmet⟩
  offered_ids := by simp [hoffered, hwritten, htells.id_eq]
  tells := by
    rw [hoffered]
    exact List.forall_mem_singleton.2 ⟨id, List.mem_singleton_self id, htells⟩
  events_eq := by rw [hoffered, hevents]
  count_sinkFailed := by
    have hid : [id].countP t.isUnwritten = 0 := by
      rw [List.countP_singleton, hwritten]
      rfl
    have hsummary : (if r.isUndescribed piece then [LogLine.summaryFailed] else []).count .sinkFailed
        = 0 := by
      split <;> rfl
    have hsink : (if r.refuses e then [LogLine.sinkFailed] else []).count .sinkFailed
        = [e].countP r.refuses := by
      rw [List.countP_singleton]
      split <;> rfl
    rw [hlog, hoffered, log_deliver, List.count_append, List.count_append, hsummary, hsink, hid,
      List.flatMap_singleton, Nat.zero_add, Nat.zero_add, Nat.add_comm]
  count_summaryFailed := by
    have hsummary : (if r.isUndescribed piece then [LogLine.summaryFailed] else []).count
        .summaryFailed = if r.isUndescribed piece then 1 else 0 := by
      split <;> rfl
    have hsink : (if r.refuses e then [LogLine.sinkFailed] else []).count .summaryFailed = 0 := by
      split <;> rfl
    rw [hlog, hoffered, log_deliver, List.count_append, List.count_append, hsummary, hsink,
      List.countP_singleton, hmet, Option.any_some, List.flatMap_singleton]
    rfl

/-- The account of a shape that is reported with the description of the piece that was met
first. -/
theorem accounts_deliverShape {s : Shape} (hs : t.representation (.int id) = .ok (.shape s))
    (hmet : t.firstMet? es id = some piece) {description : Option String}
    (hdescribes : r.Describes piece description) :
    r.Accounts t es [id] (r.deliverShape id (s.kind?.getD "list") s description) := by
  have hwritten := Tables.isUnwritten_of_not_isLeaf hs rfl
  have hundescribed := hdescribes.isUndescribed_eq
  cases description with
  | some text =>
    have htells := Tells.shape hs hmet hdescribes (r.summarizes_summary text)
    refine .single hmet hwritten htells (offered_deliver r _) (events_deliver r _) ?_
    rw [hundescribed]
    rfl
  | none =>
    have htells := Tells.shape hs hmet hdescribes .unavailable
    refine .single hmet hwritten htells (offered_deliver r _) (events_deliver r _) ?_
    rw [hundescribed]
    exact Array.toList_append

section Logged

variable (hlog : r.settings.logAllocations = true)

include hlog

/-- **The account of a leaf.** -/
theorem accounts_leaf {v : Value} (hv : t.representation (.int id) = .ok (.leaf v))
    (hmet : t.firstMet? es id = some (.leaf v)) : r.Accounts t es [id] (r.reportLeaf v id) := by
  unfold reportLeaf
  rw [if_pos hlog]
  cases htext : v.leafText with
  | ok text =>
    have htells : r.Tells t es id ⟨id, "leaf", text, none⟩ :=
      .leaf ((Tables.leafText_eq hv).trans htext)
    exact .single hmet (Tables.isUnwritten_eq_false hv htext) htells (offered_deliver r _)
      (events_deliver r _) rfl
  | error failure =>
    have hunwritten := Tables.isUnwritten_eq_true hv htext
    refine ⟨List.forall_mem_singleton.2 ⟨_, hmet⟩, ?_, ?_, rfl, ?_, ?_⟩
    · simp [hunwritten, Report.offered]
    · simp [Report.offered]
    · rw [List.countP_singleton, if_pos hunwritten]
      rfl
    · rw [List.countP_singleton, hmet]
      rfl

/-- **The account of a list.** -/
theorem accounts_list {items : List Value} {cs : List Nat}
    (hs : t.representation (.int id) = .ok (.shape (.list cs)))
    (hmet : t.firstMet? es id = some (.list items)) :
    r.Accounts t es [id] (r.reportList items (.list cs) id) := by
  unfold reportList
  rw [if_pos hlog]
  exact accounts_deliverShape hs hmet (describes_items items)

/-- **The account of a node.** -/
theorem accounts_node {v : Value} {kind : String} {cs : List Nat}
    (hs : t.representation (.int id) = .ok (.shape (.node kind cs)))
    (hmet : t.firstMet? es id = some (.node v)) :
    r.Accounts t es [id] (r.reportNode v kind (.node kind cs) id) := by
  unfold reportNode
  rw [if_pos hlog]
  exact accounts_deliverShape hs hmet (.node v)

end Logged

end Reporter

end HashConsing
