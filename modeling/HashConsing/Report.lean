import HashConsing.Log
import HashConsing.Settings
import HashConsing.Shape
import HashConsing.Value.Text

/-!
# Reports of allocations

Whoever wants to follow a labeling is told of every id that is handed out, by
an event: the text of a leaf, or the shape and a short summary of a node or a
list. Events go to a sink, which may refuse one.

A report is made the moment an id is handed out. Much can go wrong in it: a node
cannot be described, a value cannot be written, the sink refuses. Each of these
leaves a line in the log, and none of them stops the labeling.
-/

namespace HashConsing

/-! ## Events -/

/-- **An id that was handed out.** Only leaves have no shape. -/
structure Event where
  id : Int
  /-- `leaf`, `list`, or the kind of a node. -/
  kind : String
  /-- The text of a leaf, or the summary of a node or list. -/
  value : String
  shape : Option ShapeRecord

/-- **The text of an event.** -/
def Event.text (e : Event) : String :=
  match e.shape with
  | none => s!"CREATED {e.kind} id={e.id}, value={e.value}"
  | some shape =>
    s!"CREATED {e.kind} id={e.id}, key=\x7b{shape.text}\x7d, value=<{e.value}>"

/-! ## The log -/

/-- The line that reports a description that failed. -/
def LogLine.summaryFailed : LogLine :=
  ⟨.error, "Source summary failed; emitting event without it"⟩

/-- The line that reports an event that could not be made or was refused. -/
def LogLine.sinkFailed : LogLine :=
  ⟨.error, "Allocation sink failed; labeling continues"⟩

/-! ## Sinks -/

/-- **What a sink does with an event**: it takes it, perhaps writing to the log,
or it fails. -/
inductive Reaction where
  | accepted (log : List LogLine)
  | failed

/-- A receiver of events. -/
abbrev Sink := Event → Reaction

namespace Sink

/-- A sink that takes every event. -/
def silent : Sink := fun _ => .accepted []

/-- **The sink in use where none is chosen**: it writes every event to the
log. -/
def logging : Sink := fun e => .accepted [⟨.debug, e.text⟩]

end Sink

/-! ## Reporting -/

/-- **An event that was handed to the sink**, and whether the sink took it. -/
structure Delivery where
  event : Event
  taken : Bool

/-- **What has been reported**: the events handed to the sink, and the log. -/
structure Report where
  deliveries : Array Delivery
  log : Array LogLine

namespace Report

/-- The report of nothing. -/
def empty : Report := ⟨#[], #[]⟩

/-- A report followed by another one. -/
def append (r s : Report) : Report := ⟨r.deliveries ++ s.deliveries, r.log ++ s.log⟩

/-- A report with a line written before it. -/
def after (line : LogLine) (r : Report) : Report := { r with log := #[line] ++ r.log }

/-- **The events that the sink took.** -/
def events (r : Report) : List Event :=
  (r.deliveries.toList.filter Delivery.taken).map Delivery.event

end Report

/-- **How allocations are reported**: the settings, the description of nodes, and
the sink. -/
structure Reporter where
  settings : Settings := {}
  /-- The text that describes a node, if it can be described. -/
  describe : Value → Option String := Value.description
  sink : Sink := Sink.logging

/-- The value of an event about something that cannot be described. -/
def unavailableSummary : String := "<unavailable>"

namespace Reporter

variable (r : Reporter)

/-- The description of an item of a list. -/
def describeItem : Value → Option String
  | .null => some "<null>"
  | v => r.describe v

/-- **The description of a list**: those of its items. If an item cannot be
described the list cannot. -/
def describeItems (items : List Value) : Option String := do
  return ", ".intercalate (← items.mapM r.describeItem)

/-- The description cut to the width of a summary. -/
def summary (description : String) : String :=
  String.ofList (Text.shorten r.settings.summaryWidth description.toList)

/-- **Hands an event to the sink.** -/
def deliver (e : Event) : Report :=
  match r.sink e with
  | .accepted log => ⟨#[⟨e, true⟩], log.toArray⟩
  | .failed => ⟨#[⟨e, false⟩], #[.sinkFailed]⟩

/-- Reports a shape with a description. -/
def deliverShape (id : Nat) (kind : String) (s : Shape) (description : Option String) :
    Report :=
  let event (value : String) : Event := ⟨id, kind, value, some s.record⟩
  match description with
  | some text => r.deliver (event (r.summary text))
  | none => (r.deliver (event unavailableSummary)).after .summaryFailed

/-- **Reports an id handed out for a leaf.** A leaf whose value cannot be written
makes no event. -/
def reportLeaf (v : Value) (id : Nat) : Report :=
  if r.settings.logAllocations then
    match v.leafText with
    | .ok text => r.deliver ⟨id, "leaf", text, none⟩
    | .error _ => ⟨#[], #[.sinkFailed]⟩
  else .empty

/-- **Reports an id handed out for the shape of a list** with the given items. -/
def reportList (items : List Value) (s : Shape) (id : Nat) : Report :=
  if r.settings.logAllocations then
    r.deliverShape id "list" s (r.describeItems items)
  else .empty

/-- **Reports an id handed out for the shape of a node** of a kind. -/
def reportNode (v : Value) (kind : String) (s : Shape) (id : Nat) : Report :=
  if r.settings.logAllocations then
    r.deliverShape id kind s (r.describe v)
  else .empty

end Reporter

end HashConsing
