import Parkour.Report.Amount
/-!
# Events

What a run reports, in order. A readout around a centre is shown as the centre and
the distance from it.
-/

namespace Parkour.Report

/-- One entry of a report. -/
inductive Event where
  | text (content : String)
  | warning (content : String)
  | readout (label : String) (value : Float) (center : Option Float) (precision : Nat)

namespace Event

/-- The line of an event. -/
def display : Event → String
  | .text content => content
  | .warning content => "Warning: " ++ content
  | .readout label value none precision => label ++ ": " ++ fixed value precision
  | .readout label value (some center) precision =>
      let distance := value - center
      let sign := if distance < 0 then " - " else " + "
      label ++ ": " ++ brief center precision ++ sign ++ fixed distance.abs precision

end Event

/-- Where events go: into a log, or nowhere but into a count. -/
inductive Sink where
  /-- Keeps the events, the last one in front. -/
  | log (backwards : List Event)
  | mute (dropped : Nat)

namespace Sink

/-- A log without entries. -/
def empty : Sink := .log []

/-- A sink that keeps nothing. -/
def silent : Sink := .mute 0

/-- Takes one event. -/
def emit (sink : Sink) (event : Event) : Sink :=
  match sink with
  | .log backwards => .log (event :: backwards)
  | .mute dropped => .mute (dropped + 1)

/-- Takes events in their order. -/
def emitAll (sink : Sink) (events : List Event) : Sink :=
  events.foldl emit sink

/-- The count of events taken so far. -/
def emitted : Sink → Nat
  | .log backwards => backwards.length
  | .mute dropped => dropped

/-- The events that have been kept, in their order. -/
def kept : Sink → List Event
  | .log backwards => backwards.reverse
  | .mute _ => []

@[simp] theorem emitted_emit (sink : Sink) (event : Event) :
    (sink.emit event).emitted = sink.emitted + 1 := by
  cases sink <;> simp [emit, emitted]

@[simp] theorem emitAll_nil (sink : Sink) : sink.emitAll [] = sink := rfl

@[simp] theorem emitAll_cons (sink : Sink) (event : Event) (events : List Event) :
    sink.emitAll (event :: events) = (sink.emit event).emitAll events := rfl

theorem emitAll_append (sink : Sink) (first second : List Event) :
    sink.emitAll (first ++ second) = (sink.emitAll first).emitAll second := by
  simp [emitAll, List.foldl_append]

theorem kept_emitAll_log (backwards more : List Event) :
    ((Sink.log backwards).emitAll more).kept = backwards.reverse ++ more := by
  induction more generalizing backwards with
  | nil => simp [kept]
  | cons event more ih => simp [emit, ih]

end Sink

end Parkour.Report
