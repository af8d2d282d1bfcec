import Parkour.Engine.Nesting
import Parkour.Settings
/-!
# Sessions

An engine keeps a player and the defined functions from one run to the next. The
variables belong to the caller, who lends them to each run.
-/

namespace Parkour

open Parkour.Language

/-- What is kept between runs. -/
structure Engine where
  /-- The player. -/
  player : Player
  /-- The functions that were defined, by their names. -/
  functions : Dictionary UserFunction := ∅
  /-- The deepest nesting of calls that is allowed. -/
  maxDepth : Nat := 64
  /-- Runs fail until this is taken back. -/
  cancelled : Bool := false

namespace Engine

open Player (Axis)
open Report (Event Sink)

/-- An engine with a new player. -/
def new (axis : Axis) : Engine :=
  { player := { axis } }

/-- An engine with a new player under these settings. -/
def ofSettings (axis : Axis) (settings : Settings) : Except Fault Engine := do
  return { player := ← settings.player axis, maxDepth := settings.maxDepth }

/-- The axis model of the player. -/
def axis (e : Engine) : Axis := e.player.axis

/-- The signature of a builtin of either model or of a defined function. A builtin of
the own model comes first. -/
def signature (e : Engine) (name : String) : Except Fault String :=
  match (Catalogue.find? e.axis name).or (Catalogue.findAny? name) with
  | some b => .ok b.signature
  | none =>
      match e.functions.get? name with
      | some f => .ok f.display
      | none => .error (unknownName e.axis e.functions name)

/-- What is read out at the end of a run that printed nothing. -/
def closingReadouts (p : Player) : List Event :=
  let readout (label : String) (value : Float) : Event :=
    .readout label value none p.precision.toNat
  match p.axis with
  | .horizontal =>
      [readout "X" p.x, readout "Z" p.z, readout "VX" p.vx, readout "VZ" p.vz]
  | .vertical => [readout "Y" p.y, readout "VY" p.vy]

/-- What a run leaves behind. -/
structure Answer where
  /-- The events, or the fault that ended the run. -/
  outcome : Except Fault (List Event)
  /-- The engine for the next run. -/
  engine : Engine
  /-- The variables after the run. -/
  scope : Scope

/-- The world in which a run starts. -/
def world (e : Engine) (scope : Scope) : World Sink :=
  { player := e.player, scope, functions := e.functions, audience := .empty }

/-- What a run amounts to. With `closing`, a run that printed nothing ends with
readouts. Without `strict`, a fault becomes the last event. -/
def answer (e : Engine) (closing strict : Bool) (result : Except Fault (List Call))
    (after : World Sink) : Answer :=
  let outcome : Except Fault (List Event) :=
    match result with
    | .ok _ =>
        if closing && after.audience.emitted = 0 then .ok (closingReadouts after.player)
        else .ok after.audience.kept
    | .error fault =>
        if strict then .error fault
        else .ok (after.audience.kept ++ [.text fault.display])
  { outcome
    engine := { e with player := after.player, functions := after.functions }
    scope := after.scope }

/-- Runs a sequence. -/
def simulate (e : Engine) (text : String) (closing strict : Bool) (scope : Scope) : Answer :=
  let rules : Rules := { maxDepth := e.maxDepth, cancelled := e.cancelled }
  let (result, after) := runSequence rules text (e.world scope)
  e.answer closing strict result after

/-- Runs a sequence on a new engine. A fault becomes the last event. -/
def simulateOnce (axis : Axis) (text : String) : List Event :=
  match ((new axis).simulate text true false ∅).outcome with
  | .ok events => events
  | .error fault => [.text fault.display]

end Engine

end Parkour
