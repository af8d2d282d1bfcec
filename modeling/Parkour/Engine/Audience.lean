import Parkour.Language.Call
import Parkour.Player.Tick
import Parkour.Report.Listener
/-!
# Audiences

Whom a run tells what happens in it. A run never asks its audience anything. A sink
is told everything as well, but it takes only what is reported.
-/

namespace Parkour.Engine

open Parkour.Language
open Player (Controls)
open Report (Event Recording Sink)

/-- What a run tells while it goes on. -/
inductive Moment where
  /-- A call is made, inside the calls of `stack`. -/
  | call (stack : List String) (made : Call)
  /-- A tick was played while listeners watched, and left this player. -/
  | tick (recording : Recording) (controls : Controls) (after : Player)
  /-- Something was reported. -/
  | event (reported : Event)
  /-- Something happened in a trial. -/
  | tried (moment : Moment)

/-- What is reported in a moment. Nothing is reported from a trial. -/
def Moment.events : Moment → List Event
  | .call _ _ => []
  | .tick recording _ after => recording.observe after
  | .event reported => [reported]
  | .tried _ => []

/-- Those who are told what happens in a run. -/
class Audience (σ : Type) where
  /-- Hears of a moment. -/
  tell : σ → Moment → σ
  /-- The audience of a trial. -/
  trial : σ → σ
  /-- Hears at once all that the audience of a trial has heard. -/
  absorb : σ → σ → σ
  /-- The moments of a trial are heard as moments of a trial. -/
  absorb_trial : ∀ (s : σ) (moments : List Moment),
    absorb s (moments.foldl tell (trial s)) = (moments.map .tried).foldl tell s

/-- A sink takes the reports. Those of a trial go nowhere. -/
instance : Audience Sink where
  tell sink moment := sink.emitAll moment.events
  trial _ := .silent
  absorb sink _ := sink
  absorb_trial sink moments := by
    induction moments with
    | nil => rfl
    | cons moment rest ih => simpa [Moment.events] using ih

end Parkour.Engine
