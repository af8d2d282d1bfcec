import Parkour.Engine.Audience
import Parkour.Language.Catalogue
import Parkour.Language.Suggestion
/-!
# The world of a run

All that a sequence can see and change: the player, the variables, the functions
that were defined, the listeners that are set up, and the audience.
-/

namespace Parkour.Engine

open Parkour.Language
open Player (Axis Coordinate Controls)
open Report (Event Listener ListenerKind Recording)

/-- All that a sequence can see and change. -/
structure World (σ : Type) where
  /-- The player. -/
  player : Player
  /-- The variables. -/
  scope : Scope := ∅
  /-- The functions that were defined, by their names. -/
  functions : Dictionary UserFunction := ∅
  /-- The listeners that are set up. -/
  recording : Recording := .idle
  /-- Who is told what happens. -/
  audience : σ

/-- The names closest to a misspelled one. -/
def suggestions (axis : Axis) (functions : Dictionary UserFunction) (name : String) :
    List String :=
  Suggestion.suggest name (Catalogue.names axis ++ functions.keys)

/-- A name that stands for nothing. -/
def unknownName (axis : Axis) (functions : Dictionary UserFunction) (name : String) : Fault :=
  .undefined name (suggestions axis functions name)

namespace World

variable {σ : Type}

/-- Tells the audience of a moment. -/
def tell [Audience σ] (w : World σ) (moment : Moment) : World σ :=
  { w with audience := Audience.tell w.audience moment }

/-- Reports an event. -/
def emit [Audience σ] (w : World σ) (event : Event) : World σ :=
  w.tell (.event event)

/-- The decimals that readouts show. -/
def precision (w : World σ) : Nat := w.player.precision.toNat

/-- A name that stands for nothing in this world. -/
def unknown (w : World σ) (name : String) : Fault :=
  unknownName w.player.axis w.functions name

/-- What a name stands for: a builtin before a defined function before a variable
with a text. -/
def resolve (w : World σ) (name : String) : Except Fault Target :=
  match Catalogue.find? w.player.axis name with
  | some b => .ok (.builtin b)
  | none =>
      match w.functions.get? name with
      | some f => .ok (.user f)
      | none =>
          match w.scope.get? name with
          | some (.text body) => .ok (.sequence name body)
          | _ => .error (w.unknown name)

/-- The call that a token makes. A place within the arguments is moved onto the
whole token. -/
def bindToken (w : World σ) (stack : List String) (token : String) : Except Fault Call := do
  let command ← Command.parse stack token
  let target ← w.resolve command.name
  match Binding.bindCall command target w.scope stack with
  | .ok call => return call
  | .error fault => throw (fault.relocated token command.argumentsAt)

/-- A copy for a trial, which no listener watches. -/
def fork [Audience σ] (w : World σ) : World σ :=
  { w with recording := .idle, audience := Audience.trial w.audience }

/-- The world after a trial: the audience hears of it, and nothing else has changed. -/
def absorb [Audience σ] (w trial : World σ) : World σ :=
  { w with audience := Audience.absorb w.audience trial.audience }

/-- The world with one more listener. -/
def armed (w : World σ) (listener : Listener) : World σ :=
  { w with recording := w.recording.arm listener }

/-- The world without the listeners of a kind. -/
def disarmed (w : World σ) (kind : ListenerKind) : World σ :=
  { w with recording := w.recording.disarm kind }

end World

/-- Plays ticks with the listeners watching. The first tick has the controls as they
are, the others the settled ones. -/
def playTicks {σ : Type} [Audience σ] (recording : Recording) :
    Nat → Controls → Player → σ → Player × σ
  | 0, _, p, audience => (p, audience)
  | n + 1, c, p, audience =>
      let p := p.tick c
      playTicks recording n c.settled p (Audience.tell audience (.tick recording c p))

/-- Plays ticks in a world. -/
def World.play {σ : Type} [Audience σ] (w : World σ) (n : Nat) (c : Controls) : World σ :=
  let played := playTicks w.recording n c w.player w.audience
  { w with player := played.1, audience := played.2 }

end Parkour.Engine
