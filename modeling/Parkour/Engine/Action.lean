import Parkour.Engine.Readout
/-!
# Actions

What the calls do that run no sequence of their own. An action gives the world
after it or a fault, so a failed action has no effect at all.
-/

namespace Parkour.Engine

open Parkour.Language
open Player (Controls Coordinate Phase Potion)

variable {σ : Type}

/-- How far a strafe faces off its way. -/
def strafeOffset : Float32 := 45

/-- Ticks in the plane. -/
def moveTicks [Audience σ] (gait : Gait) (call : Call) (w : World σ) :
    Except Fault (World σ) := do
  let duration ← call.arguments.requireInteger Binding.durationName
  let slip ← (call.arguments.number? "slip").mapM fun v =>
    ofRefusal (Player.checkSlip (Number.narrow v))
  return w.play duration.toNat {
    phase := gait.phase
    keys := call.keys
    sprint := gait.sprint
    sneak := gait.sneak
    terrain := call.modifiers
    rotation := (call.arguments.number? "rotation").map Number.narrow
    facingOffset := if gait.strafe then strafeOffset else 0
    reverse := call.reverse
    slip }

/-- Ticks up and down. -/
def riseTicks [Audience σ] (phase : Phase) (call : Call) (w : World σ) :
    Except Fault (World σ) := do
  let duration ← call.arguments.requireInteger Binding.durationName
  return w.play duration.toNat
    { phase, terrain := call.modifiers, reverse := call.reverse }

/-- The surplus arguments as angles. -/
def angles (arguments : Arguments) : Except Fault (List Float32) :=
  arguments.rest.mapM fun value =>
    match value.number? with
    | some v => .ok (Number.narrow v)
    | none => .error (.misuse (.angle value))

/-- Changes the player alone. -/
def World.adjust (w : World σ) (change : Player → Except Fault Player) :
    Except Fault (World σ) := do
  return { w with player := ← change w.player }

/-- Sets a whole number of the player that has bounds. -/
def setChecked (arguments : Arguments) (parameter : String)
    (set : Player → Int → Except Player.Refusal Player) (p : Player) : Except Fault Player := do
  let n ← arguments.requireInteger parameter
  ofRefusal (set p n)

/-- Sets a number of the player. -/
def setNumber (arguments : Arguments) (parameter : String) (set : Player → Float → Player)
    (p : Player) : Except Fault Player := do
  let v ← arguments.requireNumber parameter
  return set p v

/-- Queues facings or turns. -/
def queueUp (arguments : Arguments) (queue : Player → List Float32 → Player) (p : Player) :
    Except Fault Player := do
  let degrees ← angles arguments
  return queue p degrees

/-- Sets the slipperiness of the ground. -/
def setSlip (arguments : Arguments) (p : Player) : Except Fault Player := do
  let v ← arguments.requireNumber "slip"
  ofRefusal (p.setGroundSlip (Number.narrow v))

/-- Sets the speed below which velocities stop. -/
def setInertia (arguments : Arguments) (p : Player) : Except Fault Player := do
  let threshold ← arguments.requireNumber "threshold"
  let mode : Player.InertiaMode :=
    if arguments.flag? "single_axis" = some false then .combined else .perAxis
  ofRefusal (p.setInertia threshold mode)

/-- Gives a variable the value of an expression. -/
def assign (arguments : Arguments) (w : World σ) : Except Fault (World σ) := do
  let name := Text.trim (← arguments.requireText "name")
  if !Text.isIdentifier name then throw (.badValue (.variableName name))
  let v ← Expression.evaluate (← arguments.requireText "value") w.scope
  return { w with scope := w.scope.insert name (.float v) }

/-- Defines a function. The names of builtins cannot be taken. -/
def define (arguments : Arguments) (w : World σ) : Except Fault (World σ) := do
  let signature ← Signature.parse w.scope (← arguments.requireText "signature")
  if (Catalogue.findAny? signature.name).isSome then throw (.overwrite signature.name)
  let body ← arguments.requireText "body"
  return { w with functions := w.functions.insert signature.name { signature with body } }

/-- Does what a builtin does at once. -/
def perform [Audience σ] (action : Action) (b : Builtin) (call : Call) (w : World σ) :
    Except Fault (World σ) :=
  let arguments := call.arguments
  match action with
  | .move gait => moveTicks gait call w
  | .rise phase => riseTicks phase call w
  | .readOut readout => .ok (readNumber b arguments (readoutValue w.player readout) w)
  | .readMomentum coordinate =>
      let distance := w.player.position coordinate
      .ok (readNumber b arguments (distance - overhangOf distance) w)
  | .readBlocks coordinate =>
      let distance := w.player.position coordinate
      .ok (readNumber b arguments (distance + overhangOf distance) w)
  | .readVector => .ok (readVelocity b arguments w)
  | .print => print arguments w
  | .help => help arguments w
  | .face =>
      w.adjust (setNumber arguments "angle" fun p v => p.setFacing (Number.narrow v))
  | .turn => w.adjust (setNumber arguments "angle" fun p v => p.turn (Number.narrow v))
  | .queueAngles => w.adjust (queueUp arguments Player.queueAngles)
  | .queueTurns => w.adjust (queueUp arguments Player.queueTurns)
  | .setPosition coordinate =>
      w.adjust (setNumber arguments coordinate.name fun p v => p.setPosition coordinate v)
  | .setVelocity coordinate =>
      w.adjust (setNumber arguments ("v" ++ coordinate.name) fun p v =>
        p.setVelocity coordinate v)
  | .setSlip => w.adjust (setSlip arguments)
  | .setPotion potion =>
      w.adjust (setChecked arguments "level" fun p n => p.setPotion potion n)
  | .setCeiling => w.adjust fun p => ofRefusal (p.setCeiling (arguments.number? "height"))
  | .setInertia => w.adjust (setInertia arguments)
  | .setPrecision => w.adjust (setChecked arguments "digits" Player.setPrecision)
  | .assign => assign arguments w
  | .define => define arguments w

end Parkour.Engine
