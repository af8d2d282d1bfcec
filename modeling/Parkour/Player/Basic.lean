import Parkour.Number.Shortest
import Parkour.Number.Whole
import Parkour.Player.Keys
import Parkour.Player.Terrain
/-!
# The player

All that is known of a player between two ticks. One record serves both models,
the motion in the plane and the motion up and down. Settings are checked when
they are made: a refused setting leaves the player as it was.
-/

namespace Parkour.Player

/-- The two models of motion. -/
inductive Axis where
  | horizontal
  | vertical
deriving DecidableEq, Repr

/-- The coordinates of a model, as they are named together. -/
def Axis.display : Axis → String
  | .horizontal => "xz"
  | .vertical => "y"

/-- One coordinate. -/
inductive Coordinate where
  | x
  | z
  | y
deriving DecidableEq, Repr

/-- The letter of a coordinate. -/
def Coordinate.name : Coordinate → String
  | .x => "x"
  | .z => "z"
  | .y => "y"

/-- What a player does during one tick. -/
inductive Phase where
  | ground
  | jump
  | air
  /-- Bounces off slime. -/
  | slime
deriving DecidableEq, Repr

/-- How small velocities are stopped. -/
inductive InertiaMode where
  /-- Each coordinate on its own. -/
  | perAxis
  /-- Both coordinates together, by their common speed. -/
  | combined
deriving DecidableEq, Repr

/-- The effects that have a level. -/
inductive Potion where
  | speed
  | slowness
  | jumpBoost
deriving DecidableEq, Repr

/-- The name of an effect in a refusal. -/
def Potion.name : Potion → String
  | .speed => "speed"
  | .slowness => "slowness"
  | .jumpBoost => "jump boost"

/-- A setting that was refused. -/
inductive Refusal where
  | potion (potion : Potion) (level : Int)
  | inertia (value : Float)
  | ceiling (value : Float)
  | slip (value : Float32)
  | precision (digits : Int)

/-- The highest level of an effect. -/
def maxPotionLevel : Int := 256

/-- The most decimals that are shown. -/
def maxPrecision : Int := 16

/-- The height of a player. -/
def height : Float := 1.8

/-- The drag of the ground per unit of its slipperiness. -/
def slipFactor : Float32 := 0.91

/-- The drag in the air. -/
def airDrag : Float32 := 0.91

/-- The slipperiness of common ground. -/
def defaultSlip : Float32 := 0.6

/-- The wording of a refused setting. -/
def Refusal.message : Refusal → String
  | .potion effect level =>
      effect.name ++ s!" level must be between 0 and {maxPotionLevel}, got {level}"
  | .inertia value =>
      "inertia threshold must be a non-negative number, got " ++ Number.text value
  | .ceiling value =>
      "ceiling height must be at least the player height " ++ Number.text height ++
        ", got " ++ Number.text value
  | .slip value => "slipperiness must be a positive number, got " ++ Number.text32 value
  | .precision digits => s!"precision must be between 0 and {maxPrecision}, got {digits}"

end Player

/-- A player between two ticks. -/
structure Player where
  /-- The model under which it moves. -/
  axis : Player.Axis
  /-- The position to the side. -/
  x : Float := 0
  /-- The position ahead. -/
  z : Float := 0
  /-- The velocity to the side. -/
  vx : Float := 0
  /-- The velocity ahead. -/
  vz : Float := 0
  /-- The height of the feet. -/
  y : Float := 0
  /-- The velocity upwards. -/
  vy : Float := 0
  /-- The default facing in degrees. -/
  facing : Float32 := 0
  /-- The terrain of the last tick. -/
  terrain : Player.Terrain := .plain
  /-- The phase of the last tick. -/
  phase : Player.Phase := .ground
  /-- The slipperiness of the ground. -/
  groundSlip : Float32 := Player.defaultSlip
  /-- The drag that the next tick applies. -/
  prevSlip : Float32 := Player.defaultSlip * Player.slipFactor
  /-- The last tick was sprinted. -/
  prevSprint : Bool := false
  /-- The last tick was sneaked. -/
  prevSneak : Bool := false
  /-- The terrain whose fluid drag the next tick applies. -/
  prevTerrain : Player.Terrain := .plain
  /-- The level of the speed effect. -/
  speed : UInt16 := 0
  /-- The level of the slowness effect. -/
  slowness : UInt16 := 0
  /-- The level of the jump boost effect. -/
  jumpBoost : UInt16 := 0
  /-- The decimals that readouts show. -/
  precision : UInt64 := 6
  /-- The speed below which a velocity is stopped. -/
  inertia : Float := 0.005
  /-- What that speed is compared with. -/
  inertiaMode : Player.InertiaMode := .perAxis
  /-- The height of the ceiling. -/
  ceiling : Option Float := none
  /-- Where the next tick puts the feet, if the ceiling is in the way. -/
  pendingSnap : Option Float := none
  /-- The facings of the coming ticks. -/
  angles : List Float32 := []
  /-- The turns of the coming ticks. -/
  turns : List Float32 := []
  /-- The ticks that have passed. -/
  ticks : UInt64 := 0

namespace Player

/-- The position along a coordinate. -/
def position (p : Player) : Coordinate → Float
  | .x => p.x
  | .z => p.z
  | .y => p.y

/-- The velocity along a coordinate. -/
def velocity (p : Player) : Coordinate → Float
  | .x => p.vx
  | .z => p.vz
  | .y => p.vy

/-- Puts the player at a position. A new height drops a pending snap. -/
def setPosition (p : Player) (coordinate : Coordinate) (value : Float) : Player :=
  match coordinate with
  | .x => { p with x := value }
  | .z => { p with z := value }
  | .y => { p with y := value, pendingSnap := none }

/-- Gives the player a velocity. A new upward velocity drops a pending snap. -/
def setVelocity (p : Player) (coordinate : Coordinate) (value : Float) : Player :=
  match coordinate with
  | .x => { p with vx := value }
  | .z => { p with vz := value }
  | .y => { p with vy := value, pendingSnap := none }

/-- Sets the default facing. -/
def setFacing (p : Player) (degrees : Float32) : Player :=
  { p with facing := degrees }

/-- Turns the default facing. -/
def turn (p : Player) (degrees : Float32) : Player :=
  { p with facing := p.facing + degrees }

/-- Queues facings for the coming ticks, behind those that wait already. -/
def queueAngles (p : Player) (angles : List Float32) : Player :=
  { p with angles := p.angles ++ angles }

/-- Queues turns for the coming ticks, behind those that wait already. -/
def queueTurns (p : Player) (turns : List Float32) : Player :=
  { p with turns := p.turns ++ turns }

/-- The level of an effect, if it is in range. -/
def checkLevel (potion : Potion) (level : Int) : Except Refusal UInt16 :=
  if 0 ≤ level ∧ level ≤ maxPotionLevel then .ok level.toNat.toUInt16
  else .error (.potion potion level)

/-- Sets the level of an effect. -/
def setPotion (p : Player) (potion : Potion) (level : Int) : Except Refusal Player := do
  let checked ← checkLevel potion level
  match potion with
  | .speed => return { p with speed := checked }
  | .slowness => return { p with slowness := checked }
  | .jumpBoost => return { p with jumpBoost := checked }

/-- Sets the speed below which velocities stop. -/
def setInertia (p : Player) (threshold : Float) (mode : InertiaMode) : Except Refusal Player :=
  if !threshold.isFinite || threshold < 0 then .error (.inertia threshold)
  else .ok { p with inertia := threshold, inertiaMode := mode }

/-- Sets or removes the ceiling. A player has to fit under it. -/
def setCeiling (p : Player) (ceiling : Option Float) : Except Refusal Player :=
  match ceiling with
  | some value =>
      if !value.isFinite || value < height then .error (.ceiling value)
      else .ok { p with ceiling := some value, pendingSnap := none }
  | none => .ok { p with ceiling := none, pendingSnap := none }

/-- A slipperiness is finite and positive. -/
def checkSlip (slip : Float32) : Except Refusal Float32 :=
  if !slip.isFinite || slip ≤ 0 then .error (.slip slip) else .ok slip

/-- Sets the slipperiness of the ground. -/
def setGroundSlip (p : Player) (slip : Float32) : Except Refusal Player := do
  return { p with groundSlip := ← checkSlip slip }

/-- Sets the decimals that readouts show. -/
def setPrecision (p : Player) (digits : Int) : Except Refusal Player :=
  if 0 ≤ digits ∧ digits ≤ maxPrecision then .ok { p with precision := digits.toNat.toUInt64 }
  else .error (.precision digits)

end Player

end Parkour
