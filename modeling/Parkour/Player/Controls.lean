import Parkour.Player.Basic
/-!
# Controls

What the caller decides for a single tick.
-/

namespace Parkour.Player

/-- The input of one tick. -/
structure Controls where
  /-- What the player does. -/
  phase : Phase
  /-- The keys held. -/
  keys : Keys := .none
  /-- Sprinting. -/
  sprint : Bool := false
  /-- Sneaking. -/
  sneak : Bool := false
  /-- The terrain. -/
  terrain : Terrain := .plain
  /-- A facing in place of the default one. -/
  rotation : Option Float32 := none
  /-- Added to the facing in the end. -/
  facingOffset : Float32 := 0
  /-- All input is turned round. -/
  reverse : Bool := false
  /-- A slipperiness in place of that of the ground. -/
  slip : Option Float32 := none

/-- The phase after the first tick of a call: jumps and bounces go over into the
air. -/
def Phase.settled : Phase → Phase
  | .ground => .ground
  | .jump => .air
  | .air => .air
  | .slime => .air

/-- The controls for the ticks after the first one of a call. -/
def Controls.settled (c : Controls) : Controls :=
  { c with phase := c.phase.settled }

end Parkour.Player
