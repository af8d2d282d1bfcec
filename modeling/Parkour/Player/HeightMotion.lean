import Parkour.Player.Controls
/-!
# Motion up and down

One tick of the vertical model. A head that would pass the ceiling in the next
tick is announced one tick ahead: the next tick then puts the feet at the height
that just fits, and takes the velocity away.
-/

namespace Parkour.Player

/-- The velocity that gravity takes in a tick. -/
def gravity : Float := 0.08

/-- The factor of the air. -/
def airDamping : Float32 := 0.98

/-- The velocity of a jump. -/
def jumpVelocity : Float32 := 0.42

/-- What a level of jump boost adds. -/
def jumpBoostStep : Float32 := 0.1

/-- The factor of water. -/
def waterDamping : Float := 0.8

/-- The factor of lava. -/
def lavaDamping : Float := 0.5

/-- The velocity that is lost in fluids. -/
def fluidSink : Float := 0.02

/-- The velocity that is gained by swimming up. -/
def fluidSwim : Float := 0.04

/-- The height and the velocity that a tick starts with: those of a pending snap,
or the height moved by the velocity. -/
def carried (p : Player) : Float × Float :=
  match p.pendingSnap with
  | some snap => (snap, 0)
  | none => (p.y + p.vy, p.vy)

/-- The velocity of a jump; a reversed one loses the boost. -/
def jumpSpeed (p : Player) (c : Controls) : Float :=
  let boost := jumpBoostStep * Number.round32 .positive p.jumpBoost.toNat 0
  Number.widen (jumpVelocity + (if c.reverse then -boost else boost))

/-- The velocity after this tick, from the one that inertia has left. -/
def risen (p : Player) (c : Controls) (v : Float) : Float :=
  let swim := if c.phase = .jump then fluidSwim else 0
  if c.terrain.water then v * waterDamping - fluidSink + swim
  else if c.terrain.lava then v * lavaDamping - fluidSink + swim
  else match c.phase with
    | .jump => jumpSpeed p c
    | .air => (v - gravity) * Number.widen airDamping
    | .slime => (-v - gravity) * Number.widen airDamping
    | .ground => 0

/-- Where the feet have to stop, if the next move would pass the ceiling. -/
def snapAt (ceiling : Option Float) (y vy : Float) : Option Float :=
  match ceiling with
  | some value =>
      let limit := value - height
      if vy > 0 ∧ y + vy > limit then some limit else none
  | none => none

/-- One tick up or down. -/
def moveInHeight (p : Player) (c : Controls) : Player :=
  let (y, v) := carried p
  let vy := risen p c (if v.abs < p.inertia then 0 else v)
  { p with
    y := y
    vy := vy
    pendingSnap := snapAt p.ceiling y vy
    prevSprint := c.sprint
    prevSneak := c.sneak
    prevTerrain := c.terrain
    terrain := c.terrain
    phase := c.phase }

end Parkour.Player
