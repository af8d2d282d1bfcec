import Parkour.Player.Controls
import Parkour.Player.Trigonometry
/-!
# Motion in the plane

One tick of the horizontal model: the position takes over the velocity of the
last tick, then drag, inertia, the push of a sprinted jump, the acceleration by
the keys and the clamps of the terrain act on the velocity, in this order.
Widths matter: input and facing are 32-bit numbers, positions and velocities
64-bit numbers.
-/

namespace Parkour.Player

/-- The drag of water. -/
def waterDrag : Float32 := 0.8

/-- The drag of lava. -/
def lavaDrag : Float32 := 0.5

/-- The drag of soul sand. -/
def soulsandFactor : Float := 0.4

/-- The acceleration in fluids. -/
def fluidMovement : Float32 := 0.02

/-- The acceleration in the air. -/
def airMovement : Float32 := 0.02

/-- The share that a sprint adds in the air. -/
def airSprintBonus : Float32 := 0.3

/-- The acceleration on the ground. -/
def baseMovement : Float := Number.widen (Number.narrow 0.1)

/-- The factor of a sprint on the ground. -/
def sprintFactor : Float := 1.3

/-- What a level of speed adds. -/
def speedStep : Float := 0.2

/-- What a level of slowness takes away. -/
def slownessStep : Float := 0.15

/-- The cube of the drag of common ground, by which acceleration is measured. -/
def groundReference : Float32 := 0.16277136

/-- Degrees to radians in the push of a jump. -/
def jumpRadians : Float32 := 0.017453292

/-- The push of a sprinted jump. -/
def jumpImpulse : Float32 := 0.2

/-- The factor of blocking. -/
def blockingFactor : Float32 := 0.2

/-- The factor of sneaking. -/
def sneakFactor : Float32 := 0.3

/-- The factor of every input. -/
def inputDamping : Float32 := 0.98

/-- The square of the least input that accelerates. -/
def leastInputSquare : Float32 := 0.0001

/-- The greatest velocity on a ladder. -/
def ladderLimit : Float := 0.15000000596046448

/-- The factor of a web. -/
def webFactor : Float := 0.25

/-- A queue without its front. -/
def advance (queue : List Float32) : List Float32 := queue.tail

/-- The default facing after the turn of this tick. -/
def facingAfter (p : Player) : Float32 :=
  match p.turns with
  | [] => p.facing
  | delta :: _ => p.facing + delta

/-- The facing of this tick: a queued facing, else the one given with the call,
else the default one, plus a queued turn and the offset of the call. -/
def yaw (p : Player) (c : Controls) : Float32 :=
  let base := match p.angles with
    | [] => c.rotation.getD p.facing
    | angle :: _ => angle
  let turned := match p.turns with
    | [] => base
    | delta :: _ => base + delta
  turned + c.facingOffset

/-- The slipperiness of the ground in this tick. -/
def slipOf (p : Player) (c : Controls) : Float32 :=
  match c.slip with
  | some slip => if (checkSlip slip).isOk then slip else p.groundSlip
  | none => p.groundSlip

/-- A velocity after the drag of this tick. The drag of fluids and ground lags one
tick behind, that of soul sand does not. -/
def dragged (p : Player) (c : Controls) (v : Float) : Float :=
  let v := if p.prevTerrain.water then v * Number.widen waterDrag
    else if p.prevTerrain.lava then v * Number.widen lavaDrag
    else v
  let v := if c.terrain.soulsand then v * soulsandFactor else v
  if p.prevTerrain.inFluid then v else v * Number.widen p.prevSlip

/-- The velocities that inertia leaves of those after the drag. -/
def stopped (p : Player) (vx vz : Float) : Float × Float :=
  match p.inertiaMode with
  | .perAxis => (if vx.abs < p.inertia then 0 else vx, if vz.abs < p.inertia then 0 else vz)
  | .combined => if vx * vx + vz * vz < p.inertia * p.inertia then (0, 0) else (vx, vz)

/-- The velocities before the keys act. A web stops the player. -/
def braked (p : Player) (c : Controls) : Float × Float :=
  if c.terrain.web then (0, 0) else stopped p (dragged p c p.vx) (dragged p c p.vz)

/-- The acceleration of a full input. -/
def movement (p : Player) (c : Controls) (slip : Float32) : Float32 :=
  if c.terrain.inFluid then fluidMovement
  else match c.phase with
    | .air | .slime =>
        if p.prevSprint then airMovement + airMovement * airSprintBonus else airMovement
    | .ground | .jump =>
        let fast := baseMovement * (1 + speedStep * Number.ofWhole p.speed.toNat)
        let rest := 1 - slownessStep * Number.ofWhole p.slowness.toNat
        let slow := fast * (if 0 < rest then rest else 0)
        let strength := if c.sprint then slow * sprintFactor else slow
        let drag := slip * slipFactor
        Number.narrow strength * (groundReference / (drag * drag * drag))

/-- The velocities after the push of a sprinted jump. -/
def pushed (c : Controls) (yaw : Float32) (v : Float × Float) : Float × Float :=
  if c.phase = .jump ∧ c.sprint then
    let sign : Float32 := if c.reverse then -1 else 1
    let angle := yaw * jumpRadians
    (v.1 - Number.widen (sine angle * jumpImpulse * sign),
      v.2 + Number.widen (cosine angle * jumpImpulse * sign))
  else v

/-- An input after blocking, sneaking and the common damping. -/
def damped (c : Controls) (pull : Float32) : Float32 :=
  let pull := if c.reverse then -pull else pull
  let pull := if c.terrain.block then pull * blockingFactor else pull
  let pull := if c.sneak then pull * sneakFactor else pull
  pull * inputDamping

/-- The velocities after the acceleration by the keys. Slanted input is brought
down to the length of straight input. -/
def accelerated (c : Controls) (yaw movement : Float32) (v : Float × Float) : Float × Float :=
  let ahead := damped c c.keys.ahead
  let aside := damped c c.keys.aside
  let square := aside * aside + ahead * ahead
  if leastInputSquare ≤ square then
    let root := squareRoot square
    let length := if root < 1 then 1 else root
    let scale := movement / length
    let aside := aside * scale
    let ahead := ahead * scale
    let angle := radians yaw
    let sin := sine angle
    let cos := cosine angle
    (v.1 + Number.widen (aside * cos - ahead * sin), v.2 + Number.widen (ahead * cos + aside * sin))
  else v

/-- A number brought between `-limit` and `limit`. -/
def clamp (limit v : Float) : Float :=
  if v < -limit then -limit else if v > limit then limit else v

/-- A velocity after the clamps of ladder and web. -/
def confined (c : Controls) (v : Float) : Float :=
  let v := if c.terrain.ladder then clamp ladderLimit v else v
  if c.terrain.web then v * webFactor else v

/-- The drag that this tick leaves to the next one. -/
def dragAfter (c : Controls) (slip : Float32) : Float32 :=
  match c.phase with
  | .ground => slip * slipFactor
  | _ => airDrag

/-- One tick in the plane. -/
def moveInPlane (p : Player) (c : Controls) : Player :=
  let facing := yaw p c
  let slip := slipOf p c
  let v := accelerated c facing (movement p c slip) (pushed c facing (braked p c))
  { p with
    x := p.x + p.vx
    z := p.z + p.vz
    vx := confined c v.1
    vz := confined c v.2
    facing := facingAfter p
    angles := advance p.angles
    turns := advance p.turns
    prevSlip := dragAfter c slip
    prevSprint := c.sprint
    prevSneak := c.sneak
    prevTerrain := c.terrain
    terrain := c.terrain
    phase := c.phase }

end Parkour.Player
