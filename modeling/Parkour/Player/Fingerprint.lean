import Parkour.Digest.Blake3
import Parkour.Player.Basic
/-!
# Fingerprints

A digest over the bits of every field of a player. The fields are written in a
fixed order and, the two queues apart, with fixed widths, lowest byte first. An
absent height is written as a pattern of ones.
-/

namespace Parkour.Player

/-- The lowest `count` bytes of a number, the lowest first. -/
def littleEndian : Nat → Nat → List UInt8
  | 0, _ => []
  | count + 1, n => n.toUInt8 :: littleEndian count (n / 256)

/-- The bytes of a 64-bit number. -/
def floatBytes (v : Float) : List UInt8 := littleEndian 8 v.toBits.toNat

/-- The bytes of a 32-bit number. -/
def float32Bytes (v : Float32) : List UInt8 := littleEndian 4 v.toBits.toNat

/-- The bytes of a height that may be absent. -/
def heightBytes : Option Float → List UInt8
  | some v => floatBytes v
  | none => littleEndian 8 0xFFFFFFFFFFFFFFFF

/-- The byte of a truth value. -/
def flagByte (flag : Bool) : UInt8 := if flag then 1 else 0

/-- The byte of a model. -/
def axisByte : Axis → UInt8
  | .horizontal => 0
  | .vertical => 1

/-- The byte of a phase. -/
def phaseByte : Phase → UInt8
  | .ground => 0
  | .jump => 1
  | .air => 2
  | .slime => 3

/-- The byte of an inertia mode. -/
def inertiaModeByte : InertiaMode → UInt8
  | .perAxis => 0
  | .combined => 1

/-- All fields of a player as bytes. -/
def bytes (p : Player) : List UInt8 :=
  axisByte p.axis ::
    [p.x, p.z, p.vx, p.vz, p.y, p.vy, p.inertia].flatMap floatBytes ++
    [p.facing, p.groundSlip, p.prevSlip].flatMap float32Bytes ++
    [p.terrain.mask, p.prevTerrain.mask, flagByte p.prevSprint, flagByte p.prevSneak,
      phaseByte p.phase, inertiaModeByte p.inertiaMode] ++
    [p.speed, p.slowness, p.jumpBoost].flatMap (fun level => littleEndian 2 level.toNat) ++
    littleEndian 8 p.precision.toNat ++
    [p.ceiling, p.pendingSnap].flatMap heightBytes ++
    (p.angles ++ p.turns).flatMap float32Bytes ++
    littleEndian 8 p.angles.length ++
    littleEndian 8 p.ticks.toNat

/-- The digest of all fields in hexadecimal. -/
def fingerprint (p : Player) : String :=
  Digest.blake3 p.bytes

end Parkour.Player
