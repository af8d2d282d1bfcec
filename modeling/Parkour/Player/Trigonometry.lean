import Parkour.Number.Series
import Parkour.Number.Whole
/-!
# Table trigonometry

Sines are read from a table of 65536 steps of a full turn. Angles are 32-bit
numbers throughout: a wider intermediate would pick other table entries.
-/

namespace Parkour.Player

/-- Half a turn in radians. -/
def halfTurn : Float32 := 3.14159265358979323846264338327950288

/-- Table steps in a radian. -/
def stepsPerRadian : Float32 := 10430.378

/-- Table steps in a quarter turn. -/
def quarterSteps : Float32 := 16384

/-- The angle of the table entry `i`. -/
def tableAngle (i : Nat) : Float :=
  Number.ofWhole i * 3.14159265358979323846264338327950288 * 2 / 65536

/-- The table entry `i`: the 32-bit number nearest to the sine of its angle. -/
def tableSine (i : Nat) : Float32 :=
  match Number.exact (tableAngle i) with
  | .finite _ mantissa exponent _ =>
      let s := Number.sine 128 (Number.wholePart mantissa (exponent + 128))
      Number.round32 (Number.signOf (s < 0)) s.natAbs (-128)
  | _ => 0

/-- The table entry under a count of steps, whole turns left out. -/
def tableSlot (steps : Float32) : Nat :=
  (Number.truncate32 steps % 65536).toNat

/-- The sine of an angle in radians. -/
def sine (radians : Float32) : Float32 :=
  tableSine (tableSlot (radians * stepsPerRadian))

/-- The cosine of an angle in radians: the sine a quarter turn further. -/
def cosine (radians : Float32) : Float32 :=
  tableSine (tableSlot (radians * stepsPerRadian + quarterSteps))

/-- A facing in degrees as an angle in radians. -/
def radians (yaw : Float32) : Float32 :=
  yaw * halfTurn / 180

/-- The square root, rounded to 64 bits and then to 32. -/
def squareRoot (v : Float32) : Float32 :=
  Number.narrow (Number.widen v).sqrt

end Parkour.Player
