import Parkour.Number.Series
/-!
# Directions

The angle of a vector, rounded once from bounds that are made as narrow as it
takes. On the axes the angle is zero or a whole count of quarter turns. Another
implementation may differ from this one in the last bit, which floating-point
arithmetic leaves open.
-/

namespace Parkour.Number

open Float.Model.UnpackedFloat (Sign)

/-- The first rounding tried for a positive number between two bounds. -/
def roundBounds (sign : Sign) (bits : Nat) (b : Bounds) : Float × Float :=
  (round sign b.low.toNat (-bits), round sign b.high.toNat (-bits))

/-- `quarters` quarter turns. -/
def quarterTurns (sign : Sign) (quarters : Nat) : Float :=
  let attempt (bits : Nat) : Float × Float :=
    roundBounds sign (bits + 1) ((pi bits).scale quarters)
  settle attempt 5 128

/-- The angle of a vector of length `x` along the first axis, backwards if
`back`, and length `y` along the second, neither of them zero. -/
def angleOf (sign : Sign) (back : Bool) (x y : Nat) : Float :=
  let attempt (bits : Nat) : Float × Float :=
    if y ≤ x then
      if back then roundBounds sign bits (pi bits - arctan bits y x)
      else
        let wide := bits + (x / y).log2
        roundBounds sign wide (arctan wide y x)
    else
      let quarter := (arctan bits 1 1).scale 2
      roundBounds sign bits (if back then quarter + arctan bits x y else quarter - arctan bits x y)
  settle attempt 6 128

/-- The angle from the first axis to the vector `(x, y)`, with the sign of `y`, rounded
once. Not every implementation rounds so: the last bit of an angle is not specified. -/
def angle (y x : Float) : Float :=
  match exact y, exact x with
  | .notANumber, _ => ofExact .notANumber
  | _, .notANumber => ofExact .notANumber
  | .infinity s, .infinity .positive =>
      let attempt (bits : Nat) : Float × Float := roundBounds s bits (arctan bits 1 1)
      settle attempt 5 128
  | .infinity s, .infinity .negative =>
      let attempt (bits : Nat) : Float × Float := roundBounds s bits ((arctan bits 1 1).scale 3)
      settle attempt 5 128
  | .infinity s, _ => quarterTurns s 1
  | .zero s, .zero .positive | .zero s, .infinity .positive | .zero s, .finite .positive _ _ _ =>
      ofExact (.zero s)
  | .zero s, .zero .negative | .zero s, .infinity .negative | .zero s, .finite .negative _ _ _ =>
      quarterTurns s 2
  | .finite s _ _ _, .zero _ => quarterTurns s 1
  | .finite s _ _ _, .infinity .positive => ofExact (.zero s)
  | .finite s _ _ _, .infinity .negative => quarterTurns s 2
  | .finite s n f _, .finite t m e _ =>
      let unit := min e f
      angleOf s (t == .negative) (m <<< (e - unit).toNat) (n <<< (f - unit).toNat)

/-- An angle in degrees: one product with the rounded count of degrees. -/
def degrees (radians : Float) : Float :=
  radians * (180.0 / 3.14159265358979323846264338327950288)

end Parkour.Number
