import Parkour.Number.Binary
/-!
# Whole numbers

The whole part of a binary number, the nearest whole number, and the way back.
A result outside its range becomes the nearer end of the range.
-/

namespace Parkour.Number

open Float.Model.UnpackedFloat (Sign)

/-- The whole part of `mantissa * 2 ^ exponent`. -/
def wholePart (mantissa : Nat) (exponent : Int) : Nat :=
  if 0 ≤ exponent then mantissa <<< exponent.toNat else mantissa >>> (-exponent).toNat

/-- `mantissa * 2 ^ exponent` has no part behind the point. -/
def isWholeValue (mantissa : Nat) (exponent : Int) : Bool :=
  0 ≤ exponent || mantissa % (1 <<< (-exponent).toNat) == 0

/-- `mantissa * 2 ^ exponent` rounded to a whole number, a half going up. -/
def wholeNearest (mantissa : Nat) (exponent : Int) : Nat :=
  wholePart (2 * mantissa + wholePart 1 (-exponent)) (exponent - 1)

/-- A range of whole numbers. -/
structure Span where
  /-- The least number of the range. -/
  low : Int
  /-- The greatest number of the range. -/
  high : Int

/-- Whole numbers of 64 bits. -/
def span64 : Span := ⟨-9223372036854775808, 9223372036854775807⟩

/-- Whole numbers of 32 bits. -/
def span32 : Span := ⟨-2147483648, 2147483647⟩

/-- The number of the range nearest to `n`. -/
def Span.clamp (span : Span) (n : Int) : Int :=
  max span.low (min span.high n)

/-- The whole number that `part` takes out of a finite value, within `span`. No
number becomes zero. -/
def toWhole (part : Nat → Int → Nat) (span : Span) : Exact → Int
  | .finite .positive mantissa exponent _ => span.clamp (part mantissa exponent)
  | .finite .negative mantissa exponent _ => span.clamp (-(part mantissa exponent : Int))
  | .infinity .positive => span.high
  | .infinity .negative => span.low
  | .zero _ => 0
  | .notANumber => 0

/-- The 64-bit whole number next to `v` on the side of zero. -/
def truncate (v : Float) : Int :=
  toWhole wholePart span64 (exact v)

/-- The 32-bit whole number next to `v` on the side of zero. -/
def truncate32 (v : Float32) : Int :=
  toWhole wholePart span32 (exact32 v)

/-- The 64-bit whole number nearest to `v`, a half going away from zero. -/
def nearestWhole (v : Float) : Int :=
  toWhole wholeNearest span64 (exact v)

/-- A finite number without a part behind the point. -/
def isWhole (v : Float) : Bool :=
  match exact v with
  | .finite _ mantissa exponent _ => isWholeValue mantissa exponent
  | .zero _ => true
  | _ => false

/-- The 64-bit number nearest to a whole number. -/
def ofWhole (n : Int) : Float :=
  round (signOf (n < 0)) n.natAbs 0

end Parkour.Number
