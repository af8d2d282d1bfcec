import Parkour.Text.Character
/-!
# Numerals

Reading decimal digits as a 64-bit number. The number is the one nearest to the
decimal value, whatever the count of digits; what is too large is infinite.
-/

namespace Parkour.Number

/-- The digits read as one whole number, after what has been read already. -/
def readDigits (before : Nat) (ds : List Char) : Nat :=
  ds.foldl (fun n c => 10 * n + (c.toNat - '0'.toNat)) before

/-- The number nearest to `coefficient * 10 ^ exponent`. -/
def ofDecimal (coefficient : Nat) (exponent : Int) : Float :=
  .ofScientific coefficient (exponent < 0) exponent.natAbs

/-- The parts of a numeral: digits before and behind the point and a power of ten. -/
structure Numeral where
  /-- The digits before the point. -/
  whole : List Char
  /-- The digits behind the point. -/
  fraction : List Char := []
  /-- The power of ten behind the letter `e`. -/
  power : Int := 0
deriving DecidableEq, Repr

/-- The number that a numeral stands for. -/
def Numeral.value (n : Numeral) : Float :=
  ofDecimal (readDigits (readDigits 0 n.whole) n.fraction) (n.power - n.fraction.length)

end Parkour.Number
