import Parkour.Number.Binary
/-!
# Decimal notation

A decimal number is a coefficient and a power of ten. It is written out in full,
without an exponent. A binary number is written with a fixed count of places by
rounding its exact value once, a half going to the even digit.
-/

namespace Parkour.Number

/-- `coefficient * 10 ^ exponent`. -/
structure Decimal where
  /-- The digits, read as one whole number. -/
  coefficient : Nat
  /-- The power of ten. -/
  exponent : Int
deriving DecidableEq, Repr

/-- The decimal digits of a whole number. -/
def digits (n : Nat) : List Char :=
  Nat.toDigits 10 n

/-- The digits with a point before the last `places` of them, and with zeros in
front where there are too few. No point is written for no places. -/
def pointed (places : Nat) (ds : List Char) : List Char :=
  let padded := List.replicate (places + 1 - ds.length) '0' ++ ds
  if places = 0 then padded
  else padded.take (padded.length - places) ++ '.' :: padded.drop (padded.length - places)

/-- A decimal number in full, with no more places than its digits need. -/
def Decimal.plain (d : Decimal) : List Char :=
  if 0 ≤ d.exponent then digits d.coefficient ++ List.replicate d.exponent.toNat '0'
  else pointed (-d.exponent).toNat (digits d.coefficient)

/-- `mantissa * 2 ^ exponent` in units of the last of `places` decimal places. -/
def inPlaces (places mantissa : Nat) (exponent : Int) : Nat :=
  if 0 ≤ exponent then (mantissa * Nat.pow 10 places) <<< exponent.toNat
  else halve (mantissa * Nat.pow 10 places) (-exponent).toNat

/-- The minus sign of a value below zero. -/
def signText : Float.Model.UnpackedFloat.Sign → List Char
  | .positive => []
  | .negative => ['-']

/-- The value with `places` decimal places. -/
def fixedChars (places : Nat) (v : Float) : List Char :=
  match exact v with
  | .finite sign mantissa exponent _ =>
      signText sign ++ pointed places (digits (inPlaces places mantissa exponent))
  | .zero sign => signText sign ++ pointed places ['0']
  | .infinity sign => signText sign ++ ['i', 'n', 'f']
  | .notANumber => ['N', 'a', 'N']

end Parkour.Number
