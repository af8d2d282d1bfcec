/-!
# Binary numbers

The exact value behind a 64-bit or 32-bit number, and the number nearest to an
exact value. A half goes to the even neighbour; what is too large becomes an
infinity and what is too small becomes zero, each with its sign.
-/

namespace Parkour.Number

open Float.Model (Format UnpackedFloat)
open Float.Model.UnpackedFloat (Sign)

/-- What a binary number denotes: `± mantissa * 2 ^ exponent`, a signed zero or
infinity, or no number. -/
abbrev Exact := UnpackedFloat

/-- The exact value of a 64-bit number. -/
def exact (v : Float) : Exact := v.toModel.unpack

/-- The exact value of a 32-bit number. -/
def exact32 (v : Float32) : Exact := v.toModel.unpack

/-- The 64-bit number with this value. -/
def ofExact (u : Exact) : Float := .ofModel (.pack u)

/-- The 32-bit number with this value. -/
def ofExact32 (u : Exact) : Float32 := .ofModel (.pack u)

/-- `n / 2 ^ drop`, rounded to the nearest whole number and from a half to the
even one. -/
def halve (n drop : Nat) : Nat :=
  if n.log2 + 1 < drop then 0 else
  let quotient := n >>> drop
  let twice := 2 * (n - (quotient <<< drop))
  let unit := 1 <<< drop
  if unit < twice || (unit == twice && quotient % 2 == 1) then quotient + 1 else quotient

/-- The mantissa and the exponent in `format` that are nearest to
`mantissa * 2 ^ exponent`. -/
def fit (format : Format) (mantissa : Nat) (exponent : Int) : Nat × Int :=
  let target := format.targetExponent (mantissa.log2 + 1 + exponent)
  if target ≤ exponent then (mantissa <<< (exponent - target).toNat, target)
  else
    let rounded := halve mantissa (target - exponent).toNat
    if rounded.log2 = format.mantissaBits then (rounded / 2, target + 1)
    else (rounded, target)

/-- The value in `format` nearest to `± mantissa * 2 ^ exponent`. -/
def nearest (format : Format) (sign : Sign) (mantissa : Nat) (exponent : Int) : Exact :=
  let fitted := fit format mantissa exponent
  if h : fitted.1 = 0 then .zero sign
  else .finite sign fitted.1 fitted.2 (Nat.pos_of_ne_zero h)

/-- The 64-bit number nearest to `± mantissa * 2 ^ exponent`. -/
def round (sign : Sign) (mantissa : Nat) (exponent : Int) : Float :=
  ofExact (nearest .binary64 sign mantissa exponent)

/-- The 32-bit number nearest to `± mantissa * 2 ^ exponent`. -/
def round32 (sign : Sign) (mantissa : Nat) (exponent : Int) : Float32 :=
  ofExact32 (nearest .binary32 sign mantissa exponent)

/-- The 64-bit number of the same value. -/
def widen (v : Float32) : Float :=
  match exact32 v with
  | .finite sign mantissa exponent _ => round sign mantissa exponent
  | other => ofExact other

/-- The nearest 32-bit number. -/
def narrow (v : Float) : Float32 :=
  match exact v with
  | .finite sign mantissa exponent _ => round32 sign mantissa exponent
  | other => ofExact32 other

/-- The sign bit of a value below zero. -/
def signOf (negative : Bool) : Sign :=
  if negative then .negative else .positive

end Parkour.Number
