import Parkour.Number.Root
import Parkour.Number.Series
import Parkour.Number.Whole
/-!
# Powers

A power rounded once from its exact value. A power that is itself a binary
fraction is worked out exactly; any other lies strictly between two neighbours
and their midpoint, so bounds narrow enough decide how it rounds. How exact a power
is, floating-point arithmetic leaves open: another implementation may differ from
this one in the last bit.

Conventions at the edges: anything to the power zero is one, and so is one to any
power; a negative base needs a whole exponent.
-/

namespace Parkour.Number

open Float.Model.UnpackedFloat (Sign)

/-- A positive binary fraction `odd * 2 ^ power` with an odd first factor. -/
structure Dyadic where
  /-- The odd factor. -/
  odd : Nat
  /-- The power of two. -/
  power : Int

/-- Halves an even number up to `more` times. -/
def stripTwos (more : Nat) (n : Nat) (power : Int) : Dyadic :=
  match more with
  | 0 => ⟨n, power⟩
  | more + 1 => if n % 2 = 0 then stripTwos more (n / 2) (power + 1) else ⟨n, power⟩

/-- `mantissa * 2 ^ exponent` with the twos taken out of the mantissa. -/
def Dyadic.of (mantissa : Nat) (exponent : Int) : Dyadic :=
  stripTwos mantissa.log2 mantissa exponent

/-- The square root taken `times` times, if each of them is a binary fraction. -/
def Dyadic.root? (d : Dyadic) : Nat → Option Dyadic
  | 0 => some d
  | times + 1 =>
      let root := sqrt d.odd
      if root * root = d.odd && d.power % 2 = 0 then
        Dyadic.root? ⟨root, d.power / 2⟩ times
      else none

/-- The exact power, if it is a binary fraction of a size that matters. An odd
factor from three on has more than a hundred bits in its powers beyond the
sixty-fourth, so none of those is a number or half-way between two. -/
def exactPower? (base exponent : Dyadic) (inverse : Bool) : Option Dyadic :=
  match base.root? (-exponent.power).toNat with
  | none => none
  | some root =>
      let times := exponent.odd <<< exponent.power.toNat
      let power := root.power * times
      if root.odd = 1 then some ⟨1, if inverse then -power else power⟩
      else if inverse || 64 < times then none
      else some ⟨Nat.pow root.odd times, power⟩

/-- Bounds of the natural logarithm of `mantissa * 2 ^ exponent`. -/
def logOf (bits mantissa : Nat) (exponent : Int) : Bounds :=
  let size := mantissa.log2
  let fraction := log bits mantissa (1 <<< size)
  let two := log bits 2 1
  let turns := exponent + size
  if 0 ≤ turns then fraction + two.scale turns.toNat
  else fraction - two.scale (-turns).toNat

/-- Multiplies a count of units by `mantissa * 2 ^ exponent`, rounding down. -/
def timesExact (n : Int) (mantissa : Nat) (exponent : Int) : Int :=
  if 0 ≤ exponent then n * mantissa * (1 <<< exponent.toNat : Nat)
  else (n * mantissa) / (1 <<< (-exponent).toNat : Nat)

/-- The exponential of `units / 2 ^ bits` rounded from a lower bound. Beyond five
thousand doublings every result is an infinity or zero. -/
def expBelow (sign : Sign) (bits : Nat) (units : Int) : Float :=
  let two := log bits 2 1
  let turns := units / two.low
  let rest := units - turns * (if 0 ≤ turns then two.high else two.low)
  let value := if rest < 0 then (1 <<< bits : Nat) + rest else (exp bits rest.toNat).low
  round sign value.toNat (max (-5000) (min 5000 turns) - bits)

/-- The exponential of `units / 2 ^ bits` rounded from an upper bound. -/
def expAbove (sign : Sign) (bits : Nat) (units : Int) : Float :=
  let two := log bits 2 1
  let turns := units / two.low
  let rest := units - turns * (if 0 ≤ turns then two.low else two.high)
  round sign (exp bits rest.toNat).high.toNat (max (-5000) (min 5000 turns) - bits)

/-- The rounded power of a base by an exponent of moderate size, where the
logarithm has bits enough for the exponent to be multiplied in. -/
def powerRounded (sign : Sign) (m : Nat) (e : Int) (inverse : Bool) (n : Nat) (f : Int) : Float :=
  let attempt (bits : Nat) : Float × Float :=
    let wide := bits + (n.log2 + 1 + f).toNat + 16
    let l := logOf wide m e
    let product (v : Int) : Int := if inverse then -(timesExact v n f) else timesExact v n f
    let a := product l.low
    let b := product l.high
    (expBelow sign wide (min a b - 2), expAbove sign wide (max a b + 2))
  settle attempt 5 128

/-- The power of a positive finite base by a finite exponent that is not zero.
An exponent from `2 ^ 66` on leaves the range of numbers, as no base but one is
nearer to one than `2 ^ -54`. -/
def positivePower (sign : Sign) (m : Nat) (e : Int) (inverse : Bool) (n : Nat) (f : Int) : Float :=
  let base := Dyadic.of m e
  if base.odd = 1 && base.power = 0 then round sign 1 0
  else if 66 < n.log2 + f then
    if (0 ≤ m.log2 + e) != inverse then ofExact (.infinity sign) else ofExact (.zero sign)
  else
    match exactPower? base (Dyadic.of n f) inverse with
    | some d => round sign d.odd (max (-5000) (min 5000 d.power))
    | none => powerRounded sign m e inverse n f

/-- Whether a finite exponent is whole and odd. -/
def isOdd (n : Nat) (f : Int) : Bool :=
  isWholeValue n f && wholePart n f % 2 == 1

/-- `base ^ exponent`, rounded once. Not every implementation rounds so: the last bit
of a power is not specified. -/
def power (base exponent : Float) : Float :=
  let one := round .positive 1 0
  match exact base, exact exponent with
  | _, .zero _ => one
  | .notANumber, _ => ofExact .notANumber
  | b, .notANumber => if b == exact one then one else ofExact .notANumber
  | b, .infinity s =>
      if base.abs == one then one
      else
        let large := match b with
          | .zero _ => false
          | _ => base.abs > one
        if large == (s == .positive) then ofExact (.infinity .positive)
        else ofExact (.zero .positive)
  | .zero s, .finite t n f _ =>
      let sign := if isOdd n f then s else .positive
      if t == .negative then ofExact (.infinity sign) else ofExact (.zero sign)
  | .infinity s, .finite t n f _ =>
      let sign := if isOdd n f then s else .positive
      if t == .negative then ofExact (.zero sign) else ofExact (.infinity sign)
  | .finite .positive m e _, .finite t n f _ =>
      positivePower .positive m e (t == .negative) n f
  | .finite .negative m e _, .finite t n f _ =>
      if isWholeValue n f then
        positivePower (if isOdd n f then .negative else .positive) m e (t == .negative) n f
      else ofExact .notANumber

end Parkour.Number
