import Parkour.Number.Binary
/-!
# Series in fixed point

Bounds of the elementary functions in units of `2 ^ -bits`. Every step rounds
down by less than a unit or two, so a margin that grows with the count of terms
covers all of them. A result is settled once both bounds round to one number;
until then the count of bits is doubled.
-/

namespace Parkour.Number

/-- A real number between two counts of units. -/
structure Bounds where
  /-- No more than the number. -/
  low : Int
  /-- No less than the number. -/
  high : Int

namespace Bounds

/-- From a sum of at most `bits` terms, each too low by less than eight units. -/
def ofSum (bits : Nat) (sum : Nat) : Bounds :=
  ⟨sum, sum + 8 * bits + 64⟩

instance : Add Bounds := ⟨fun a b => ⟨a.low + b.low, a.high + b.high⟩⟩

instance : Sub Bounds := ⟨fun a b => ⟨a.low - b.high, a.high - b.low⟩⟩

/-- The bounds of `n` times the number. -/
def scale (n : Nat) (a : Bounds) : Bounds := ⟨n * a.low, n * a.high⟩

end Bounds

/-- Adds up the terms of Euler's series of the arc tangent: each is `ratio` and
`2n / (2n + 1)` times the one before. -/
def arctanTerms (bits ratio : Nat) : Nat → Nat → Nat → Nat → Nat
  | 0, _, _, sum => sum
  | more + 1, n, term, sum =>
      if term = 0 then sum
      else arctanTerms bits ratio more (n + 1)
        (((term * ratio) >>> bits) * (2 * n + 2) / (2 * n + 3)) (sum + term)

/-- The arc tangent of `y / x` for `0 < y ≤ x`. -/
def arctan (bits y x : Nat) : Bounds :=
  let square := x * x + y * y
  Bounds.ofSum bits (arctanTerms bits (((y * y) <<< bits) / square) (bits + 8) 0
    (((x * y) <<< bits) / square) 0)

/-- Half a turn. -/
def pi (bits : Nat) : Bounds :=
  (arctan bits 1 1).scale 4

/-- Adds up the odd powers of `u` over their exponents, where `power` is the
power of exponent `2n + 1`. -/
def artanhTerms (bits square : Nat) : Nat → Nat → Nat → Nat → Nat
  | 0, _, _, sum => sum
  | more + 1, n, power, sum =>
      if power = 0 then sum
      else artanhTerms bits square more (n + 1) ((power * square) >>> bits)
        (sum + power / (2 * n + 1))

/-- The natural logarithm of `p / q` for `q ≤ p ≤ 2 q`: twice the inverse
hyperbolic tangent of `(p - q) / (p + q)`. -/
def log (bits p q : Nat) : Bounds :=
  let u := ((p - q) <<< bits) / (p + q)
  (Bounds.ofSum bits (artanhTerms bits ((u * u) >>> bits) (bits + 8) 0 u 0)).scale 2

/-- Adds up the powers of `r` over the factorials. -/
def expTerms (bits r : Nat) : Nat → Nat → Nat → Nat → Nat
  | 0, _, _, sum => sum
  | more + 1, n, term, sum =>
      if term = 0 then sum
      else expTerms bits r more (n + 1) (((term * r) >>> bits) / (n + 1)) (sum + term)

/-- The exponential of `r` units for `r` below one. -/
def exp (bits r : Nat) : Bounds :=
  Bounds.ofSum bits (expTerms bits r (bits + 8) 0 (1 <<< bits) 0)

/-- Adds up the odd powers of an angle over the factorials with changing sign,
where `square` is the square of the angle and `term` that of exponent `2n + 1`. -/
def sineTerms (bits square : Nat) : Nat → Nat → Nat → Int → Int
  | 0, _, _, sum => sum
  | more + 1, n, term, sum =>
      if term = 0 then sum
      else sineTerms bits square more (n + 1)
        (((term * square) >>> bits) / ((2 * n + 2) * (2 * n + 3)))
        (if n % 2 = 0 then sum + term else sum - term)

/-- The sine of an angle of `angle` units, to within `bits` units. -/
def sine (bits angle : Nat) : Int :=
  sineTerms bits ((angle * angle) >>> bits) (bits + 8) 0 angle 0

/-- Doubles the count of bits until both bounds round to the same number. -/
def settle (attempt : Nat → Float × Float) : Nat → Nat → Float
  | 0, bits => (attempt bits).1
  | more + 1, bits =>
      let (low, high) := attempt bits
      if low.toBits == high.toBits then low else settle attempt more (2 * bits)

end Parkour.Number
