import Parkour.Number.Binary
/-!
# Roots

The whole square root, and the length of a vector rounded once from its exact
square. Another implementation of the length may differ from this one in the last
bit, which floating-point arithmetic leaves open.
-/

namespace Parkour.Number

/-- Extends a root bit by bit, from the bit `2 ^ shift` down. -/
def rootBits (n : Nat) : Nat → Nat → Nat
  | 0, root => root
  | shift + 1, root =>
      let wider := root + (1 <<< shift)
      rootBits n shift (if wider * wider ≤ n then wider else root)

/-- The greatest whole number whose square is at most `n`. -/
def sqrt (n : Nat) : Nat :=
  rootBits n (n.log2 / 2 + 1) 0

/-- The number nearest to the square root of `n * 2 ^ (2 * exponent)`. The root is
taken to 64 bits and more, and one more bit says that there is a rest. -/
def roundRoot (n : Nat) (exponent : Int) : Float :=
  let shift := 66 - n.log2 / 2
  let wide := n <<< (2 * shift)
  let root := sqrt wide
  let rest := if root * root = wide then 0 else 1
  round .positive (2 * root + rest) (exponent - shift - 1)

/-- The length of the vector `(x, y)`, rounded once. An infinite side makes it
infinite, whatever the other side is. Not every implementation rounds so: the last
bit of a length is not specified. -/
def hypot (x y : Float) : Float :=
  match exact x, exact y with
  | .infinity _, _ => ofExact (.infinity .positive)
  | _, .infinity _ => ofExact (.infinity .positive)
  | .notANumber, _ => ofExact .notANumber
  | _, .notANumber => ofExact .notANumber
  | .zero _, _ => y.abs
  | _, .zero _ => x.abs
  | .finite _ m e _, .finite _ n f _ =>
      let unit := min e f
      let a := m <<< (e - unit).toNat
      let b := n <<< (f - unit).toNat
      roundRoot (a * a + b * b) unit

end Parkour.Number
