import Parkour.Number.Binary
/-!
# Remainders

The exact remainder of a division of binary numbers. It keeps the sign of the
dividend; the least non-negative remainder adds the divisor where that is below
zero.
-/

namespace Parkour.Number

/-- What is left of `a` after taking away whole multiples of `b`. Both are counted
in their common unit, so nothing is rounded. -/
def remainder (a b : Float) : Float :=
  match exact a, exact b with
  | .finite sign m e _, .finite _ n f _ =>
      let unit := min e f
      round sign ((m <<< (e - unit).toNat) % (n <<< (f - unit).toNat)) unit
  | .finite _ _ _ _, .infinity _ => a
  | .zero _, .finite _ _ _ _ => a
  | .zero _, .infinity _ => a
  | _, _ => ofExact .notANumber

/-- The remainder that is not below zero. -/
def leastRemainder (a b : Float) : Float :=
  let r := remainder a b
  if r < 0 then r + b.abs else r

end Parkour.Number
