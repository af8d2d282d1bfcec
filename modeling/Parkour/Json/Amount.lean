import Parkour.Number.Numeral
import Parkour.Number.Shortest
import Parkour.Number.Whole
/-!
# JSON numbers

Reading keeps as many digits as fit into 64 bits and scales them by a power of ten
afterwards, so a number of many digits may come out beside the nearest one. Writing
takes the shortest digits that read back, of two equally near ones the even one.
-/

namespace Parkour.Json

/-- A number as it was written. -/
inductive Amount where
  /-- A whole number without a sign. -/
  | natural (n : Nat)
  /-- A whole number below zero. -/
  | negative (n : Nat)
  /-- Any other number, and the whole ones that do not fit into 64 bits. -/
  | real (v : Float)

/-- The greatest whole number of 64 bits without a sign. -/
def maxNatural : Nat := 18446744073709551615

/-- The greatest distance of a 64-bit whole number below zero. -/
def maxNegative : Nat := 9223372036854775808

/-- The leading digits of a number and the power of ten that scales them. -/
structure Leading where
  /-- The digits, read as one whole number. -/
  coefficient : Nat
  /-- The power of ten. -/
  power : Int
  /-- No further digit fits. -/
  full : Bool
deriving DecidableEq, Repr

/-- Takes a digit. `kept` and `dropped` are the changes of the power for a digit
that fits and for one that does not. -/
def Leading.take (kept dropped : Int) (l : Leading) (c : Char) : Leading :=
  let next := Number.readDigits l.coefficient [c]
  if l.full || maxNatural < next then { l with power := l.power + dropped, full := true }
  else { l with coefficient := next, power := l.power + kept }

/-- The digits before the point. -/
def Leading.ofWhole (ds : List Char) : Leading :=
  ds.foldl (Leading.take 0 1) ⟨0, 0, false⟩

/-- Takes the digits behind the point. -/
def Leading.addFraction (l : Leading) (ds : List Char) : Leading :=
  ds.foldl (Leading.take (-1) 0) { l with full := false }

/-- The greatest power of ten that is a 64-bit number. -/
def maxPower : Nat := 308

/-- The number `10 ^ power`. -/
def tenTo (power : Nat) : Float :=
  Number.ofDecimal 1 power

/-- Divides by a power of ten, in steps of at most `maxPower`. Two full steps leave
nothing of any coefficient. -/
def scaleDown (v : Float) (power : Nat) : Float :=
  if power ≤ maxPower then v / tenTo power
  else if power ≤ 2 * maxPower then v / tenTo maxPower / tenTo (power - maxPower)
  else 0

/-- `coefficient * 10 ^ power`, if it is not too large. -/
def scale? (coefficient : Nat) (power : Int) : Option Float :=
  let v := Number.ofWhole coefficient
  if power < 0 then some (scaleDown v power.natAbs)
  else if power ≤ maxPower then
    let scaled := v * tenTo power.toNat
    if scaled.isInf then none else some scaled
  else if coefficient = 0 then some v
  else none

/-- The number of a numeral without a point and a power. -/
def ofWholeDigits? (negative : Bool) (ds : List Char) : Option Amount :=
  let n := Number.readDigits 0 ds
  if !negative && n ≤ maxNatural then some (.natural n)
  else if negative && 0 < n && n ≤ maxNegative then some (.negative n)
  else
    let l := Leading.ofWhole ds
    (scale? l.coefficient l.power).map fun v => .real (if negative then -v else v)

/-- The number of a numeral with a point or a power. -/
def ofNumeral? (negative : Bool) (numeral : Number.Numeral) : Option Amount :=
  let l := (Leading.ofWhole numeral.whole).addFraction numeral.fraction
  (scale? l.coefficient (l.power + numeral.power)).map fun v =>
    .real (if negative then -v else v)

/-- The 64-bit number nearest to an amount. -/
def Amount.toFloat : Amount → Float
  | .natural n => Number.ofWhole n
  | .negative n => -Number.ofWhole n
  | .real v => v

/-- The 32-bit number nearest to an amount. -/
def Amount.toFloat32 : Amount → Float32
  | .natural n => Number.round32 .positive n 0
  | .negative n => Number.round32 .negative n 0
  | .real v => Number.narrow v

/-- The digits of a decimal with one digit before the point and its power of ten. -/
def scientific (ds : List Char) (power : Int) : List Char :=
  let pointed :=
    match ds with
    | d :: more@(_ :: _) => d :: '.' :: more
    | _ => ds
  pointed ++ 'e' :: (if power < 0 then '-' else '+') :: Number.digits power.natAbs

/-- A shortest decimal. It is written in full if its first digit stands for at
least `10 ^ -5` and for less than `10 ^ 16`; a whole number then gets a zero behind
the point. -/
def decimalChars (d : Number.Decimal) : List Char :=
  let ds := Number.digits d.coefficient
  let power := d.exponent + ds.length - 1
  if power < -5 || 15 < power then scientific ds power
  else if 0 ≤ d.exponent then d.plain ++ ['.', '0']
  else d.plain

/-- The text of a number, if it is finite. -/
def numberChars? (v : Float) : Option (List Char) :=
  match Number.exact v with
  | .finite sign mantissa exponent _ =>
      some (Number.signText sign ++
        decimalChars (Number.shortest .binary64 .even mantissa exponent))
  | .zero sign => some (Number.signText sign ++ ['0', '.', '0'])
  | _ => none

end Parkour.Json
