import Parkour.Number.Decimal
/-!
# Shortest decimals

The decimal with the fewest digits that reads back as a given binary number, and
the nearest such decimal where several have that few digits.

The reals that read back as `mantissa * 2 ^ exponent` form an interval, ends
included when the mantissa is even. For one digit, two digits and so on, only the
two neighbours of the value on that decimal grid have to be tried: if any point
of the grid lies in the interval, one of them does.
-/

namespace Parkour.Number

open Float.Model (Format)

/-- Which of two equally near decimals of the same length is taken. -/
inductive Tie where
  | up
  | even
deriving DecidableEq, Repr

/-- The reals that read back as one positive binary number, in common units:
`value / scale` is the number, `low / scale` and `high / scale` are the ends. -/
structure ReadBack where
  /-- The number. -/
  value : Nat
  /-- The lower end. -/
  low : Nat
  /-- The upper end. -/
  high : Nat
  /-- The units in one. -/
  scale : Nat
  /-- The ends belong to the interval. -/
  closed : Bool

/-- The interval of `mantissa * 2 ^ exponent`. Below a power of two the next
number is half as far away, unless the exponent is the least one. -/
def ReadBack.of (format : Format) (mantissa : Nat) (exponent : Int) : ReadBack :=
  let unit := exponent - 2
  let factor := 1 <<< unit.toNat
  let narrow := mantissa = 1 <<< format.mantissaBitsWithoutImplicit &&
    format.minExponent < exponent
  { value := 4 * mantissa * factor
    low := (4 * mantissa - if narrow then 1 else 2) * factor
    high := (4 * mantissa + 2) * factor
    scale := 1 <<< (-unit).toNat
    closed := mantissa % 2 = 0 }

/-- The count of digits before the point; for a number below one tenth, less
the zeros right behind the point. -/
def ReadBack.magnitude (r : ReadBack) : Int :=
  if r.scale ≤ r.value then (digits (r.value / r.scale)).length
  else 1 - (digits ((r.scale - 1) / r.value)).length

/-- A decimal of `count` digits in the interval, nearest to the value. -/
def ReadBack.atDigits? (r : ReadBack) (tie : Tie) (count : Nat) : Option Decimal :=
  let exponent := r.magnitude - count
  let up := Nat.pow 10 (-exponent).toNat
  let down := r.scale * Nat.pow 10 exponent.toNat
  let below := r.value * up / down
  let above := below + 1
  let holds (n : Nat) : Bool :=
    if r.closed then r.low * up ≤ n * down && n * down ≤ r.high * up
    else r.low * up < n * down && n * down < r.high * up
  let upper : Decimal :=
    if above = Nat.pow 10 count then ⟨1, r.magnitude⟩ else ⟨above, exponent⟩
  match holds below, holds above with
  | false, false => none
  | true, false => some ⟨below, exponent⟩
  | false, true => some upper
  | true, true =>
      match compare (2 * r.value * up) ((2 * below + 1) * down) with
      | .lt => some ⟨below, exponent⟩
      | .gt => some upper
      | .eq => some (if tie = .even && below % 2 = 0 then ⟨below, exponent⟩ else upper)

/-- Tries one more digit at a time, from `count` digits on. -/
def ReadBack.search (r : ReadBack) (tie : Tie) (count : Nat) : Nat → Decimal
  | 0 => ⟨r.value * Nat.pow 10 (count - r.magnitude).toNat /
      (r.scale * Nat.pow 10 (r.magnitude - count).toNat), r.magnitude - count⟩
  | more + 1 => (r.atDigits? tie count).getD (r.search tie (count + 1) more)

/-- The shortest decimal of `mantissa * 2 ^ exponent`. Seventeen digits tell any
two 64-bit numbers apart. -/
def shortest (format : Format) (tie : Tie) (mantissa : Nat) (exponent : Int) : Decimal :=
  (ReadBack.of format mantissa exponent).search tie 1 17

/-- The value in full with the fewest digits that read back. -/
def plainChars (format : Format) : Exact → List Char
  | .finite sign mantissa exponent _ =>
      signText sign ++ (shortest format .up mantissa exponent).plain
  | .zero sign => signText sign ++ ['0']
  | .infinity sign => signText sign ++ ['i', 'n', 'f']
  | .notANumber => ['N', 'a', 'N']

/-- The text of a 64-bit number: its shortest decimal, written in full. -/
def text (v : Float) : String :=
  String.ofList (plainChars .binary64 (exact v))

/-- The text of a 32-bit number: its shortest decimal, written in full. -/
def text32 (v : Float32) : String :=
  String.ofList (plainChars .binary32 (exact32 v))

end Parkour.Number
