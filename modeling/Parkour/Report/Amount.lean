import Parkour.Number.Decimal
import Parkour.Number.Whole
/-!
# Amounts

How readouts write numbers: with a fixed count of decimals, or as briefly as that
count allows. Neither shows a negative zero.
-/

namespace Parkour.Report

/-- Nothing but zeros and a point. -/
def isZeroText (cs : List Char) : Bool :=
  cs.all fun c => c == '0' || c == '.'

/-- The digits without a sign that stands before zero. -/
def withoutZeroSign : List Char → List Char
  | '-' :: cs => if isZeroText cs then cs else '-' :: cs
  | cs => cs

/-- A number with `precision` decimals. -/
def fixed (v : Float) (precision : Nat) : String :=
  String.ofList (withoutZeroSign (Number.fixedChars precision v))

/-- The digits without the zeros at the end, and without a point that is then
last. Zero keeps no sign. -/
def withoutTail (cs : List Char) : List Char :=
  if cs.contains '.' then
    let trimmed := ((cs.reverse.dropWhile (· == '0')).dropWhile (· == '.')).reverse
    if trimmed = ['-', '0'] then ['0'] else trimmed
  else cs

/-- A number with up to `precision` decimals. Whole numbers of moderate size are
written as such. -/
def brief (v : Float) (precision : Nat) : String :=
  if Number.isWhole v && v.abs < 1000000000000000 then
    toString (Number.truncate v)
  else String.ofList (withoutTail (fixed v precision).toList)

end Parkour.Report
