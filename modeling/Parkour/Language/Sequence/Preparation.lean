import Parkour.Player.Basic
/-!
# Preparation of sequences

What is done to a sequence before it is cut into calls: comments go, and a bar
outside brackets becomes the reset of the position. A backslash protects the
character after it from either.
-/

namespace Parkour.Language.Sequence

open Player (Axis)

/-- Leaves out comments, which stand between two hashes or run to the end. `inside`
says that a comment is open and `escaped` that a backslash came last. -/
def stripFrom (inside escaped : Bool) : List Char → List Char
  | [] => []
  | c :: cs =>
      let kept := if inside then id else (c :: ·)
      if escaped then kept (stripFrom inside false cs)
      else if c = '\\' then kept (stripFrom inside true cs)
      else if c = '#' then stripFrom (!inside) false cs
      else kept (stripFrom inside false cs)

/-- The text without its comments. -/
def strip (text : String) : String :=
  String.ofList (stripFrom false false text.toList)

/-- The calls that a bar stands for. -/
def reset : Axis → List Char
  | .horizontal => " x(0) z(0) ".toList
  | .vertical => " y(0) ".toList

/-- Writes out the bars outside brackets of either kind. -/
def expandFrom (axis : Axis) (depth : Nat) (escaped : Bool) : List Char → List Char
  | [] => []
  | c :: cs =>
      if escaped then c :: expandFrom axis depth false cs
      else if c = '\\' then c :: expandFrom axis depth true cs
      else if c = '(' ∨ c = '[' then c :: expandFrom axis (depth + 1) false cs
      else if c = ')' ∨ c = ']' then c :: expandFrom axis (depth - 1) false cs
      else if c = '|' ∧ depth = 0 then reset axis ++ expandFrom axis depth false cs
      else c :: expandFrom axis depth false cs

/-- The text with its bars written out. -/
def expand (axis : Axis) (text : String) : String :=
  String.ofList (expandFrom axis 0 false text.toList)

/-- The text as it is cut into calls. -/
def prepare (axis : Axis) (text : String) : String :=
  expand axis (strip text)

end Parkour.Language.Sequence
