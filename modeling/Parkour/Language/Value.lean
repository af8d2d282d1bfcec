import Parkour.Dictionary
import Parkour.Report.Amount
/-!
# Values

What variables hold and what arguments are bound to.
-/

namespace Parkour.Language

/-- A value of the language. -/
inductive Value where
  | none
  | int (n : Int)
  | float (v : Float)
  | bool (b : Bool)
  | text (content : String)

namespace Value

/-- The number that a value counts as. -/
def number? : Value → Option Float
  | .int n => some (Number.ofWhole n)
  | .float v => some v
  | .bool b => some (if b then 1 else 0)
  | .none => Option.none
  | .text _ => Option.none

/-- The content of a text. -/
def text? : Value → Option String
  | .text content => some content
  | _ => Option.none

/-- Whether a value is the absent one. -/
def isNone : Value → Bool
  | .none => true
  | _ => false

/-- The text of a value. Numbers show up to sixteen decimals. -/
def display : Value → String
  | .none => "None"
  | .int n => toString n
  | .float v => Report.brief v 16
  | .bool true => "true"
  | .bool false => "false"
  | .text content => content

end Value

/-- The variables that a sequence sees. -/
abbrev Scope := Dictionary Value

end Parkour.Language
