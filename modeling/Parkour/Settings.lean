import Parkour.Json.Token
import Parkour.Language.Fault
/-!
# Settings

What can be set before the first run. Settings are read from a JSON object whose
fields are all optional, or from an array with the fields in their order. A field
that is unknown or given twice is refused, and so is a value of another kind.
-/

namespace Parkour

/-- The settings of an engine. -/
structure Settings where
  /-- The deepest nesting of calls that is allowed. -/
  maxDepth : Nat := 64
  /-- The decimals that readouts show. -/
  precision : Nat := 6
  /-- The slipperiness of the ground. -/
  groundSlip : Float32 := Player.defaultSlip
  /-- The speed below which a velocity is stopped. -/
  inertia : Float := 0.005
  /-- Each coordinate is stopped on its own. -/
  singleAxis : Bool := true

namespace Settings

open Json (Amount Token)

/-- How small velocities are stopped. -/
def inertiaMode (s : Settings) : Player.InertiaMode :=
  if s.singleAxis then .perAxis else .combined

/-- A new player with these settings. -/
def player (s : Settings) (axis : Player.Axis) : Except Language.Fault Player :=
  Language.ofRefusal do
    let p : Player := { axis }
    let p ← p.setPrecision (min s.precision Number.span64.high)
    let p ← p.setGroundSlip s.groundSlip
    p.setInertia s.inertia s.inertiaMode

/-- The fields of the written form. -/
inductive Field where
  | maxDepth
  | precision
  | groundSlip
  | inertia
  | singleAxis
deriving DecidableEq, Repr

/-- All fields in their order. -/
def Field.all : List Field := [.maxDepth, .precision, .groundSlip, .inertia, .singleAxis]

/-- The name of a field. -/
def Field.name : Field → String
  | .maxDepth => "max_depth"
  | .precision => "precision"
  | .groundSlip => "ground_slip"
  | .inertia => "inertia_threshold"
  | .singleAxis => "inertia_single_axis"

/-- Sets a field to a value of its kind. -/
def set? (s : Settings) : Field → Token → Option Settings
  | .maxDepth, .number (.natural n) => some { s with maxDepth := n }
  | .precision, .number (.natural n) => some { s with precision := n }
  | .groundSlip, .number amount => some { s with groundSlip := amount.toFloat32 }
  | .inertia, .number amount => some { s with inertia := amount.toFloat }
  | .singleAxis, .flag b => some { s with singleAxis := b }
  | _, _ => none

/-- Sets the field of a name, if it is one of `fields`, and gives the others. -/
def setNamed? (s : Settings) (fields : List Field) (name : String) (value : Token) :
    Option (Settings × List Field) := do
  let field ← fields.find? (·.name = name)
  let s ← s.set? field value
  return (s, fields.erase field)

/-- Reads the members of an object. `fields` have not been given yet. -/
def readMembers (s : Settings) (fields : List Field) : List Token → Option Settings
  | .text name :: .mark ':' :: value :: .mark c :: rest => do
      let (s, fields) ← s.setNamed? fields name value
      if c = ',' then readMembers s fields rest
      else if c = '\x7d' && rest.isEmpty then some s
      else none
  | _ => none

/-- Reads the items of an array, one for each field. -/
def readItems (s : Settings) : List Field → List Token → Option Settings
  | field :: fields, value :: .mark c :: rest => do
      let s ← s.set? field value
      if c = ',' then readItems s fields rest
      else if c = ']' && rest.isEmpty then some s
      else none
  | _, _ => none

/-- Reads settings from the tokens of their written form. -/
def ofTokens? : List Token → Option Settings
  | [.mark '\x7b', .mark '\x7d'] => some {}
  | [.mark '[', .mark ']'] => some {}
  | .mark '\x7b' :: rest => readMembers {} Field.all rest
  | .mark '[' :: rest => readItems {} Field.all rest
  | _ => none

/-- Reads settings from their written form. -/
def parse? (text : String) : Option Settings :=
  (Json.tokens text).bind ofTokens?

end Settings

end Parkour
