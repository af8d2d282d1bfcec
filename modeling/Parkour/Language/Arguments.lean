import Parkour.Language.Command
import Parkour.Language.Expression.Machine
import Parkour.Language.Parameter
import Parkour.Language.Sequence.Split
/-!
# Arguments

How the arguments of a call find the parameters of what is called. Positional
arguments fill the positional parameters in order and then the variadic one;
keyword arguments fill the parameters of their names. What is left empty takes its
default. A parameter named `duration` holds a count of ticks, one by default, and
one named `label` is by default the name of the function.
-/

namespace Parkour.Language

/-- The values of the parameters of one call. -/
structure Arguments where
  /-- The filled parameters with their values, in the order of the signature. -/
  values : List (String × Value) := []
  /-- What the variadic parameter took. -/
  rest : List Value := []

namespace Arguments

/-- The value of a parameter. -/
def get? (arguments : Arguments) (name : String) : Option Value :=
  arguments.values.lookup name

/-- The number of a parameter. -/
def number? (arguments : Arguments) (name : String) : Option Float :=
  (arguments.get? name).bind Value.number?

/-- The text of a parameter. -/
def text? (arguments : Arguments) (name : String) : Option String :=
  (arguments.get? name).bind Value.text?

/-- The truth value of a parameter. Numbers other than zero are true. -/
def flag? (arguments : Arguments) (name : String) : Option Bool :=
  match arguments.get? name with
  | some (.bool b) => some b
  | some value => value.number?.map fun v => v != 0
  | none => none

/-- A value that has to be there. -/
def demand {α : Type} (name : String) (wanted : Demand) : Option α → Except Fault α
  | some a => .ok a
  | none => .error (.misuse (.demand name wanted))

/-- The number of a parameter that has to have one. -/
def requireNumber (arguments : Arguments) (name : String) : Except Fault Float :=
  demand name .number (arguments.number? name)

/-- The integer of a parameter that has to have one. -/
def requireInteger (arguments : Arguments) (name : String) : Except Fault Int :=
  match arguments.get? name with
  | some (.int n) => .ok n
  | _ => demand name .integer none

/-- The text of a parameter that has to have one. -/
def requireText (arguments : Arguments) (name : String) : Except Fault String :=
  demand name .text (arguments.text? name)

end Arguments

namespace Binding

/-- The name of the parameter that counts ticks. -/
def durationName : String := "duration"

/-- The name of the parameter that labels readouts. -/
def labelName : String := "label"

/-- Reads an integer. A count of ticks is not negative. -/
def coerceInteger (function : String) (p : Parameter) (text : String) (scope : Scope) :
    Except Fault Value := do
  let v ← Expression.evaluate text scope
  if !Number.isWhole v then throw (.misuse (.notInteger function p.name text))
  if p.name = durationName && v < 0 then throw (.badValue (.negativeDuration function v))
  return .int (Number.truncate v)

/-- Reads a truth value: a word for it, or a number other than zero. -/
def coerceFlag (text : String) (scope : Scope) : Except Fault Value :=
  match Text.lower text with
  | "true" | "yes" | "on" => .ok (.bool true)
  | "false" | "no" | "off" => .ok (.bool false)
  | _ => (Expression.evaluate text scope).map fun v => .bool (v != 0)

/-- What the text of an argument is read as. -/
def typeOf (p : Parameter) : ParameterType :=
  if p.name = durationName then .int else p.type

/-- The value of an argument for a parameter. -/
def coerce (function : String) (p : Parameter) (text : String) (scope : Scope) :
    Except Fault Value :=
  if text = "None" && p.fallback.any Value.isNone then .ok .none
  else match typeOf p with
    | .int => coerceInteger function p text scope
    | .float => (Expression.evaluate text scope).map .float
    | .bool => coerceFlag text scope
    | .text => .ok (.text text)
    | .sequence => .ok (.text text)

/-- The arguments of a call as texts. -/
structure Given where
  /-- The positional ones in order. -/
  positionals : List String := []
  /-- The ones with names in order. -/
  keywords : List (String × String) := []

/-- Takes the next piece of a list of arguments. -/
def Given.take (given : Given) (function piece : String) : Except Fault Given :=
  let piece := Text.trim piece
  if piece.isEmpty then .error (.unplaced (.emptyArgument function))
  else match keyword? piece with
    | some (name, value) =>
        if given.keywords.any (·.1 = name) then
          .error (.misuse (.keywordRepeated function name))
        else .ok { given with keywords := given.keywords ++ [(name, value)] }
    | none =>
        if given.keywords.isEmpty then
          .ok { given with positionals := given.positionals ++ [piece] }
        else .error (.misuse (.positionalAfterKeyword function))

/-- Cuts the text between the parentheses into arguments. -/
def readGiven (function : String) (raw : Option String) (stack : List String) :
    Except Fault Given := do
  match raw with
  | none => return {}
  | some text =>
      if Text.isBlankText text then return {}
      let pieces ← Sequence.split .arguments stack text
      pieces.foldlM (fun given piece => given.take function piece) {}

/-- A parameter and the value that it has found. -/
structure Slot where
  /-- The parameter. -/
  parameter : Parameter
  /-- The value. -/
  value : Option Value := none

/-- Fills the positional parameters in order. What is left over comes back with the
slots. -/
def fillPositionals (function : String) (scope : Scope) :
    List Parameter → List String → Except Fault (List Slot × List String)
  | [], texts => .ok ([], texts)
  | p :: ps, [] => .ok ((p :: ps).map fun q => { parameter := q }, [])
  | p :: ps, text :: texts => do
      if p.isPositional then
        let value ← coerce function p text scope
        let (slots, left) ← fillPositionals function scope ps texts
        return ({ parameter := p, value := some value } :: slots, left)
      else
        let (slots, left) ← fillPositionals function scope ps (text :: texts)
        return ({ parameter := p } :: slots, left)

/-- Gives the positional arguments that are left to the variadic parameter. -/
def fillRest (function : String) (scope : Scope) (parameters : List Parameter)
    (given : Nat) (left : List String) : Except Fault (List Value) :=
  if left.isEmpty then .ok []
  else match parameters.find? (·.kind = .variadic) with
    | some p => left.mapM fun text => coerce function p text scope
    | none => .error (.misuse (.tooMany function (parameters.countP (·.isPositional)) given))

/-- Fills the parameter of a keyword argument. -/
def fillKeyword (function : String) (scope : Scope) (name text : String) :
    List Slot → Except Fault (List Slot)
  | [] => .error (.misuse (.unexpectedKeyword function name))
  | slot :: slots =>
      if slot.parameter.name = name && slot.parameter.kind ≠ .variadic then
        if slot.parameter.kind = .positionalOnly then
          .error (.misuse (.positionalOnly function name))
        else if slot.value.isSome then .error (.misuse (.multipleValues function name))
        else (coerce function slot.parameter text scope).map fun value =>
          { slot with value := some value } :: slots
      else (fillKeyword function scope name text slots).map (slot :: ·)

/-- The value of a parameter without an argument. -/
def fallback? (function : String) (p : Parameter) : Option Value :=
  match p.fallback with
  | some value => some value
  | none =>
      if p.name = durationName then some (.int 1)
      else if p.name = labelName then some (.text function)
      else none

/-- Fills an empty slot with its default. The variadic parameter has no value of its
own. -/
def Slot.complete (function : String) (slot : Slot) : Slot :=
  if slot.value.isSome || slot.parameter.kind = .variadic then slot
  else { slot with value := fallback? function slot.parameter }

/-- An empty slot that should have a value. -/
def Slot.isMissing (slot : Slot) : Bool :=
  slot.value.isNone && slot.parameter.kind ≠ .variadic

/-- Refuses slots without a value, those of positional parameters first. -/
def checkMissing (function : String) (slots : List Slot) : Except Fault Unit :=
  let missing := (slots.filter Slot.isMissing).map Slot.parameter
  let keywords := missing.filter fun p => p.kind = .keywordOnly
  let positionals := missing.filter fun p => p.kind ≠ .keywordOnly
  if !positionals.isEmpty then
    .error (.misuse (.missingPositional function (positionals.map Parameter.name)))
  else if !keywords.isEmpty then
    .error (.misuse (.missingKeyword function (keywords.map Parameter.name)))
  else .ok ()

/-- Binds the text between the parentheses of a call. -/
def bind (function : String) (parameters : List Parameter) (raw : Option String)
    (scope : Scope) (stack : List String) : Except Fault Arguments := do
  let given ← readGiven function raw stack
  let (slots, left) ← fillPositionals function scope parameters given.positionals
  let rest ← fillRest function scope parameters given.positionals.length left
  let slots ← given.keywords.foldlM
    (fun slots pair => fillKeyword function scope pair.1 pair.2 slots) slots
  let slots := slots.map (Slot.complete function)
  checkMissing function slots
  return {
    values := slots.filterMap fun slot => slot.value.map (slot.parameter.name, ·)
    rest }

end Binding

end Parkour.Language
