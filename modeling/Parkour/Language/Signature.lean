import Parkour.Language.Command
import Parkour.Language.Expression.Machine
import Parkour.Language.Parameter
import Parkour.Language.Sequence.Split
/-!
# Signatures

The head of a function definition, `name(a, b: int = 5, /, *rest, k = 1)`. A
parameter without a type is a number. Defaults are computed when the signature is
read, in the scope of that moment.
-/

namespace Parkour.Language

/-- A function's name and parameters. -/
structure Signature where
  /-- The name. -/
  name : String
  /-- The parameters in their order. -/
  parameters : List Parameter

/-- A function defined in the language. -/
structure UserFunction extends Signature where
  /-- The sequence that a call runs. -/
  body : String

namespace Signature

/-- The signature as it is written. -/
def display (s : Signature) : String :=
  formatSignature s.name s.parameters

/-- What has been read of a list of parameters. -/
structure Draft where
  /-- The parameters so far. -/
  parameters : List Parameter := []
  /-- A star has come, so the parameters to come are keyword ones. -/
  starred : Bool := false

/-- A slash makes the parameters before it positional ones. -/
def slashed (p : Parameter) : Parameter :=
  if p.kind = .positionalOrKeyword then { p with kind := .positionalOnly } else p

/-- The value of a default. -/
def fallbackValue (scope : Scope) (type : ParameterType) (text : String) :
    Except Fault Value :=
  if text = "None" then .ok .none
  else match type with
    | .int => (Expression.evaluate text scope).map fun v => .int (Number.nearestWhole v)
    | .float => (Expression.evaluate text scope).map .float
    | .bool => (Expression.evaluate text scope).map fun v => .bool (v != 0)
    | .text => .ok (.text text)
    | .sequence => .ok (.text text)

/-- The part of a declaration before the default, and the default. -/
def declarationParts (declaration : String) : String × Option String :=
  match keyword? declaration with
  | some (head, value) => (head, some value)
  | none =>
      match Text.cut? '=' declaration with
      | some (head, value) => (Text.trim head, some (Text.trim value))
      | none => (declaration, none)

/-- The name and the type of a parameter. -/
def headParts (head : String) : Except Fault (String × ParameterType) :=
  match Text.cut? ':' head with
  | none => .ok (Text.trim head, .float)
  | some (name, typeName) =>
      match ParameterType.ofName? typeName with
      | some type => .ok (Text.trim name, type)
      | none => .error (.unplaced (.unknownType (Text.trim typeName)))

/-- Reads one declaration `name: type = default`. -/
def parseParameter (scope : Scope) (variadic starred : Bool) (declaration : String) :
    Except Fault Parameter := do
  let (head, fallback?) := declarationParts declaration
  let (name, type) ← headParts head
  if !Text.isIdentifier name then throw (.unplaced (.parameterName name))
  if variadic && fallback?.isSome then throw (.unplaced (.variadicDefault name))
  let fallback ← fallback?.mapM (fallbackValue scope type)
  let kind : ParameterKind :=
    if variadic then .variadic else if starred then .keywordOnly else .positionalOrKeyword
  return { name, kind, type, fallback }

/-- The declaration behind a star, if there is one. -/
def withoutStar (piece : String) : Bool × String :=
  match piece.toList with
  | [] => (false, piece)
  | c :: cs => if c = '*' then (true, Text.trim (String.ofList cs)) else (false, piece)

/-- Adds a declared parameter to those of the function `name`. -/
def Draft.declare (d : Draft) (scope : Scope) (name piece : String) : Except Fault Draft := do
  let (variadic, declaration) := withoutStar piece
  let parameter ← parseParameter scope variadic d.starred declaration
  if d.parameters.any (·.name = parameter.name) then
    throw (.unplaced (.duplicateParameter parameter.name name))
  if variadic && d.starred then throw (.unplaced (.secondStar name))
  return { parameters := d.parameters ++ [parameter], starred := d.starred || variadic }

/-- Takes the next piece of a list of parameters: a mark or a declaration. -/
def Draft.take (d : Draft) (scope : Scope) (whole name piece : String) : Except Fault Draft :=
  match Text.trim piece with
  | "" => .error (.unplaced (.emptyParameter whole))
  | "/" => .ok { d with parameters := d.parameters.map slashed }
  | "*" => .ok { d with starred := true }
  | declaration => d.declare scope name declaration

/-- Reads the text between the parentheses. -/
def parseParameters (scope : Scope) (whole name inner : String) :
    Except Fault (List Parameter) := do
  if Text.isBlankText inner then return []
  let pieces ← Sequence.split .arguments [name] inner
  let draft ← pieces.foldlM (fun d piece => d.take scope whole name piece) ({} : Draft)
  return draft.parameters

/-- The name and the text between the parentheses, which may be absent. -/
def outline (text : String) : Except Fault (String × String) :=
  match Text.cut? '(' text with
  | none => .ok (text, "")
  | some (name, rest) =>
      if rest.toList.getLast? = some ')' then
        .ok (Text.trim name, String.ofList rest.toList.dropLast)
      else .error (.unplaced (.unclosedSignature text))

/-- Reads a signature. -/
def parse (scope : Scope) (text : String) : Except Fault Signature := do
  let whole := Text.trim text
  let (name, inner) ← outline whole
  if !Text.isIdentifier name then throw (.unplaced (.functionName name))
  return { name, parameters := ← parseParameters scope whole name inner }

end Signature

end Parkour.Language
