import Parkour.Language.Value
import Parkour.Text.Trim
/-!
# Parameters

What a function declares about its arguments, and how a signature is written:
`name(a: int, /, b: float = 1, *rest: text, c: bool = true)`.
-/

namespace Parkour.Language

/-- How an argument finds its parameter. -/
inductive ParameterKind where
  | positionalOnly
  | positionalOrKeyword
  /-- Takes all positional arguments that are left. -/
  | variadic
  | keywordOnly
deriving DecidableEq, Repr

/-- What the text of an argument is read as. -/
inductive ParameterType where
  | int
  | float
  | bool
  | text
  | sequence
deriving DecidableEq, Repr

namespace ParameterType

/-- The name of a type. -/
def name : ParameterType → String
  | int => "int"
  | float => "float"
  | bool => "bool"
  | text => "text"
  | sequence => "sequence"

/-- The type of a full or short name in any case, with blanks around it. -/
def ofName? (name : String) : Option ParameterType :=
  match Text.lower (Text.trim name) with
  | "int" => some int
  | "float" => some float
  | "bool" => some bool
  | "text" | "str" => some text
  | "sequence" | "seq" => some sequence
  | _ => none

end ParameterType

/-- A parameter of a function. -/
structure Parameter where
  /-- The name. -/
  name : String
  /-- How arguments find it. -/
  kind : ParameterKind
  /-- What arguments are read as. -/
  type : ParameterType
  /-- The value without an argument. -/
  fallback : Option Value := none

namespace Parameter

/-- Whether a positional argument can fill the parameter. -/
def isPositional (p : Parameter) : Bool :=
  p.kind = .positionalOnly || p.kind = .positionalOrKeyword

/-- A default in a signature. Numbers show up to six decimals. -/
def fallbackText : Value → String
  | .float v => Report.brief v 6
  | other => other.display

/-- A parameter in a signature. -/
def display (p : Parameter) : String :=
  (if p.kind = .variadic then "*" else "") ++ p.name ++ ": " ++ p.type.name ++
    match p.fallback with
    | some value => " = " ++ fallbackText value
    | none => ""

/-- The parameters of a signature with their marks: a slash after the last of a
row of positional ones, a star before the first keyword one if no variadic
parameter came before it. `starred` says that there was one. -/
def parts (starred : Bool) : List Parameter → List String
  | [] => []
  | p :: rest =>
      let star := p.kind = .keywordOnly && !starred
      let slash := p.kind = .positionalOnly &&
        !(rest.head?.map fun next => decide (next.kind = .positionalOnly)).getD false
      (if star then ["*"] else []) ++ p.display :: (if slash then ["/"] else []) ++
        parts (starred || star || p.kind = .variadic) rest

end Parameter

/-- A function's name with its parameters. -/
def formatSignature (name : String) (parameters : List Parameter) : String :=
  name ++ "(" ++ ", ".intercalate (Parameter.parts false parameters) ++ ")"

end Parkour.Language
