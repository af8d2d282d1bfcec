import Parkour.Language.Value
import Parkour.Player.Basic
/-!
# Faults

Everything that can go wrong in a run, by its cause. The wording is made here
alone, and so is the window of text that shows where a malformed text fails.
-/

namespace Parkour.Language

open Player (Keys KeysFault Refusal Terrain)

/-- Why an expression has no value. -/
inductive ExpressionFault where
  /-- Characters that belong to no expression. -/
  | unexpected (run : String)
  /-- A point without digits. -/
  | numeral (text : String)
  /-- Two operands next to each other. -/
  | juxtaposed (before after : String)
  | operatorMissing
  | operandMissing
  | unbalancedOpening
  | unbalancedClosing
  | divisionByZero
  /-- An operation without a numeric result. -/
  | domain
  /-- A name that is no number in the scope. -/
  | undefined (name : String)
deriving DecidableEq, Repr

/-- The wording of a failed expression. -/
def ExpressionFault.describe : ExpressionFault → String
  | .unexpected run => s!"unexpected '{run}'"
  | .numeral text => s!"bad number '{text}'"
  | .juxtaposed before after => s!"missing operator between '{before}' and '{after}'"
  | .operatorMissing => "missing operator"
  | .operandMissing => "missing operand"
  | .unbalancedOpening => "unbalanced '('"
  | .unbalancedClosing => "unbalanced ')'"
  | .divisionByZero => "division by zero"
  | .domain => "math domain error"
  | .undefined name => s!"name '{name}' is not defined"

/-- A text that has not the form it should have. -/
inductive Malformed where
  | closesOther (close opened : Char) (openedAt : Nat)
  | unmatched (bracket : Char)
  | unseparated (close : Char)
  | notCommand (token : String)
  | leftover (rest : String)
  | expression (text : String) (fault : ExpressionFault)
  | emptyArgument (function : String)
  | unclosedSignature (text : String)
  | functionName (name : String)
  | emptyParameter (signature : String)
  | duplicateParameter (name function : String)
  | secondStar (function : String)
  | unknownType (text : String)
  | parameterName (name : String)
  | variadicDefault (name : String)
  | unclosedBrace (text : String)

/-- The wording of a malformed text. -/
def Malformed.message : Malformed → String
  | .closesOther close opened openedAt =>
      s!"'{close}' does not close '{opened}' opened at character {openedAt}"
  | .unmatched bracket => s!"unmatched '{bracket}'"
  | .unseparated close => s!"expected whitespace after '{close}'"
  | .notCommand token => s!"'{token}' is not a command"
  | .leftover rest => s!"unexpected '{rest}' after command"
  | .expression text fault => s!"invalid expression '{text}': " ++ fault.describe
  | .emptyArgument function => s!"empty argument in {function}()"
  | .unclosedSignature text => s!"function signature '{text}' must end with ')'"
  | .functionName name => s!"'{name}' is not a valid function name"
  | .emptyParameter signature => s!"empty parameter in '{signature}'"
  | .duplicateParameter name function => s!"duplicate parameter '{name}' in '{function}'"
  | .secondStar function => s!"'{function}' has more than one '*'"
  | .unknownType text => s!"unknown parameter type '{text}'"
  | .parameterName name => s!"'{name}' is not a valid parameter name"
  | .variadicDefault name => s!"variadic parameter '{name}' cannot have a default"
  | .unclosedBrace text => s!"unclosed '\x7b' in print text '{text}'"

/-- What an argument has to be. -/
inductive Demand where
  | number
  | integer
  | text
deriving DecidableEq, Repr

/-- The wording of a demand. -/
def Demand.name : Demand → String
  | .number => "a number"
  | .integer => "an integer"
  | .text => "text"

/-- A call that does not fit what it calls. -/
inductive Misuse where
  | reversed (function : String)
  | keys (function : String)
  | modifiers (function : String)
  | sequenceArguments (name : String)
  | sprintKeys (function : String) (keys : Keys)
  | modifier (function : String) (rejected : Terrain)
  | keywordRepeated (function key : String)
  | positionalAfterKeyword (function : String)
  | tooMany (function : String) (slots given : Nat)
  | unexpectedKeyword (function key : String)
  | positionalOnly (function key : String)
  | multipleValues (function key : String)
  | missingPositional (function : String) (names : List String)
  | missingKeyword (function : String) (names : List String)
  | notInteger (function parameter text : String)
  | demand (parameter : String) (demand : Demand)
  | angle (value : Value)
  | nestedLanding (function : String)
  | nestedStop (function : String)

/-- The plural ending of a counted noun. -/
def plural (count : Nat) : String :=
  if count = 1 then "" else "s"

/-- The quoted names as an enumeration. -/
def enumeration (names : List String) : String :=
  match names.map fun name => s!"'{name}'" with
  | [] => ""
  | [one] => one
  | [first, second] => first ++ " and " ++ second
  | first :: more =>
      ", ".intercalate (first :: more.dropLast) ++ ", and " ++ more.getLast?.getD ""

/-- The wording of arguments that are not given. -/
def missingMessage (function kind : String) (names : List String) : String :=
  s!"{function}() missing " ++ toString names.length ++ s!" required {kind} argument" ++
    plural names.length ++ ": " ++ enumeration names

/-- The wording of a misused call. -/
def Misuse.message : Misuse → String
  | .reversed function => s!"{function}() cannot be reversed"
  | .keys function => s!"{function}() does not accept an input suffix"
  | .modifiers function => s!"{function}() does not accept modifiers"
  | .sequenceArguments name => s!"'{name}' holds a sequence and takes no arguments"
  | .sprintKeys function held =>
      s!"{function}() input must hold 'w' and must not hold 's', got '" ++ held.display ++ "'"
  | .modifier function rejected =>
      s!"{function}() does not accept modifier " ++ rejected.display
  | .keywordRepeated function key => s!"{function}() keyword argument repeated: '{key}'"
  | .positionalAfterKeyword function =>
      s!"{function}() positional argument follows keyword argument"
  | .tooMany function slots given =>
      s!"{function}() takes {slots} positional argument" ++ plural slots ++
        s!" but {given} were given"
  | .unexpectedKeyword function key =>
      s!"{function}() got an unexpected keyword argument '{key}'"
  | .positionalOnly function key =>
      s!"{function}() got a positional-only argument passed as keyword: '{key}'"
  | .multipleValues function key => s!"{function}() got multiple values for argument '{key}'"
  | .missingPositional function names => missingMessage function "positional" names
  | .missingKeyword function names => missingMessage function "keyword-only" names
  | .notInteger function parameter text =>
      s!"{function}() argument '{parameter}' must be an integer, got {text}"
  | .demand parameter wanted => s!"argument '{parameter}' must be " ++ wanted.name
  | .angle value => "angle must be a number, got " ++ value.display
  | .nestedLanding function => s!"{function}() cannot run inside another possibility"
  | .nestedStop function => s!"{function}() cannot run inside another inertia listener"

/-- A value outside its range. -/
inductive BadValue where
  | keys (function : String) (fault : KeysFault)
  | unknownModifier (name : String)
  | negativeDuration (function : String) (value : Float)
  | refused (refusal : Refusal)
  | variableName (name : String)
  | negativeCount (count : Int)
  | increment (function : String) (value : Float)
  | negativeReach (function : String)
  | negativeMiss (function : String) (value : Float)

/-- The wording of a value outside its range. -/
def BadValue.message : BadValue → String
  | .keys function fault => s!"{function}(): " ++ fault.message
  | .unknownModifier name => s!"unknown modifier '{name}'"
  | .negativeDuration function value =>
      s!"{function}() duration must be a non-negative integer, got " ++ Number.text value
  | .refused refusal => refusal.message
  | .variableName name => s!"'{name}' is not a valid variable name"
  | .negativeCount count => s!"repeat() count must not be negative, got {count}"
  | .increment function value =>
      s!"{function}() increment must be positive, got " ++ Number.text value
  | .negativeReach function => s!"{function}() mindistance and miss must not be negative"
  | .negativeMiss function value =>
      s!"{function}() miss must not be negative, got " ++ Number.text value

/-- A place in a text, within nested calls. -/
structure Place where
  /-- The text. -/
  text : String
  /-- The count of characters before the place. -/
  offset : Nat
  /-- The enclosing calls, the outermost first. -/
  stack : List String
deriving DecidableEq, Repr

/-- The characters shown on each side of a place. -/
def contextRadius : Nat := 24

/-- The text around an offset with a caret under it. Blanks are shown as spaces. -/
def contextWindow (text : String) (offset : Nat) : String :=
  let start := offset - contextRadius
  let shown := (text.toList.take (offset + contextRadius + 1)).drop start
  let window := shown.map fun c => if Text.isBlank c then ' ' else c
  "  " ++ String.ofList window ++ "\n  " ++
    String.ofList (List.replicate (offset - start) ' ') ++ "^"

/-- Why a run failed. -/
inductive Fault where
  | malformed (cause : Malformed) (place : Option Place)
  | undefined (name : String) (suggestions : List String)
  | misuse (cause : Misuse)
  | badValue (cause : BadValue)
  /-- A definition under the name of a builtin. -/
  | overwrite (name : String)
  /-- A sequence that a solver cannot steer. -/
  | unsteerable (function : String)
  | interrupted
  | tooDeep (limit : Nat)

namespace Fault

/-- The kind of a fault. -/
def code : Fault → String
  | .malformed _ _ => "SyntaxError"
  | .undefined _ _ => "NameError"
  | .misuse _ => "TypeError"
  | .badValue _ => "ValueError"
  | .overwrite _ => "OverwriteError"
  | .unsteerable _ => "ZeroDivisionError"
  | .interrupted => "Interrupted"
  | .tooDeep _ => "RecursionError"

/-- The wording of a fault, its place apart. -/
def message : Fault → String
  | .malformed cause _ => cause.message
  | .undefined name [] => s!"name '{name}' is not defined"
  | .undefined name suggestions =>
      s!"name '{name}' is not defined. Did you mean: " ++ ", ".intercalate suggestions ++ "?"
  | .misuse cause => cause.message
  | .badValue cause => cause.message
  | .overwrite name => s!"'{name}' is a builtin function and cannot be redefined"
  | .unsteerable function =>
      s!"{function}(): the sequence travels the same distance from every starting speed"
  | .interrupted => "simulation was cancelled"
  | .tooDeep limit => s!"maximum nesting depth of {limit} exceeded"

/-- The lines that show a place. -/
def placeText : Option Place → String
  | none => ""
  | some place =>
      s!" (at character " ++ toString place.offset ++ ")\n" ++
        contextWindow place.text place.offset ++
        if place.stack.isEmpty then "" else "\n  in " ++ " > ".intercalate place.stack

/-- The whole report of a fault. -/
def display (fault : Fault) : String :=
  fault.code ++ ": " ++ fault.message ++
    match fault with
    | .malformed _ place => placeText place
    | _ => ""

/-- A malformed text without a place. -/
def unplaced (cause : Malformed) : Fault := .malformed cause none

/-- Moves a place in a part of `text` that starts at `base` onto the whole of it. -/
def relocated (fault : Fault) (text : String) (base : Nat) : Fault :=
  match fault with
  | .malformed cause (some place) =>
      .malformed cause (some { place with text := text, offset := base + place.offset })
  | other => other

end Fault

/-- A refused setting as a fault of the run. -/
def ofRefusal {α : Type} : Except Refusal α → Except Fault α
  | .ok a => .ok a
  | .error refusal => .error (.badValue (.refused refusal))

end Parkour.Language
