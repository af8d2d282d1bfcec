import Parkour.Json.Amount
/-!
# Printing JSON

Values in lines, one for each member of an object and each item of an array, with
two spaces for each level of nesting.
-/

namespace Parkour.Json

/-- What is printed as JSON. -/
inductive Value where
  | null
  /-- A number; one that is not finite is printed as null. -/
  | number (v : Float)
  | natural (n : Nat)
  | text (content : String)
  | array (items : List Value)
  | object (members : List (String × Value))

/-- A hexadecimal digit. -/
def hexDigit (n : Nat) : Char :=
  (Nat.toDigits 16 (n % 16)).headD '0'

/-- A character within a text. -/
def escaped (c : Char) : List Char :=
  if c = '"' then ['\\', '"']
  else if c = '\\' then ['\\', '\\']
  else if c = '\x08' then ['\\', 'b']
  else if c = '\x0c' then ['\\', 'f']
  else if c = '\n' then ['\\', 'n']
  else if c = '\r' then ['\\', 'r']
  else if c = '\t' then ['\\', 't']
  else if c < ' ' then ['\\', 'u', '0', '0', hexDigit (c.toNat / 16), hexDigit c.toNat]
  else [c]

/-- A text between quotes. -/
def quoted (text : String) : String :=
  String.ofList ('"' :: text.toList.flatMap escaped ++ ['"'])

/-- A new line with its indentation. -/
def newLine (level : Nat) : String :=
  "\n" ++ String.ofList (List.replicate (2 * level) ' ')

/-- Parts between brackets, each on a line of its own. -/
def enclosed (opening closing : String) (level : Nat) (parts : List String) : String :=
  if parts.isEmpty then opening ++ closing
  else opening ++ newLine (level + 1) ++ ("," ++ newLine (level + 1)).intercalate parts ++
    newLine level ++ closing

mutual

/-- A value that stands at a level of nesting. -/
def Value.renderAt (level : Nat) : Value → String
  | .null => "null"
  | .number v => ((numberChars? v).map String.ofList).getD "null"
  | .natural n => toString n
  | .text content => quoted content
  | .array items => enclosed "[" "]" level (renderItems (level + 1) items)
  | .object members => enclosed "\x7b" "\x7d" level (renderMembers (level + 1) members)

/-- The items of an array. -/
def renderItems (level : Nat) : List Value → List String
  | [] => []
  | item :: items => item.renderAt level :: renderItems level items

/-- The members of an object. -/
def renderMembers (level : Nat) : List (String × Value) → List String
  | [] => []
  | (name, value) :: members =>
      (quoted name ++ ": " ++ value.renderAt level) :: renderMembers level members

end

/-- The text of a value. -/
def Value.render (value : Value) : String :=
  value.renderAt 0

end Parkour.Json
