import Parkour.Language.Fault
/-!
# Commands

The parts of one call, written `-name.keys[modifiers](arguments)`. All but the
name may be absent. The arguments reach up to the last closing parenthesis.
-/

namespace Parkour.Language

open Player (Feature Terrain)

/-- The parts of a call. -/
structure Command where
  /-- A minus stands in front. -/
  reverse : Bool
  /-- The name of what is called. -/
  name : String
  /-- The text behind the point. -/
  keys : Option String
  /-- The text in square brackets. -/
  modifiers : Option String
  /-- The text in parentheses. -/
  arguments : Option String
  /-- The count of characters before the arguments, or zero without any. -/
  argumentsAt : Nat
deriving DecidableEq, Repr

namespace Command

/-- A minus at the start, and what follows it. -/
def signPart : List Char → Bool × List Char
  | [] => (false, [])
  | c :: cs => if c = '-' then (true, cs) else (false, c :: cs)

/-- The longest identifier at the start, and what follows it. -/
def namePart : List Char → Option (List Char × List Char)
  | [] => none
  | c :: cs =>
      if Text.isNameStart c then
        some (c :: cs.takeWhile Text.isNamePart, cs.dropWhile Text.isNamePart)
      else none

/-- Letters and digits behind a point, and what follows them. -/
def keysPart : List Char → Option (List Char) × List Char
  | [] => (none, [])
  | c :: cs =>
      if c = '.' then
        (some (cs.takeWhile Text.isAlphanumeric), cs.dropWhile Text.isAlphanumeric)
      else (none, c :: cs)

/-- Neither square bracket. -/
def isInner (c : Char) : Bool := c != '[' && c != ']'

/-- The text between two square brackets, and what follows them. -/
def modifiersPart : List Char → Option (List Char) × List Char
  | [] => (none, [])
  | c :: cs =>
      if c = '[' then
        match cs.dropWhile isInner with
        | [] => (none, c :: cs)
        | d :: rest => if d = ']' then (some (cs.takeWhile isInner), rest) else (none, c :: cs)
      else (none, c :: cs)

/-- The text before the last closing parenthesis and the text after it. -/
def beforeLastClose (cs : List Char) : Option (List Char × List Char) :=
  match cs.reverse.dropWhile (· != ')') with
  | [] => none
  | _ :: inner => some (inner.reverse, (cs.reverse.takeWhile (· != ')')).reverse)

/-- The text in parentheses, and what follows them. -/
def argumentsPart : List Char → Option (List Char) × List Char
  | [] => (none, [])
  | c :: cs =>
      if c = '(' then
        match beforeLastClose cs with
        | some (inner, rest) => (some inner, rest)
        | none => (none, c :: cs)
      else (none, c :: cs)

/-- Takes a token apart. What is left over makes it malformed. -/
def parse (stack : List String) (token : String) : Except Fault Command :=
  let cs := token.toList
  let (reverse, afterSign) := signPart cs
  match namePart afterSign with
  | none => .error (.malformed (.notCommand token) (some ⟨token, 0, stack⟩))
  | some (name, afterName) =>
      let (keys, afterKeys) := keysPart afterName
      let (modifiers, afterModifiers) := modifiersPart afterKeys
      let (arguments, rest) := argumentsPart afterModifiers
      if rest.isEmpty then
        .ok {
          reverse := reverse
          name := String.ofList name
          keys := keys.map String.ofList
          modifiers := modifiers.map String.ofList
          arguments := arguments.map String.ofList
          argumentsAt := if arguments.isSome then cs.length - afterModifiers.length + 1 else 0 }
      else
        .error (.malformed (.leftover (String.ofList rest))
          (some ⟨token, cs.length - rest.length, stack⟩))

end Command

/-- The name and the value of a piece `name = value`; none for a positional
argument, and so for a comparison `a == b`. -/
def keyword? (piece : String) : Option (String × String) :=
  match Command.namePart piece.toList with
  | none => none
  | some (name, rest) =>
      match rest.dropWhile Text.isBlank with
      | [] => none
      | c :: value =>
          if c = '=' ∧ value.head? ≠ some '=' then
            some (String.ofList name, Text.trim (String.ofList value))
          else none

/-- The words between blanks and commas. -/
def wordsOf (cs : List Char) : List String :=
  let isGap (c : Char) : Bool := c == ',' || Text.isBlank c
  ((cs.splitBy fun a b => isGap a == isGap b).filter fun word => !word.any isGap).map String.ofList

/-- Adds the named features one after the other. -/
def addFeatures (terrain : Terrain) : List String → Except Fault Terrain
  | [] => .ok terrain
  | name :: rest =>
      match Feature.ofName? name with
      | some feature => addFeatures (terrain.add feature) rest
      | none => .error (.badValue (.unknownModifier name))

/-- Reads modifiers, separated by commas or blanks. -/
def parseModifiers (text : String) : Except Fault Terrain :=
  addFeatures .plain (wordsOf text.toList)

end Parkour.Language
