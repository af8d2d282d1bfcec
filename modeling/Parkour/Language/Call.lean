import Parkour.Language.Arguments
import Parkour.Language.Builtin
import Parkour.Language.Signature
/-!
# Calls

A command together with what its name stands for, with its keys, modifiers and
arguments checked against that.
-/

namespace Parkour.Language

open Player (Keys Terrain)

/-- What a name stands for. -/
inductive Target where
  | builtin (function : Builtin)
  | user (function : UserFunction)
  /-- A variable with a text, which is run as a sequence. -/
  | sequence (name body : String)

/-- The name of a target. -/
def Target.name : Target → String
  | .builtin function => function.name
  | .user function => function.name
  | .sequence name _ => name

/-- A call that is ready to be done. -/
structure Call where
  /-- What is called. -/
  target : Target
  /-- A minus stands in front. -/
  reverse : Bool := false
  /-- The keys held. -/
  keys : Keys := .none
  /-- The terrain given as modifiers. -/
  modifiers : Terrain := .plain
  /-- The arguments. -/
  arguments : Arguments := {}

/-- Whether a call is left out when a repeated sequence runs again. -/
def Call.isOnce (call : Call) : Bool :=
  match call.target with
  | .builtin function => function.once
  | _ => false

namespace Binding

/-- The keys when none are given. -/
def defaultKeys : Keys := { forward := true }

/-- Reads the keys of a call. -/
def parseKeys (function : String) : Option String → Except Fault (Option Keys)
  | none => .ok none
  | some text =>
      match Keys.parse text with
      | .ok keys => .ok (some keys)
      | .error fault => .error (.badValue (.keys function fault))

/-- The keys of a call to a builtin. -/
def bindKeys (b : Builtin) (text : Option String) : Except Fault Keys := do
  let given ← parseKeys b.name text
  match b.keys with
  | .fixed keys =>
      if given.isSome then throw (.misuse (.keys b.name))
      return keys
  | .free => return given.getD defaultKeys
  | .sprint =>
      let keys := given.getD defaultKeys
      if !keys.forward || keys.back then throw (.misuse (.sprintKeys b.name keys))
      return keys

/-- The modifiers of a call to a function that takes those of `allowed`. -/
def bindModifiers (function : String) (allowed : Terrain) (text : Option String) :
    Except Fault Terrain := do
  match text with
  | none => return .plain
  | some text =>
      let terrain ← parseModifiers text
      let rejected := terrain.outside allowed
      if !rejected.isEmpty then throw (.misuse (.modifier function rejected))
      return terrain

/-- Refuses a minus, keys and modifiers. -/
def checkBare (name : String) (command : Command) : Except Fault Unit :=
  if command.reverse then .error (.misuse (.reversed name))
  else if command.keys.isSome then .error (.misuse (.keys name))
  else if command.modifiers.isSome then .error (.misuse (.modifiers name))
  else .ok ()

/-- The call that a command makes to a target. -/
def bindCall (command : Command) (target : Target) (scope : Scope) (stack : List String) :
    Except Fault Call := do
  match target with
  | .builtin b =>
      if command.reverse && !b.reversible then throw (.misuse (.reversed b.name))
      let keys ← bindKeys b command.keys
      let modifiers ← bindModifiers b.name b.modifiers command.modifiers
      let arguments ← bind b.name b.parameters command.arguments scope stack
      return { target, reverse := command.reverse, keys, modifiers, arguments }
  | .user f =>
      checkBare f.name command
      return { target, arguments := ← bind f.name f.parameters command.arguments scope stack }
  | .sequence name _ =>
      checkBare name command
      if command.arguments.isSome then throw (.misuse (.sequenceArguments name))
      return { target }

end Binding

end Parkour.Language
