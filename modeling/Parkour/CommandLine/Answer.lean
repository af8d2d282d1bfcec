import Parkour.CommandLine.Directory
import Parkour.CommandLine.Invocation
import Parkour.Engine.Session
import Parkour.Json.Printer
import Parkour.Player.Fingerprint
/-!
# Answers

What an invocation prints and the code it exits with. Results go to the output;
a failed invocation prints its reason to the error output.
-/

namespace Parkour.CommandLine

open Parkour.Language (Builtin Family)
open Report (Event)

/-- What an invocation finds around it. -/
structure Surroundings where
  /-- The text of a file. -/
  file : String → Except FileFault String
  /-- The bytes of the input. -/
  input : ByteArray

/-- What an invocation leaves behind. -/
structure Answer where
  /-- The exit code. -/
  code : UInt8
  /-- What goes to the output. -/
  output : String := ""
  /-- What goes to the error output. -/
  errors : String := ""

/-- An invocation that was refused. -/
def Answer.refused : Answer := { code := 2 }

/-- The lines, each with its end. -/
def unlines (lines : List String) : String :=
  String.join (lines.map (· ++ "\n"))

/-- The lines of a success, or the reason of a failure. -/
def Answer.ofExcept : Except String (List String) → Answer
  | .ok lines => { code := 0, output := unlines lines }
  | .error reason => { code := 1, errors := unlines [reason] }

/-- The settings in a file, or the default ones. -/
def loadSettings (s : Surroundings) : Option String → Except String Settings
  | none => .ok {}
  | some path =>
      match s.file path with
      | .error fault => .error (path ++ ": " ++ fault.message)
      | .ok text =>
          match Settings.parse? text with
          | some settings => .ok settings
          | none => .error (path ++ ": invalid engine config")

/-- The sequence of a command line, or the input if there is none. -/
def readSequence (s : Surroundings) : Option String → Except String String
  | some text => .ok text
  | none =>
      match String.fromUTF8? s.input with
      | some text => .ok text
      | none => .error ("failed to read the sequence from stdin: " ++ FileFault.notText.message)

/-- An event as JSON. -/
def eventJson : Event → Json.Value
  | .text content => .object [("kind", .text "text"), ("text", .text content)]
  | .warning content => .object [("kind", .text "warning"), ("text", .text content)]
  | .readout label value center precision =>
      .object [("kind", .text "axis"), ("label", .text label), ("value", .number value),
        ("center", center.elim .null .number), ("precision", .natural precision)]

/-- The report of a run as JSON. -/
def reportJson (events : List Event) (fingerprint : Option String) : Json.Value :=
  .object (("events", .array (events.map eventJson)) ::
    (fingerprint.map fun digest => ("fingerprint", Json.Value.text digest)).toList)

/-- The report of a run in lines. -/
def reportLines (events : List Event) (fingerprint : Option String) : List String :=
  events.map Event.display ++ (fingerprint.map ("fingerprint: " ++ ·)).toList

/-- Runs a sequence. -/
def run (s : Surroundings) (options : RunOptions) : Except String (List String) := do
  let settings ← loadSettings s options.config
  let text ← readSequence s options.sequence
  let engine ← (Engine.ofSettings (axisOf options.vertical) settings).mapError (·.display)
  let answer := engine.simulate text (!options.noDefaults) options.strict ∅
  let events ← answer.outcome.mapError (·.display)
  let fingerprint :=
    if options.fingerprint then some answer.engine.player.fingerprint else none
  return if options.json then [(reportJson events fingerprint).render]
    else reportLines events fingerprint

/-- A function with its other names. -/
def listLine (b : Builtin) : String :=
  if b.aliases.isEmpty then b.name
  else b.name ++ " (" ++ ", ".intercalate b.aliases ++ ")"

/-- Lists the functions of a family. -/
def listFamily (name : String) (axis : Player.Axis) : Except String (List String) :=
  match Family.ofName? name with
  | some family => .ok ((Language.Catalogue.members family axis).map listLine)
  | none => .error (s!"unknown family '{name}' (expected one of: " ++
      ", ".intercalate (Family.all.map Family.name) ++ ")")

/-- The answer to an invocation. -/
def answer (s : Surroundings) : Invocation → Answer
  | .run options => .ofExcept (run s options)
  | .signature name axis =>
      .ofExcept ((((Engine.new axis).signature name).map fun line => [line]).mapError (·.display))
  | .family name axis => .ofExcept (listFamily name axis)

/-- The answer to a command line. -/
def answerLine (s : Surroundings) (words : List String) : Answer :=
  match Invocation.parse words with
  | .ok invocation => answer s invocation
  | .error (.page page) => .ofExcept (.ok page.lines)
  | .error .refused => .refused

end Parkour.CommandLine
