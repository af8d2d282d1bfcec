import Parkour.CommandLine.Page
import Parkour.Player.Basic
import Parkour.Text.Trim
/-!
# Invocations

What the words of a command line ask for. There are three commands: `run` runs a
sequence, `sig` prints a signature and `family` lists a family of functions. The words
are taken in order. The first one that is unknown, repeated or surplus makes the
command line refused, and the first one that asks for a page ends it with that page.
-/

namespace Parkour.CommandLine

open Player (Axis)

/-- The options of `run`. -/
structure RunOptions where
  /-- The sequence; read from the input if absent. -/
  sequence : Option String := none
  /-- Run under the model of heights. -/
  vertical : Bool := false
  /-- Fail at the first fault. -/
  strict : Bool := false
  /-- No readouts after a run that printed nothing. -/
  noDefaults : Bool := false
  /-- Print the events as JSON. -/
  json : Bool := false
  /-- The file with the settings. -/
  config : Option String := none
  /-- Print the fingerprint of the player. -/
  fingerprint : Bool := false
deriving DecidableEq, Repr

/-- What a command line asks for. -/
inductive Invocation where
  | run (options : RunOptions)
  | signature (name : String) (axis : Axis)
  | family (name : String) (axis : Axis)
deriving DecidableEq, Repr

/-- The model that the flag `--vertical` asks for. -/
def axisOf (vertical : Bool) : Axis :=
  if vertical then .vertical else .horizontal

/-- The words behind the command, sorted. -/
structure Words where
  /-- The words that are neither flags nor options. -/
  plain : List String := []
  /-- The flags by their full names. -/
  flags : List String := []
  /-- The options with their values. -/
  options : List (String × String) := []
deriving DecidableEq, Repr

/-- Why the words are not read to their end. -/
inductive Stop where
  | refused
  | page (page : Page)
deriving DecidableEq, Repr

/-- What a command accepts. -/
structure Grammar where
  /-- What help is about here. -/
  topic : Topic
  /-- The most plain words. -/
  plain : Nat
  /-- The flags. -/
  flags : List String := []
  /-- The options that take a value. -/
  options : List String := []
  /-- The version can be asked for. -/
  version : Bool := false

/-- The flag that every command accepts. Its short form is its first letter. -/
def verbose : String := "--verbose"

/-- Whether a word is a flag or an option by its looks. -/
def isDashed (word : String) : Bool :=
  match word.toList with
  | '-' :: _ :: _ => true
  | _ => false

namespace Words

/-- Adds a plain word, if there is room for it. -/
def addPlain (words : Words) (grammar : Grammar) (word : String) : Except Stop Words :=
  if words.plain.length < grammar.plain then
    .ok { words with plain := words.plain ++ [word] }
  else .error .refused

/-- Adds a flag that has not been given. -/
def addFlag (words : Words) (flag : String) : Except Stop Words :=
  if words.flags.contains flag then .error .refused
  else .ok { words with flags := words.flags ++ [flag] }

/-- Adds an option that has not been given. Its value is not empty. -/
def addOption (words : Words) (name value : String) : Except Stop Words :=
  if value.isEmpty || (words.options.lookup name).isSome then .error .refused
  else .ok { words with options := words.options ++ [(name, value)] }

/-- Adds the flags whose short forms stand behind one hyphen. -/
def addShort (words : Words) (grammar : Grammar) : List Char → Except Stop Words
  | [] => .ok words
  | c :: cs => do
      if c = 'h' then throw (.page (.help grammar.topic))
      if c = 'V' && grammar.version then throw (.page .version)
      if c ≠ 'v' then throw .refused
      (← words.addFlag verbose).addShort grammar cs

/-- Adds a word with two hyphens that takes no further word. -/
def addLong (words : Words) (grammar : Grammar) (word : String) : Except Stop Words :=
  if word = "--help" then .error (.page (.help grammar.topic))
  else if word = "--version" && grammar.version then .error (.page .version)
  else if word = verbose || grammar.flags.contains word then words.addFlag word
  else match Text.cut? '=' word with
    | some (name, value) =>
        if grammar.options.contains name then words.addOption name value else .error .refused
    | none => .error .refused

/-- Adds a dashed word that takes no further word. -/
def addDashed (words : Words) (grammar : Grammar) (word : String) : Except Stop Words :=
  match word.toList with
  | '-' :: '-' :: _ => words.addLong grammar word
  | letters => words.addShort grammar letters.tail

/-- Sorts the words behind a command. Two hyphens end the flags and options. -/
def take (grammar : Grammar) (words : Words) : List String → Except Stop Words
  | [] => .ok words
  | word :: rest =>
      if word = "--" then
        rest.foldlM (fun words plain => words.addPlain grammar plain) words
      else if grammar.options.contains word then
        match rest with
        | [] => .error .refused
        | value :: rest =>
            if isDashed value then .error .refused
            else (words.addOption word value).bind fun words => take grammar words rest
      else if isDashed word then
        (words.addDashed grammar word).bind fun words => take grammar words rest
      else (words.addPlain grammar word).bind fun words => take grammar words rest

end Words

/-- What may stand in front of a command. -/
def programGrammar : Grammar where
  topic := .program
  plain := 0
  version := true

/-- What `run` accepts. -/
def runGrammar : Grammar where
  topic := .run
  plain := 1
  flags := ["--vertical", "--strict", "--no-defaults", "--json", "--fingerprint"]
  options := ["--config"]

/-- What a command on one name accepts. -/
def nameGrammar (topic : Topic) : Grammar where
  topic
  plain := 1
  flags := ["--vertical"]

/-- The options of `run` in its words. -/
def RunOptions.ofWords (words : Words) : RunOptions where
  sequence := words.plain.head?
  vertical := words.flags.contains "--vertical"
  strict := words.flags.contains "--strict"
  noDefaults := words.flags.contains "--no-defaults"
  json := words.flags.contains "--json"
  config := words.options.lookup "--config"
  fingerprint := words.flags.contains "--fingerprint"

/-- Reads the words behind a command that takes one name. -/
def parseNamed (topic : Topic) (make : String → Axis → Invocation) (rest : List String) :
    Except Stop Invocation := do
  let words ← Words.take (nameGrammar topic) {} rest
  match words.plain with
  | name :: _ => return make name (axisOf (words.flags.contains "--vertical"))
  | [] => throw .refused

/-- The page that is asked for by the words behind the command for help. -/
def parseHelp : List String → Stop
  | [] => .page (.help .program)
  | [word] =>
      match Topic.ofCommand? word with
      | some topic => .page (.help topic)
      | none => .refused
  | _ => .refused

/-- Reads the words behind a command. -/
def Topic.parse (rest : List String) : Topic → Except Stop Invocation
  | .program => .error .refused
  | .run => (Words.take runGrammar {} rest).map fun words => .run (RunOptions.ofWords words)
  | .signature => parseNamed .signature .signature rest
  | .family => parseNamed .family .family rest
  | .help => .error (parseHelp rest)

/-- Reads the words up to the command and then those behind it. -/
def parseProgram (words : Words) : List String → Except Stop Invocation
  | [] => .error .refused
  | word :: rest =>
      match Topic.ofCommand? word with
      | some topic => topic.parse rest
      | none =>
          if word = "--" || !isDashed word then .error .refused
          else (words.addDashed programGrammar word).bind fun words => parseProgram words rest

/-- Reads a command line. -/
def Invocation.parse (words : List String) : Except Stop Invocation :=
  parseProgram {} words

end Parkour.CommandLine
