import Parkour.CommandLine.Answer
/-!
# The program

Reads the file and the input that an invocation needs, and prints its answer.
-/

namespace Parkour

open CommandLine

/-- The code of the operating system for a failed access. -/
def systemCode : IO.Error → UInt32
  | .noFileOrDirectory _ code _ => code
  | .permissionDenied _ code _ => code
  | .inappropriateType _ code _ => code
  | .invalidArgument _ code _ => code
  | .otherError code _ => code
  | _ => 2

/-- The code of a failed access without its sign. -/
def accessCode (e : IO.Error) : UInt32 :=
  let code := systemCode e
  if code < 0x80000000 then code else 0 - code

/-- Why a file could not be read. -/
def accessFault (e : IO.Error) : FileFault :=
  let code := accessCode e
  if code = 13 then .denied
  else if code = 20 then .notDirectory
  else if code = 21 then .directory
  else if code = 36 then .nameTooLong
  else .missing

/-- The text of a file. -/
def readText (path : String) : IO (Except FileFault String) := do
  try
    match String.fromUTF8? (← IO.FS.readBinFile path) with
    | some text => return .ok text
    | none => return .error .notText
  catch e => return .error (accessFault e)

/-- All that is left of a stream. -/
partial def readAll (stream : IO.FS.Stream) (before : ByteArray) : IO ByteArray := do
  let bytes ← stream.read 65536
  if bytes.isEmpty then return before else readAll stream (before ++ bytes)

/-- What an invocation needs of its surroundings. -/
def surroundingsOf (words : List String) : IO Surroundings := do
  match Invocation.parse words with
  | .ok (.run options) =>
      let file : Except FileFault String ←
        match options.config with
        | some path => readText path
        | none => pure (.error .missing)
      let input ←
        if options.sequence.isSome then pure ByteArray.empty
        else readAll (← IO.getStdin) ByteArray.empty
      return { file := fun _ => file, input }
  | _ => return { file := fun _ => .error .missing, input := ByteArray.empty }

end Parkour

/-- Answers the command line. -/
def main (words : List String) : IO UInt32 := do
  let answer := Parkour.CommandLine.answerLine (← Parkour.surroundingsOf words) words
  (← IO.getStdout).putStr answer.output
  (← IO.getStderr).putStr answer.errors
  return answer.code.toUInt32
