/-!
# Directories

The files that a command line can name, and the reasons for which a path has no text.
A path is walked step by step from the working directory or from the root. Each step
needs a directory to start from, also a step back.
-/

namespace Parkour.CommandLine

/-- Why a file cannot be read. -/
inductive FileFault where
  | missing
  | denied
  | notDirectory
  | directory
  | nameTooLong
  | notText
deriving DecidableEq, Repr

/-- The wording of a file that cannot be read. -/
def FileFault.message : FileFault → String
  | .missing => "No such file or directory (os error 2)"
  | .denied => "Permission denied (os error 13)"
  | .notDirectory => "Not a directory (os error 20)"
  | .directory => "Is a directory (os error 21)"
  | .nameTooLong => "File name too long (os error 36)"
  | .notText => "stream did not contain valid UTF-8"

/-- The texts in the working directory under their paths. -/
abbrev Directory := List (String × String)

/-- What stands at the end of a path. -/
inductive Node where
  | file (text : String)
  | folder
deriving DecidableEq, Repr

/-- Where a path has led to. -/
inductive Place where
  /-- These steps from the working directory. -/
  | within (steps : List String)
  /-- A directory above the working directory. -/
  | above
  /-- These steps from the root. -/
  | system (steps : List String)
deriving DecidableEq, Repr

/-- The place one step back. Nothing is above the root. -/
def Place.parent : Place → Place
  | .within [] => .above
  | .within (step :: steps) => .within (step :: steps).dropLast
  | .above => .above
  | .system steps => .system steps.dropLast

/-- The place of a name in a directory. The names above the working directory are not
known. -/
def Place.child? (name : String) : Place → Option Place
  | .within steps => some (.within (steps ++ [name]))
  | .above => none
  | .system steps => some (.system (steps ++ [name]))

/-- The steps of a path that leads inwards. -/
def steps (path : String) : List String :=
  (path.splitOn "/").filter fun step => step != "" && step != "."

/-- The directories that stand under every root. -/
def systemFolders : List String :=
  ["bin", "dev", "etc", "home", "lib", "media", "mnt", "opt", "proc", "root", "run", "sbin",
    "srv", "sys", "tmp", "usr", "var"]

/-- What stands under every root: some directories and the empty device. -/
def systemNode? : List String → Option Node
  | [] => some .folder
  | [name] => if systemFolders.contains name then some .folder else none
  | ["dev", "null"] => some (.file "")
  | _ => none

namespace Directory

/-- What stands at the end of these steps from the working directory. -/
def node? (d : Directory) (path : List String) : Option Node :=
  match d.find? fun entry => steps entry.1 = path with
  | some entry => some (.file entry.2)
  | none =>
      if path.isEmpty || d.any fun entry => path.isPrefixOf (steps entry.1) then some .folder
      else none

/-- What stands at a place. -/
def look? (d : Directory) : Place → Option Node
  | .within steps => d.node? steps
  | .above => some .folder
  | .system steps => systemNode? steps

/-- The most bytes of a name. -/
def maxName : Nat := 255

/-- The most bytes of a path. -/
def maxPath : Nat := 4095

/-- Takes one step of a path. -/
def step (d : Directory) (here : Place) (name : String) : Except FileFault Place :=
  match d.look? here with
  | none => .error .missing
  | some (.file _) => .error .notDirectory
  | some .folder =>
      if name = "" || name = "." then .ok here
      else if name = ".." then .ok here.parent
      else if maxName < name.utf8ByteSize then .error .nameTooLong
      else match here.child? name with
        | some place => .ok place
        | none => .error .missing

/-- The place that a path leads to. -/
def walk (d : Directory) (path : String) : Except FileFault Place :=
  let start : Place := if path.toList.head? = some '/' then .system [] else .within []
  (path.splitOn "/").foldlM d.step start

/-- The text of a file. -/
def read (d : Directory) (path : String) : Except FileFault String := do
  if path.isEmpty then throw .missing
  if maxPath < path.utf8ByteSize then throw .nameTooLong
  match d.look? (← d.walk path) with
  | some (.file text) => return text
  | some .folder => throw .directory
  | none => throw .missing

end Directory

end Parkour.CommandLine
