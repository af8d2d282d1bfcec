/-!
# Pages

What the program says about itself: its version, and help on the command line as a
whole or on one of its commands.
-/

namespace Parkour.CommandLine

/-- What help is about. -/
inductive Topic where
  | program
  | run
  | signature
  | family
  | help
deriving DecidableEq, Repr

/-- The command that a word names. -/
def Topic.ofCommand? : String → Option Topic
  | "run" => some .run
  | "sig" => some .signature
  | "family" => some .family
  | "help" => some .help
  | _ => none

/-- The lines of help on a topic. Words without an explanation keep their column. -/
def Topic.lines : Topic → List String
  | .program =>
      ["Tick-accurate Minecraft movement sequences",
        "",
        "Usage: mothball [OPTIONS] <COMMAND>",
        "",
        "Commands:",
        "  run     Run a sequence and print what it outputs",
        "  sig     Print the signature of a builtin",
        "  family  List the builtins of a family",
        "  help    Print this message or the help of the given subcommand(s)",
        "",
        "Options:",
        "  -v, --verbose  Enable verbose logging",
        "  -h, --help     Print help",
        "  -V, --version  Print version"]
  | .run =>
      ["Run a sequence and print what it outputs",
        "",
        "Usage: mothball run [OPTIONS] [SEQUENCE]",
        "",
        "Arguments:",
        "  [SEQUENCE]  Sequence text; read from stdin when omitted",
        "",
        "Options:",
        "  -v, --verbose        Enable verbose logging",
        "      --vertical       Use the Y model instead of X/Z",
        "      --strict         Fail on the first error instead of printing it",
        "      --no-defaults    Skip the position/velocity readout after a silent run",
        "      --json           Print events as JSON",
        "      --config <FILE>  JSON engine settings",
        "      --fingerprint    Append the final state fingerprint",
        "  -h, --help           Print help"]
  | .signature =>
      ["Print the signature of a builtin",
        "",
        "Usage: mothball sig [OPTIONS] <NAME>",
        "",
        "Arguments:",
        "  <NAME>  ",
        "",
        "Options:",
        "  -v, --verbose   Enable verbose logging",
        "      --vertical  ",
        "  -h, --help      Print help"]
  | .family =>
      ["List the builtins of a family",
        "",
        "Usage: mothball family [OPTIONS] <FAMILY>",
        "",
        "Arguments:",
        "  <FAMILY>  ",
        "",
        "Options:",
        "  -v, --verbose   Enable verbose logging",
        "      --vertical  ",
        "  -h, --help      Print help"]
  | .help =>
      ["Print this message or the help of the given subcommand(s)",
        "",
        "Usage: mothball help [COMMAND]...",
        "",
        "Arguments:",
        "  [COMMAND]...  Print help for the subcommand(s)"]

/-- What is printed in place of the answer to a command. -/
inductive Page where
  | version
  | help (topic : Topic)
deriving DecidableEq, Repr

/-- The lines of a page. -/
def Page.lines : Page → List String
  | .version => ["mothball 0.1.0"]
  | .help topic => topic.lines

end Parkour.CommandLine
