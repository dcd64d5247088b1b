import SceneGraph.CommandLine.Arguments

/-!
# Help

What the program says about itself: its version, its commands and their options, in two columns.
-/

namespace SceneGraph.CommandLine

def versionText : String := "scenic 0.1.0\n"

namespace Verb

/-- What a command does, in one line. -/
def summary : Verb → String
  | inspect => "Print the nodes, fields and routes of a scene file"
  | write => "Parse a scene file and write it back in the classic encoding"
  | check => "Parse a scene file and report whether it loaded"

/-- The option that only this command has, with what it does. -/
def option? : Verb → Option (String × String)
  | inspect => some ("    --json", "Print JSON instead of text")
  | write =>
    some ("    --out <OUT>", "Output file; standard output when omitted. " ++
      "Its extension picks the header, otherwise the input's does")
  | check => none

end Verb

/-- Entries in two columns, the left one as wide as its longest entry. The right one is never broken
into lines. -/
def columns (entries : List (String × String)) : String :=
  let width := (entries.map (·.1.length)).foldl max 0
  String.join (entries.map fun (left, right) =>
    let blanks := String.ofList (List.replicate (width - left.length) ' ')
    "  " ++ left ++ blanks ++ "  " ++ right ++ "\n")

def configEntry : String × String :=
  ("    --config <CONFIG>", s!"Configuration file [default: {Settings.fileName}]")

def helpEntry : String × String := ("-h, --help", "Print help")

def helpSummary : String := "Print this message or the help of the given subcommand(s)"

/-- The help about the program. -/
def programHelp : String :=
  let commands := Verb.all.map fun v => (v.word, v.summary)
  "Inspect, check and rewrite classic-encoding scene files\n\n" ++
    "Usage: scenic [OPTIONS] <COMMAND>\n\nCommands:\n" ++
    columns (commands ++ [(helpWord, helpSummary)]) ++
    "\nOptions:\n" ++ columns [configEntry, helpEntry, ("-V, --version", "Print version")]

/-- The help about a command. The options that all commands share come first, and the request for
help itself comes last. -/
def Verb.help (v : Verb) : String :=
  v.summary ++ "\n\n" ++ s!"Usage: scenic {v.word} [OPTIONS] <FILE>" ++ "\n\nArguments:\n" ++
    columns [("<FILE>", "")] ++ "\nOptions:\n" ++
    columns ([configEntry] ++ v.option?.toList ++ [helpEntry])

/-- The help about the request for help. -/
def helpHelp : String :=
  helpSummary ++ "\n\n" ++ s!"Usage: scenic {helpWord} [COMMAND]..." ++ "\n\nArguments:\n" ++
    columns [("[COMMAND]...", "Print help for the subcommand(s)")]

def Topic.text : Topic → String
  | program => programHelp
  | command verb => verb.help
  | help => helpHelp

end SceneGraph.CommandLine
