import SceneGraph.Settings

/-!
# Arguments

The arguments of the program name a command with the file it is about, and may name a settings file in
front of the command or behind it. `Argument.ofWords` sorts the words into options with their values
and plain words, and `Demand.ofWords` makes sense of them from left to right; a request for help or
for the version ends the reading. Everything that is not understood is a misuse, and so is an option
given twice or an empty path.
-/

namespace SceneGraph.CommandLine

/-- What the program can be asked to do with a file. -/
inductive Verb where
  /-- Print nodes, fields and routes. -/
  | inspect
  /-- Write the scene as a document. -/
  | write
  /-- Tell whether the file can be loaded. -/
  | check
  deriving DecidableEq, Repr

namespace Verb

def all : List Verb := [inspect, write, check]

def word : Verb → String
  | inspect => "inspect"
  | write => "write"
  | check => "check"

def ofWord? (word : String) : Option Verb := all.find? (·.word == word)

end Verb

/-- A command with everything that it needs to know. -/
structure Command where
  verb : Verb
  file : String
  /-- Print JSON instead of text. -/
  json : Bool := false
  /-- Where to write, if not to the output. -/
  out : Option String := none
  /-- Where the settings are. -/
  config : String := Settings.fileName
  deriving DecidableEq, Repr

/-- The word that asks for help. -/
def helpWord : String := "help"

/-- What help can be asked about. -/
inductive Topic where
  | program
  | command (verb : Verb)
  | help
  deriving DecidableEq, Repr

/-- What a word after the request for help asks about. -/
def Topic.ofWord? (word : String) : Option Topic :=
  if word = helpWord then some help else (Verb.ofWord? word).map command

/-- What the arguments ask for. -/
inductive Demand where
  | command (c : Command)
  | help (topic : Topic)
  | version
  | misuse
  deriving DecidableEq, Repr

/-! ### Words -/

/-- An argument by its form. -/
inductive Argument where
  | word (text : String)
  | config (path : String)
  | out (path : String)
  | json
  | help
  | version
  /-- Two dashes, after which there are only plain words. -/
  | endOfOptions
  | unknown
  deriving DecidableEq, Repr

namespace Argument

/-- A word that starts with a dash and is more than that. -/
def isOption (word : String) : Bool := word.startsWith "-" && word ≠ "-"

/-- What stands behind an option and an equals sign. -/
def attached? (option word : String) : Option String :=
  let start := (option ++ "=").toList
  if start.isPrefixOf word.toList then some (String.ofList (word.toList.drop start.length)) else none

/-- An argument that is one word. Short options may be joined, and the first one counts. -/
def ofWord (text : String) : Argument :=
  if !isOption text then .word text
  else if text = "--json" then .json
  else if text = "--help" ∨ text.startsWith "-h" then .help
  else if text = "--version" ∨ text.startsWith "-V" then .version
  else
    match attached? "--config" text, attached? "--out" text with
    | some path, _ => .config path
    | none, some path => .out path
    | none, none => .unknown

/-- The arguments that words make. An option takes the next word as its value, unless that looks like
an option too. -/
def ofWords : List String → List Argument
  | [] => []
  | "--" :: rest => .endOfOptions :: rest.map .word
  | "--config" :: value :: rest =>
    if isOption value then [.unknown] else .config value :: ofWords rest
  | "--out" :: value :: rest => if isOption value then [.unknown] else .out value :: ofWords rest
  | text :: rest => ofWord text :: ofWords rest

end Argument

namespace Demand

/-- The arguments of a command read so far. -/
structure Progress where
  file : Option String := none
  json : Bool := false
  out : Option String := none
  config : Option String := none
  deriving DecidableEq, Repr

/-- Takes over a path that is not empty and was not given before. -/
def setOnce (old : Option String) (path : String) : Option String :=
  if path = "" ∨ old.isSome then none else some path

/-- Takes over one argument of a command. -/
def advance (verb : Verb) (p : Progress) : Argument → Option Progress
  | .word path => (setOnce p.file path).map fun path => { p with file := some path }
  | .config path => (setOnce p.config path).map fun path => { p with config := some path }
  | .out path =>
    if verb = .write then (setOnce p.out path).map fun path => { p with out := some path } else none
  | .json => if verb = .inspect ∧ !p.json then some { p with json := true } else none
  | .endOfOptions => some p
  | .help | .version | .unknown => none

/-- The command that has been read, if its file is known. The settings file named behind the command
counts. -/
def complete (verb : Verb) (config : Option String) (p : Progress) : Demand :=
  match p.file with
  | none => misuse
  | some file =>
    command { verb, file, json := p.json, out := p.out
              config := (p.config.or config).getD Settings.fileName }

/-- The arguments of a command. -/
def ofCommand (verb : Verb) (config : Option String) (p : Progress) : List Argument → Demand
  | [] => complete verb config p
  | .help :: _ => help (.command verb)
  | a :: rest => ((advance verb p a).map (ofCommand verb config · rest)).getD misuse

/-- What is asked for after the word `help`. -/
def ofHelp : List Argument → Demand
  | [] => help .program
  | [.word text] => ((Topic.ofWord? text).map help).getD misuse
  | _ => misuse

/-- The arguments in front of a command, and the command. -/
def ofArguments (config : Option String) : List Argument → Demand
  | .config path :: rest => ((setOnce config path).map (ofArguments · rest)).getD misuse
  | .help :: _ => help .program
  | .version :: _ => version
  | .word text :: rest =>
    if text = helpWord then ofHelp rest
    else ((Verb.ofWord? text).map fun verb => ofCommand verb config {} rest).getD misuse
  | _ => misuse

/-- What the words of a command line ask for. -/
def ofWords (words : List String) : Demand := ofArguments none (Argument.ofWords words)

end Demand

end SceneGraph.CommandLine
