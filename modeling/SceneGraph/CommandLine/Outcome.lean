import SceneGraph.CommandLine.Help
import SceneGraph.Document.Writing
import SceneGraph.Manager
import SceneGraph.Report

/-!
# Outcomes

What the program does for a request: it prints something and ends with a code (`Outcome`), or it has a
text to write into a file first (`Effect`). A failure is told with its causes, from the outermost
to the innermost (`failureText`).
-/

namespace SceneGraph.CommandLine

/-- How the program ends. -/
structure Outcome where
  code : Nat := 0
  stdout : String := ""
  stderr : String := ""
  deriving DecidableEq, Repr

/-- What the program does in the end. -/
inductive Effect where
  | finish (outcome : Outcome)
  /-- Write a text into a file. -/
  | write (path text : String)
  deriving DecidableEq, Repr

/-- A cause of a failure, its lines set in behind a number if there are several causes. -/
def causeText (number : Option Nat) (cause : String) : String :=
  let first := number.elim "    " fun n => s!"    {n}: "
  let further := number.elim "    " fun _ => "       "
  first ++ ("\n" ++ further).intercalate (cause.splitOn "\n") ++ "\n"

/-- What is told about a failure and its causes. -/
def failureText (context : String) (causes : List String) : String :=
  let numbered := match causes with
    | [cause] => [causeText none cause]
    | causes => causes.zipIdx.map fun (cause, n) => causeText (some n) cause
  s!"Error: {context}\n\nCaused by:\n" ++ String.join numbered

/-- The end of the program after a failure. -/
def failure (context : String) (causes : List String) : Outcome :=
  { code := 1, stderr := failureText context causes }

/-- What is said about a text that is no settings file. -/
def settingsFault : String := "TOML parse error"

/-- The causes that a fault in the settings has. -/
def settingsCauses (e : SettingsError) : List String :=
  match e with
  | .unreadable _ fault => [e.message, fault.message]
  | .invalid _ => [s!"{e.message}: {settingsFault}", settingsFault]

/-- The causes that a failed load has. -/
def loadCauses (e : LoadError) : List String :=
  match e with
  | .unreadable _ fault => [e.message, fault.message]
  | .document (.node inner _) => [e.message, inner.message]
  | _ => [e.message]

/-- The header of the document that is written to a path. -/
def headerFor (path : String) : Header := ((Path.extension? path).bind Header.ofExtension?).getD .vrml

/-- What a command does with the scene that it is about. -/
def Command.onScene (c : Command) (w : World) (s : Scene) : Effect :=
  match c.verb with
  | .inspect =>
    .finish { stdout := if c.json then (s.summary w).pretty ++ "\n" else s.report w }
  | .check =>
    let count := (s.nodes w).length
    .finish { stdout := s!"{c.file}: ok, {count} nodes\n" }
  | .write =>
    let text := s.text w (headerFor (c.out.getD c.file))
    match c.out with
    | some path => .write path text
    | none => .finish { stdout := text }

/-- The manager of the program, with the library of documents. -/
def startManager (settings : Settings) : Manager × World :=
  let documents := Library.documents Catalog.standard settings.documents.fileExtensions
  ({ settings } : Manager).register documents settings.documents.priority {}

/-- Carries out a command with some settings. -/
def Command.runWith (c : Command) (settings : Settings) (storage : Storage) (now : Timestamp) :
    Effect :=
  let (manager, w) := startManager settings
  let request : LoadRequest :=
    { storage
      path := c.file
      extension := Manager.extensionOf c.file
      renders := false
      time := now
      now
      lifetime := .permanent
      control := { watched := false } }
  match manager.load request w with
  | (.error e, _) => .finish (failure s!"loading {c.file}" (loadCauses e))
  | (.ok loaded, _, w) => c.onScene w loaded.scene.scene

/-- Carries out a command. -/
def Command.run (c : Command) (storage : Storage) (now : Timestamp) : Effect :=
  match Settings.load storage c.config with
  | .error e => .finish (failure s!"reading configuration {c.config}" (settingsCauses e))
  | .ok settings => c.runWith settings storage now

/-- What the program does for a request. -/
def Demand.run (r : Demand) (storage : Storage) (now : Timestamp) : Effect :=
  match r with
  | .command c => c.run storage now
  | .help topic => .finish { stdout := topic.text }
  | .version => .finish { stdout := versionText }
  | .misuse => .finish { code := 2, stderr := programHelp }

/-- The end of the program after it tried to write a file. -/
def Outcome.ofWrite (path : String) : Except StorageFault Unit → Outcome
  | .ok _ => {}
  | .error fault => failure s!"writing {path}" [fault.message]

/-- What the program does for a request in a tree of files. -/
def Demand.runIn (r : Demand) (tree : FileTree) (now : Timestamp) : Outcome × FileTree :=
  match r.run tree.storage now with
  | .finish outcome => (outcome, tree)
  | .write path text =>
    match tree.write path text with
    | .ok tree => (.ofWrite path (.ok ()), tree)
    | .error fault => (.ofWrite path (.error fault), tree)

end SceneGraph.CommandLine
