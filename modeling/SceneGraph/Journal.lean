import SceneGraph.Field.Basic
import SceneGraph.Node.Error
import SceneGraph.Timestamp

/-!
# The journal

Everything that happens in a world is entered into its journal, newest entry first. An entry is a
message for people (`Entry.log`), something that a recorder or the host's renderer was told
(`Entry.event`), or a step of the world's own work (`Entry.step`). The log and the list of events
are read off the journal.
-/

namespace SceneGraph

/-- How grave a message is. -/
inductive Level where
  | error | warn | info | debug
  deriving DecidableEq, Repr

def Level.text : Level → String
  | error => "ERROR"
  | warn => "WARN"
  | info => "INFO"
  | debug => "DEBUG"

inductive MouseAction where
  | press | release | move
  deriving DecidableEq, Repr

/-- What recorders, the host's renderer and libraries for rehearsals are told. -/
inductive Event where
  | adopted (node : NodeId) (name : String)
  | setUp (node : NodeId) (time : Timestamp) (first : Bool)
  | changing (node : NodeId) (field : String) (initialized : Bool)
  | changed (node : NodeId) (field : String) (value : Field)
  | refused (error : NodeError)
  /-- Sorted parents, sorted ancestors, references, and the number called `count`. -/
  | surveyed (parents ancestors references : List NodeId) (count : Except NodeError Float32)
  | destroyed (node : NodeId) (name : String)
  | updated (node : NodeId) (time : Timestamp)
  | mouse (node : NodeId) (action : MouseAction) (button : Nat)
  | key (node : NodeId) (key : Nat)
  | rendered (nodeType : String) (node : NodeId)
  | attached (parent child : NodeId)
  | detached (parent child : NodeId)
  | loading (library extension kind : String)
  | applied (scene : NodeId)

/-- One step of the world's own work. -/
inductive Step where
  | created (node : NodeId)
  | destroyed (node : NodeId)
  /-- A node and one of its fields are put on the cascade stack. -/
  | entered (node : NodeId) (field : String)
  /-- The last entry of the cascade stack is taken off. -/
  | left
  /-- A field takes over a value. -/
  | stored (node : NodeId) (field : String) (value : Field)
  /-- A value was taken along a route; `error` tells why the target refused it. -/
  | followed (source : NodeId) (output : String) (target : NodeId) (field : String) (value : Field)
      (error : Option NodeError)
  | adopting (node : NodeId)
  | settingUp (node : NodeId)
  | updating (node : NodeId)
  | offeringInput (node : NodeId)
  /-- A document asks for a node of a type. -/
  | asked (nodeType : String)
  /-- A library is asked to load a file. -/
  | offered (library path : String)

inductive Entry where
  | log (level : Level) (text : String)
  | event (e : Event)
  | step (s : Step)

/-- The entries of a world, newest first. -/
abbrev Journal := List Entry

namespace Journal

/-- The messages in order, each with its level in front. -/
def messages (j : Journal) : List String :=
  j.reverse.filterMap fun
    | .log level text => some s!"{level.text} {text}"
    | _ => none

/-- The events in order. -/
def events (j : Journal) : List Event :=
  j.reverse.filterMap fun
    | .event e => some e
    | _ => none

end Journal

end SceneGraph
