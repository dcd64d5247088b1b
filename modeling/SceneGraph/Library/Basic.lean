import SceneGraph.Document.Reading
import SceneGraph.Library.FileExtension
import SceneGraph.Storage

/-!
# Libraries

A `Library` loads files with certain extensions into scenes. It says which lifetimes of scenes it can
produce, and a request asks for one of them. A library may decline a request, fail, or answer with a
scene: a permanent one, which is kept, or a transient one together with the step that applies it
(`LoadedScene`).
-/

namespace SceneGraph

/-- How long a scene that was loaded is kept. -/
inductive Lifetime where
  /-- Until it is unloaded. -/
  | permanent
  /-- Until it is applied. -/
  | transient
  deriving DecidableEq, Repr

/-- The lifetimes of the scenes that a library can produce. -/
structure Lifetimes where
  permanent : Bool := false
  transient : Bool := false
  deriving DecidableEq, Repr

/-- The lifetimes as diagnostics show them. -/
def Lifetimes.debugText (k : Lifetimes) : String :=
  match k.permanent, k.transient with
  | true, true => "PERMANENT|TRANSIENT"
  | true, false => "PERMANENT"
  | false, true => "TRANSIENT"
  | false, false => "NONE"

/-- A lifetime as the only one. -/
def Lifetime.only : Lifetime → Lifetimes
  | permanent => { permanent := true }
  | transient => { transient := true }

/-- Why a file cannot be loaded. -/
inductive LoadError where
  | notFound (path : String)
  | unsupportedExtension (path extension : String)
  | unreadable (path : String) (fault : StorageFault)
  | document (error : ReadError)
  deriving DecidableEq, Repr

namespace LoadError

/-- The name of the cause. -/
def name : LoadError → String
  | notFound _ => "NotFound"
  | unsupportedExtension .. => "UnsupportedExtension"
  | unreadable .. => "Io"
  | document e => e.name

def message : LoadError → String
  | notFound path => s!"file not found: {path}"
  | unsupportedExtension path extension => s!"no library loads .{extension} files ({path})"
  | unreadable path fault => s!"failed to read {path}: {fault.message}"
  | document e => e.message

/-- No other library is asked after such an error. -/
def endsSearch : LoadError → Bool
  | document .cancelled | document (.layout _) => true
  | _ => false

end LoadError

/-- What a library is asked to load. -/
structure LoadRequest where
  storage : Storage
  path : String
  /-- The extension of the path in lower case, without a dot. -/
  extension : String
  renders : Bool
  /-- The time that values are set at; unset stands for now. -/
  time : Timestamp
  /-- What the clock shows. -/
  now : Timestamp
  lifetime : Lifetime
  control : LoadControl

/-- A scene that a library made. A handle of its root is taken. -/
inductive LoadedScene where
  | permanent (scene : Scene)
  /-- The step applies the scene to the host. -/
  | transient (scene : Scene) (apply : World → World)

def LoadedScene.scene : LoadedScene → Scene
  | permanent s => s
  | transient s _ => s

/-- A scene that was loaded as diagnostics show it. -/
def LoadedScene.debugText : LoadedScene → String
  | permanent s => s!"Scene(NodeId({s.root}))"
  | transient s _ => "TransientScene \x7b " ++ s!"scene: NodeId({s.root}), .." ++ " \x7d"

/-- What a library answers. -/
inductive LoadAnswer where
  | declined
  | loaded (scene : LoadedScene)
  | failed (error : LoadError)

/-- The world while a file is loaded, and what the host sees of the work. -/
structure LoadState where
  world : World
  /-- How many nodes have been asked for. -/
  asked : Nat := 0
  /-- The part of the file that has been read. -/
  progress : Float32 := 0

structure Library where
  name : String
  lifetimes : Lifetimes
  extensions : List FileExtension
  load : LoadRequest → LoadState → LoadAnswer × LoadState

namespace Library

/-- The library loads files with an extension, in upper or lower case. -/
def supports (l : Library) (extension : String) : Bool :=
  l.extensions.any (·.extension.toLower == extension.toLower)

end Library

/-- Adds an extension to a list, or describes anew one that is there. -/
def FileExtension.register (known : List FileExtension) (e : FileExtension) : List FileExtension :=
  if known.any (·.extension == e.extension) then
    known.map fun k => if k.extension == e.extension then e else k
  else known ++ [e]

end SceneGraph
