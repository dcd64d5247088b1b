import SceneGraph.Document.Writing
import SceneGraph.Library.Rehearsal
import SceneGraph.Manager
import SceneGraph.Placement
import SceneGraph.Report
import SceneGraph.World.Frame

/-!
# Sessions

A `Session` is a host at work: one world, and the handles that the host holds by names of its own
choice, on nodes, environments and scenes, perhaps with a manager. A name given again stands for the
new thing, and the old one is let go after the new one is there.

Nodes are spoken of by references: the name of a handle, `#` with an id, or the name of a scene and
of a node in it with a slash between (`Session.node?`). A node that a request speaks of is held
until the request is answered (`Session.withNode`).
-/

namespace SceneGraph

structure Session where
  world : World := {}
  /-- The types of nodes that can be made. -/
  catalog : Catalog := Catalog.standard
  storage : Storage
  /-- What the clock shows. -/
  now : Timestamp
  nodes : List (String × NodeId) := []
  environments : List (String × Environment) := []
  scenes : List (String × Scene) := []
  /-- Transient scenes that are not applied yet, each with the step that applies it. -/
  transients : List (String × Scene × (World → World)) := []
  manager : Option Manager := none

/-- Why a request cannot be met. -/
inductive SessionError where
  | noNode (reference : String)
  | noScene (name : String)
  | noEnvironment (name : String)
  | noManager
  | node (error : NodeError)
  | layout (error : LayoutError)
  | read (error : ReadError)
  | load (error : LoadError)
  deriving DecidableEq, Repr

namespace SessionError

/-- The name of the cause. -/
def name : SessionError → String
  | noNode _ => "NoSuchNode"
  | noScene _ => "NoSuchScene"
  | noEnvironment _ => "NoSuchEnvironment"
  | noManager => "NoManager"
  | node e => e.name
  | layout _ => "panic"
  | read e => e.name
  | load e => e.name

def message : SessionError → String
  | noNode reference => reference
  | noScene name => name
  | noEnvironment name => name
  | noManager => "there is no manager"
  | node e => e.message
  | layout e => e.message
  | read e => e.message
  | load e => e.message

end SessionError

/-- A request to a session. -/
abbrev Request (α : Type) := ExceptT SessionError (StateM Session) α

/-- A node that a request names: by its id, or by a reference. -/
inductive Target where
  | id (id : NodeId)
  | reference (text : String)
  deriving DecidableEq, Repr

/-- A value that a request gives, whose nodes are named by references. -/
inductive Given where
  | plain (value : Field)
  | node (reference : Option String) (time : Timestamp)
  | nodes (references : List (Option String)) (time : Timestamp)

/-- Where a request makes a node. -/
inductive Place where
  | detached
  | environment (name : String)
  | scene (name : String)
  deriving DecidableEq, Repr

namespace Session

variable {α β : Type}

/-- What a name of the host stands for. -/
def lookup (entries : List (String × α)) (name : String) : Option α :=
  (entries.find? (·.1 == name)).map (·.2)

/-- A list of names with one of them moved to the end, for something new. -/
def rebind (entries : List (String × α)) (name : String) (a : α) : List (String × α) :=
  entries.filter (·.1 != name) ++ [(name, a)]

/-! ### The world -/

/-- Changes the world. -/
def act (f : World → World) : Request Unit := modify fun s => { s with world := f s.world }

/-- Does something to the world and answers with what comes of it. -/
def ask (f : World → α × World) : Request α := do
  let s ← get
  let (a, w) := f s.world
  set { s with world := w }
  return a

/-- Does something to the world that may be refused. -/
def attempt (f : World → Except NodeError α × World) : Request α := do
  match ← ask f with
  | .ok a => return a
  | .error e => throw (.node e)

/-- The result of a request, failure included. -/
def settle (p : Request α) : Request (Except SessionError α) := ExceptT.mk do
  let r ← p.run
  return .ok r

/-- Meets a request and then changes the world, also if the request fails. -/
def ensuring (p : Request α) (f : World → World) : Request α := do
  match ← settle p with
  | .ok a => act f; return a
  | .error e => act f; throw e

/-! ### Nodes -/

/-- The digits of an id. -/
def idText? (cs : List Char) : Option NodeId :=
  if cs.isEmpty || !cs.all Char.isDigit then none
  else some ⟨cs.foldl (fun n c => 10 * n + (c.toNat - '0'.toNat)) 0⟩

/-- The node that a reference means. A scene's name with a slash alone means its root. -/
def node? (s : Session) (reference : String) : Option NodeId :=
  match lookup s.nodes reference with
  | some id => some id
  | none =>
    match reference.toList with
    | '#' :: digits => (idText? digits).filter s.world.isLive
    | cs =>
      if cs.contains '/' then
        let scene := String.ofList (cs.takeWhile (· ≠ '/'))
        let name := String.ofList ((cs.dropWhile (· ≠ '/')).drop 1)
        (lookup s.scenes scene).bind fun scene =>
          if name = "" then some scene.root else scene.find? s.world name
      else none

/-- The node that a reference means. -/
def node (reference : String) : Request NodeId := do
  match (← get).node? reference with
  | some id => return id
  | none => throw (.noNode reference)

/-- The id that a target names; an id need not be that of a live node. -/
def idOf : Target → Request NodeId
  | .id id => return id
  | .reference text => node text

/-- Holds the node that a reference means while something is done with it. -/
def withNode (reference : String) (p : NodeId → Request α) : Request α := do
  let id ← node reference
  act (·.hold id)
  ensuring (p id) (·.drop id)

/-- Reads something off a node. -/
def view (reference : String) (f : World → Node → α) : Request α :=
  withNode reference fun id => do
    let w := (← get).world
    match w.node? id with
    | some n => return f w n
    | none => throw (.noNode reference)

/-- Reads something off a node that may be refused. -/
def read (reference : String) (f : Node → Except NodeError α) : Request α := do
  match ← view reference fun _ n => f n with
  | .ok a => return a
  | .error e => throw (.node e)

/-- Holds the nodes that references mean, in order; if one means none, those before it are let go. -/
def holdNodes : List (Option String) → List NodeId → Request (List (Option NodeId))
  | [], _ => return []
  | none :: rest, before => do return none :: (← holdNodes rest before)
  | some reference :: rest, before => do
    match (← get).node? reference with
    | some id =>
      act (·.hold id)
      return some id :: (← holdNodes rest (before ++ [id]))
    | none =>
      act (·.dropAll before)
      throw (.noNode reference)

/-- Holds the nodes of a value while something is done with it. -/
def withValue (given : Given) (p : Field → Request α) : Request α := do
  match given with
  | .plain value => p value
  | .node reference time =>
    let ids ← holdNodes [reference] []
    ensuring (p (.single .node (ids.head?.bind id) time)) (·.dropAll (ids.filterMap id))
  | .nodes references time =>
    let ids ← holdNodes references []
    ensuring (p (.multi .node ids time)) (·.dropAll (ids.filterMap id))

/-- Gives a value to a field of a node in some way. -/
def give (reference field : String) (given : Given)
    (way : World → NodeId → String → Field → Except NodeError Unit × World) : Request Unit :=
  withNode reference fun id => withValue given fun value => attempt fun w => way w id field value

/-! ### Handles -/

/-- Names a handle of a node that was taken before. -/
def bindNode (name : String) (id : NodeId) : Request Unit := do
  let s ← get
  set { s with nodes := rebind s.nodes name id }
  match lookup s.nodes name with
  | some old => act (·.drop old)
  | none => pure ()

/-- Takes another handle of a node. -/
def hold (name reference : String) : Request NodeId :=
  withNode reference fun id => do
    act (·.hold id)
    bindNode name id
    return id

/-- Lets go of a handle. False if there is none of the name. -/
def drop (name : String) : Request Bool := do
  let s ← get
  match lookup s.nodes name with
  | none => return false
  | some id =>
    set { s with nodes := s.nodes.filter (·.1 != name) }
    act (·.drop id)
    return true

/-- Names an environment. -/
def addEnvironment (name : String) (e : Environment) : Request Unit :=
  modify fun s => { s with environments := rebind s.environments name e }

/-! ### Scenes -/

/-- The scene of a name. -/
def scene (name : String) : Request Scene := do
  match lookup (← get).scenes name with
  | some s => return s
  | none => throw (.noScene name)

/-- Reads something off a scene. -/
def viewScene (name : String) (f : World → Scene → α) : Request α := do
  let scene ← scene name
  return f (← get).world scene

/-- Names a scene whose root is held. -/
def bindScene (name : String) (scene : Scene) : Request Unit := do
  let s ← get
  set { s with scenes := rebind s.scenes name scene }
  match lookup s.scenes name with
  | some old => act old.drop
  | none => pure ()

/-- Makes a scene without nodes. -/
def addScene (name library file : String) (renders : Bool) (time : Timestamp) : Request Scene := do
  let scene ← ask fun w => Scene.create w library file renders time
  bindScene name scene
  return scene

/-- Reads a document into a scene. -/
def readDocument (name : String) (d : Document) : Request Scene := do
  let s ← get
  let out := d.read s.world
  set { s with world := out.world }
  match out.result with
  | .ok scene => bindScene name scene; return scene
  | .error e => throw (.read e)

/-- Lets go of a scene. False if there is none of the name. -/
def dropScene (name : String) : Request Bool := do
  let s ← get
  match lookup s.scenes name with
  | none => return false
  | some scene =>
    set { s with scenes := s.scenes.filter (·.1 != name) }
    act scene.drop
    return true

/-- Replaces the top-level nodes of a scene. -/
def setChildren (name : String) (references : List (Option String)) : Request Unit := do
  let scene ← scene name
  let ids := (← holdNodes references []).filterMap id
  ensuring (attempt (scene.setChildren · ids)) (·.dropAll ids)

/-- Makes a node. Nothing is made if no type of the name is known. -/
def create (name typeName : String) (place : Place) : Request (Option NodeId) := do
  let s ← get
  let environment ←
    match place with
    | .detached => pure .detached
    | .environment name =>
      match lookup s.environments name with
      | some e => pure e
      | none => throw (.noEnvironment name)
    | .scene name => viewScene name fun w scene => scene.environment w
  match s.world.createOfType s.catalog typeName environment with
  | .error e => throw (.layout e)
  | .ok (none, _) => return none
  | .ok (some id, w) =>
    set { s with world := w }
    bindNode name id
    return some id

/-! ### The manager -/

/-- Does something with the manager. -/
def manage (f : Manager → World → α × Manager × World) : Request α := do
  let s ← get
  match s.manager with
  | none => throw .noManager
  | some m =>
    let (a, m, w) := f m s.world
    set { s with world := w, manager := some m }
    return a

/-- The settings of the manager, or the defaults if there is none. -/
def settings : Request Settings := do return ((← get).manager.map (·.settings)).getD {}

/-- Registers a library. -/
def register (library : Library) (priority : Int) : Request Unit :=
  manage fun m w => ((), m.register library priority w)

/-- The library of documents for this session. -/
def documents (extensions : List FileExtension) : Request Library := do
  return .documents (← get).catalog extensions

/-- A request for a file. -/
def loadRequest (path : String) (time : Timestamp) (lifetime : Lifetime) (renders : Bool)
    (control : LoadControl) : Request LoadRequest := do
  let s ← get
  return {
    storage := s.storage
    path
    extension := Manager.extensionOf path
    renders
    time
    now := s.now
    lifetime
    control }

/-- Names a transient scene with the step that applies it. -/
def bindTransient (name : String) (scene : Scene) (step : World → World) : Request Unit := do
  let s ← get
  set { s with transients := rebind s.transients name (scene, step) }
  match lookup s.transients name with
  | some old => act old.1.drop
  | none => pure ()

/-- Loads a file and names the scene. A permanent scene may be let go of at once. What comes of the load
is read off before. -/
def load (name path : String) (time : Timestamp) (renders : Bool) (control : LoadControl)
    (keep : Bool) (f : World → Loaded → α) : Request α := do
  let request ← loadRequest path time .permanent renders control
  match ← manage fun m w => m.load request w with
  | .error e => throw (.load e)
  | .ok loaded =>
    let a := f (← get).world loaded
    match loaded.scene with
    | .permanent scene => if keep then bindScene name scene else act scene.drop
    | .transient scene step => bindTransient name scene step
    return a

/-- Asks a library for a file without a manager, and lets go of the scene again. What comes of the scene
is read off before. -/
def loadWith (library : Library) (request : LoadRequest) (f : World → Scene → α) :
    Request (Option α) := do
  match ← ask fun w => let (answer, s) := library.load request { world := w }; (answer, s.world) with
  | .declined => return none
  | .failed e => throw (.load e)
  | .loaded scene =>
    let a := f (← get).world scene.scene
    act scene.scene.drop
    return some a

/-- Applies a transient scene and lets go of it. -/
def apply (name : String) : Request NodeId := do
  let s ← get
  match lookup s.transients name with
  | none => throw (.noScene name)
  | some (scene, step) =>
    set { s with transients := s.transients.filter (·.1 != name) }
    act fun w => scene.drop (step w)
    return scene.root

/-- Ends the manager, which lets go of all permanent scenes. -/
def endManager : Request Unit := do
  let s ← get
  match s.manager with
  | none => pure ()
  | some m => set { s with manager := none, world := (m.unloadAll s.world).2 }

/-- Ends the session: handles go in the order in which they were named, then scenes, transient scenes
and the manager. -/
def close : Request Unit := do
  let s ← get
  set { s with nodes := [], scenes := [], transients := [], environments := [] }
  act fun w => s.nodes.foldl (fun w (_, id) => w.drop id) w
  act fun w => s.scenes.foldl (fun w (_, scene) => scene.drop w) w
  act fun w => s.transients.foldl (fun w (_, scene, _) => scene.drop w) w
  endManager

end Session

end SceneGraph
