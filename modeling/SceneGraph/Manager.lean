import SceneGraph.Library.Documents

/-!
# Managers

A `Manager` knows the libraries of a host and keeps the permanent scenes. Libraries are registered
under their names, which counts registrations, and stand in descending order of priority, those of
equal priority in the order in which they came. A load asks the libraries that support the extension
of the file one after the other (`Manager.attempts`): first those that make permanent scenes, then
those that make transient ones only. The first scene is the answer.
-/

namespace SceneGraph

/-- A library in the list of a manager. -/
structure Registration where
  library : Library
  priority : Int
  /-- How often the library was registered and not unregistered. -/
  count : Nat

structure Manager where
  settings : Settings := {}
  registrations : List Registration := []
  /-- The permanent scenes, the oldest first. -/
  scenes : List Scene := []

/-- What a load gives the host: a scene, with a handle of its root. -/
structure Loaded where
  scene : LoadedScene
  /-- The part of the file that has been read. -/
  progress : Float32

namespace Manager

variable (m : Manager)

/-! ### Libraries -/

/-- The library of a name is registered. -/
def hasLibrary (name : String) : Bool := m.registrations.any (·.library.name == name)

/-- Puts a library in front of the first one of lower priority. -/
def insert (r : Registration) : List Registration → List Registration
  | [] => [r]
  | x :: rest => if x.priority < r.priority then r :: x :: rest else x :: insert r rest

/-- Registers a library, or counts once more the one that is registered under its name. -/
def register (l : Library) (priority : Int) (w : World) : Manager × World :=
  if m.hasLibrary l.name then
    ({ m with registrations := m.registrations.map fun r =>
        if r.library.name == l.name then { r with count := r.count + 1 } else r }, w)
  else
    ({ m with registrations := insert ⟨l, priority, 1⟩ m.registrations },
      w.log .info s!"registered library '{l.name}' (priority {priority})")

/-- Takes one registration back; the last one takes the library off the list. False if no library of
the name is registered. -/
def unregister (name : String) (w : World) : Bool × Manager × World :=
  match m.registrations.find? (·.library.name == name) with
  | none => (false, m, w)
  | some r =>
    if r.count ≤ 1 then
      (true, { m with registrations := m.registrations.filter (·.library.name != name) },
        w.log .info s!"unregistered library '{name}'")
    else
      (true, { m with registrations := m.registrations.map fun r =>
        if r.library.name == name then { r with count := r.count - 1 } else r }, w)

/-! ### Loading -/

/-- The places where a path may lead: an absolute path only to itself, a relative one also to the search
paths. -/
def places (storage : Storage) (path : String) : List String :=
  if Path.isAbsolute path then [path]
  else (storage.workingDirectory :: m.settings.searchPaths).map (Path.join · path)

/-- The first place with a file. -/
def resolve (storage : Storage) (path : String) : Option String :=
  (m.places storage path).find? storage.isFile

/-- The libraries to ask for a file with some extension, each with the lifetime to ask for. -/
def attempts (extension : String) : List (Library × Lifetime) :=
  let candidates := (m.registrations.map (·.library)).filter (·.supports extension)
  (candidates.filter (·.lifetimes.permanent)).map (·, .permanent) ++
    (candidates.filter fun l => !l.lifetimes.permanent && l.lifetimes.transient).map (·, .transient)

/-- Asks libraries one after the other; the last failure counts if none has a scene. -/
def search (r : LoadRequest) :
    List (Library × Lifetime) → LoadError → LoadState → Except LoadError LoadedScene × LoadState
  | [], last, s => (.error last, s)
  | (l, lifetime) :: rest, last, s =>
    if r.control.isCancelled s.asked then (.error (.document .cancelled), s)
    else
      match l.load { r with lifetime } { s with world := s.world.step (.offered l.name r.path) } with
      | (.loaded scene, s) => (.ok scene, s)
      | (.declined, s) =>
        search r rest last
          { s with world := s.world.log .debug s!"library '{l.name}' declined {r.path}" }
      | (.failed e, s) =>
        if e.endsSearch then (.error e, s)
        else
          search r rest e
            { s with world :=
              s.world.log .warn s!"library '{l.name}' failed to load {r.path}: {e.message}" }

/-- The permanent scene of an id. -/
def scene? (id : NodeId) : Option Scene := m.scenes.find? (·.root == id)

/-- Puts a scene into a list sorted by id, in the place of one of its id if there is one. -/
def insertScene (s : Scene) : List Scene → List Scene
  | [] => [s]
  | x :: rest =>
    if s.root.value < x.root.value then s :: x :: rest
    else if s.root = x.root then s :: rest
    else x :: insertScene s rest

/-- Keeps a permanent scene, with a handle of its own, and lets go of one that it replaces. -/
def keep (loaded : LoadedScene) (w : World) : Manager × World :=
  match loaded with
  | .permanent s =>
    let kept := w.hold s.root
    ({ m with scenes := insertScene s m.scenes },
      match m.scene? s.root with
      | some old => old.drop kept
      | none => kept)
  | .transient .. => (m, w)

/-- The extension of a path in lower case, empty if there is none. -/
def extensionOf (path : String) : String := ((Path.extension? path).getD "").toLower

/-- Loads a file. -/
def load (r : LoadRequest) (w : World) : Except LoadError Loaded × Manager × World :=
  match m.resolve r.storage r.path with
  | none => (.error (.notFound r.path), m, w)
  | some path =>
    let extension := extensionOf path
    let request := { r with path, extension }
    match search request (m.attempts extension) (.unsupportedExtension path extension)
        { world := w } with
    | (.error e, s) => (.error e, m, s.world)
    | (.ok scene, s) =>
      let (m, w) := m.keep scene s.world
      (.ok ⟨scene, s.progress⟩, m, w)

/-! ### Permanent scenes -/

/-- Lets go of a permanent scene. False if there is none of the id. -/
def unload (id : NodeId) (w : World) : Bool × Manager × World :=
  match m.scene? id with
  | none => (false, m, w)
  | some s => (true, { m with scenes := m.scenes.filter (·.root != id) }, s.drop w)

/-- Lets go of all permanent scenes, the newest first. -/
def unloadAll (w : World) : Manager × World :=
  ({ m with scenes := [] },
    m.scenes.reverse.foldl (fun w s => s.drop (w.log .debug s!"unloading scene #{s.root}")) w)

end Manager

end SceneGraph
