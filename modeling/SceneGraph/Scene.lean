import SceneGraph.Catalog
import SceneGraph.World.Sensor

/-!
# Scenes

A scene is a grouping node of its own type, the root, whose children are the top-level nodes of a
document, together with the profile and the metadata of the document and the time its values were
set. The nodes of a scene (`Scene.nodes`) are those reached from the root along references, each at
its first visit in depth-first order.
-/

namespace SceneGraph

structure Scene where
  /-- The root, whose id is the id of the scene. -/
  root : NodeId
  profile : Option String := none
  /-- Keys and values; a key keeps the place where it was first set. -/
  metadata : List (String × String) := []
  time : Timestamp

namespace Scene

/-- The type of every root. -/
def typeName : String := "Scene"

/-- Makes a scene without children. A handle of its root is taken. The layout of roots is the one met
first, like that of every other type. -/
def create (w : World) (library filename : String) (renders : Bool) (time : Timestamp) :
    Scene × World :=
  let (id, w) := w.nextId
  let (spec, w) :=
    match w.specification typeName groupingFields with
    | .ok r => r
    | .error _ => (⟨typeName, groupingFields⟩, w)
  let environment := { library, filename, scene := id, renders }
  ({ root := id, time }, w.addNode id spec .grouping environment)

/-- Sets an entry of the metadata. -/
def insertMetadata (s : Scene) (key value : String) : Scene :=
  if s.metadata.any (·.1 == key) then
    { s with metadata := s.metadata.map fun (k, v) => if k == key then (k, value) else (k, v) }
  else { s with metadata := s.metadata ++ [(key, value)] }

variable (s : Scene)

/-- The top-level nodes. -/
def children (w : World) : List NodeId := w.children s.root

/-- Replaces the top-level nodes. -/
def setChildren (w : World) (ids : List NodeId) : Except NodeError Unit × World :=
  w.setField s.root childrenField (.nodes ids s.time)

/-- Sets up the root and everything reached from it. -/
def setUp (w : World) : World := w.initializeNode s.root s.time

/-- Lets go of the root. -/
def drop (w : World) : World := w.drop s.root

/-- The first node of the scene that goes by a name. -/
def find? (w : World) (name : String) : Option NodeId := (w.findInScene? name s.root).map (·.id)

/-- Every node reached from the root along references, in depth-first order, without the root. -/
def nodes (w : World) : List NodeId :=
  preorder w.referencesOf w.liveIds (w.referencesOf s.root) [s.root]

/-- Every route leaving the root or a node of the scene: its source, the field it leaves, and where it
leads. -/
def routes (w : World) : List (NodeId × String × Route) :=
  (s.root :: s.nodes w).flatMap fun id =>
    (((w.node? id).map Node.connections).getD []).map fun (field, route) => (id, field, route)

end Scene

end SceneGraph
