import SceneGraph.Journal
import SceneGraph.Path
import SceneGraph.Registry
import SceneGraph.Traversal

/-!
# Worlds

A `World` is everything that exists at one moment: the live nodes, the registry that lists them, the
layouts of the types met so far, and who holds nodes from outside the graph (`held`, one entry for
every handle). The cascade stack names the fields that are being set right now, the innermost
first. What happened is in the journal.

A node is held as long as a handle or a node field of a live node refers to it (`World.isHeld`);
`SceneGraph.World.Release` tells what happens when the last holder lets go.
-/

namespace SceneGraph

structure World where
  registry : Registry := {}
  /-- The live nodes in the order they were made. -/
  nodes : List Node := []
  /-- The layouts of the types met so far, by name. -/
  specifications : List Specification := []
  /-- The handles outside the graph. -/
  held : List NodeId := []
  /-- The fields being set, the innermost first. -/
  cascade : List (NodeId × String) := []
  journal : Journal := []

namespace World

/-! ### Journal -/

/-- Enters something into the journal. -/
def enter (w : World) (e : Entry) : World := { w with journal := e :: w.journal }

def log (w : World) (level : Level) (text : String) : World := w.enter (.log level text)

def tell (w : World) (e : Event) : World := w.enter (.event e)

def step (w : World) (s : Step) : World := w.enter (.step s)

/-! ### Nodes -/

/-- The live node of an id. -/
def node? (w : World) (id : NodeId) : Option Node := w.nodes.find? (·.id == id)

def isLive (w : World) (id : NodeId) : Bool := w.nodes.any (·.id == id)

/-- Changes a live node; its id stays. -/
def modify (w : World) (id : NodeId) (f : Node → Node) : World :=
  { w with nodes := w.nodes.map fun n => if n.id = id then f n else n }

def liveIds (w : World) : List NodeId := w.nodes.map (·.id)

/-- The type and the name of a node in JSON. -/
def describe (w : World) (id : NodeId) : Json :=
  match w.node? id with
  | some n => .object [("id", .int id.value), ("name", .string n.name), ("type", .string n.typeName)]
  | none => .null

/-! ### Who holds what -/

/-- All references between live nodes. -/
def references (w : World) : List NodeId := w.nodes.flatMap Node.references

/-- A handle or a field of a live node refers to the node. -/
def isHeld (w : World) (id : NodeId) : Bool := w.held.contains id || w.references.contains id

/-- Takes a handle of a node. -/
def hold (w : World) (id : NodeId) : World := { w with held := id :: w.held }

def holdAll (w : World) (ids : List NodeId) : World := { w with held := ids ++ w.held }

/-! ### Names -/

/-- The live nodes that go by a name, in the order they took it. -/
def named (w : World) (name : String) : List Node :=
  (w.registry.idsNamed name).filterMap w.node?

/-- The first node that goes by a name. -/
def find? (w : World) (name : String) : Option Node := (w.named name).head?

/-- The first node of a scene that goes by a name. -/
def findInScene? (w : World) (name : String) (scene : NodeId) : Option Node :=
  (w.named name).find? (·.environment.scene == scene)

/-- The first node of a file that goes by a name. -/
def findInFile? (w : World) (name file : String) : Option Node :=
  (w.named name).find? fun n => Path.same n.environment.filename file

/-- Moves an entry of the registry from one name to another, whatever the node itself is called. -/
def renameEntry (w : World) (id : NodeId) (old new : String) : World :=
  { w with registry := w.registry.rename id old new }

/-- Renames a node; nothing happens if the name is the same. -/
def setName (w : World) (id : NodeId) (name : String) : World :=
  match w.node? id with
  | some n =>
    if n.name = name then w
    else { w.modify id ({ · with name }) with registry := w.registry.rename id n.name name }
  | none => w

/-! ### Ancestors -/

/-- The ids in the list of parents of a live node. -/
def parentsOf (w : World) (id : NodeId) : List NodeId := ((w.node? id).map Node.parentIds).getD []

/-- A node and every node reached upwards from it through parents, live or not. -/
def ancestors (w : World) (id : NodeId) : List NodeId :=
  id :: preorder w.parentsOf w.liveIds (w.parentsOf id) [id]

/-! ### Making nodes -/

/-- The layout of a type: the one met first, or else the one with the given fields. -/
def specification (w : World) (typeName : String) (fields : List FieldSpec) :
    Except LayoutError (Specification × World) :=
  match w.specifications.find? (·.typeName == typeName) with
  | some s => .ok (s, w)
  | none =>
    match Specification.ofFields typeName fields with
    | .ok s => .ok (s, { w with specifications := w.specifications ++ [s] })
    | .error e => .error e

/-- The names of the types met so far, sorted. -/
def typeNames (w : World) : List String :=
  (w.specifications.map (·.typeName)).mergeSort fun a b => a ≤ b

/-- Uses up an id. -/
def nextId (w : World) : NodeId × World :=
  let (id, registry) := w.registry.nextId
  (id, { w with registry })

/-- Adds a fresh node with an id handed out before, and takes a handle of it. -/
def addNode (w : World) (id : NodeId) (spec : Specification) (behavior : Behavior)
    (environment : Environment) : World :=
  let node := Node.fresh id spec behavior environment
  ({ w with
    nodes := w.nodes ++ [node]
    registry := w.registry.register id node.capabilities }.hold id).step (.created id)

/-- Makes a node and takes a handle of it. -/
def create (w : World) (spec : Specification) (behavior : Behavior) (environment : Environment) :
    NodeId × World :=
  let (id, w) := w.nextId
  (id, w.addNode id spec behavior environment)

end World

end SceneGraph
