import SceneGraph.Node.Basic

/-!
# The registry

The registry hands out ids and lists the live nodes: all of them, those that go by a name, and those
that take part in frames or receive input. Every list is in the order in which its entries arrived;
a node arrives anew in the list of names when it takes another name.
-/

namespace SceneGraph

structure Registry where
  /-- The last id handed out. -/
  lastId : Nat := 0
  /-- The live nodes. -/
  ids : List NodeId := []
  /-- The names in use, each with a node that goes by it. -/
  names : List (String × NodeId) := []
  /-- The nodes that take part in frames. -/
  updating : List NodeId := []
  /-- The nodes that receive input. -/
  sensing : List NodeId := []
  deriving DecidableEq, Repr

namespace Registry

/-- Hands out the next id. -/
def nextId (r : Registry) : NodeId × Registry := (⟨r.lastId + 1⟩, { r with lastId := r.lastId + 1 })

/-- Lists a new node. -/
def register (r : Registry) (id : NodeId) (c : Capabilities) : Registry :=
  { r with
    ids := r.ids ++ [id]
    updating := if c.update then r.updating ++ [id] else r.updating
    sensing := if c.event then r.sensing ++ [id] else r.sensing }

/-- Forgets that a node goes by a name. -/
def removeName (r : Registry) (id : NodeId) (name : String) : Registry :=
  if name = "" then r else { r with names := r.names.erase (name, id) }

/-- Notes that a node goes by a name; the empty name is no name. -/
def addName (r : Registry) (id : NodeId) (name : String) : Registry :=
  if name = "" then r else { r with names := r.names ++ [(name, id)] }

/-- Moves a node from one name to another. -/
def rename (r : Registry) (id : NodeId) (old new : String) : Registry :=
  (r.removeName id old).addName id new

/-- Strikes a node that goes by a name off every list. -/
def unregister (r : Registry) (id : NodeId) (name : String) : Registry :=
  { r.removeName id name with
    ids := r.ids.erase id
    updating := r.updating.erase id
    sensing := r.sensing.erase id }

/-- The nodes that go by a name. -/
def idsNamed (r : Registry) (name : String) : List NodeId :=
  (r.names.filter (·.1 == name)).map (·.2)

def isEmpty (r : Registry) : Bool := r.ids.isEmpty && r.names.isEmpty

end Registry

end SceneGraph
