/-!
# Node ids

Every node has a number of its own, handed out in ascending order and never twice. Zero is no
node's id: it stands for "no scene" in an environment.
-/

namespace SceneGraph

/-- The id of a node; a scene goes by the id of its root. -/
structure NodeId where
  value : Nat
  deriving DecidableEq, Repr, Inhabited

namespace NodeId

/-- The id that no node has. -/
def nil : NodeId := ⟨0⟩

instance : ToString NodeId := ⟨fun id => toString id.value⟩

/-- A list of ids as diagnostics show it. -/
def listText (ids : List NodeId) : String :=
  "[" ++ ", ".intercalate (ids.map fun id => s!"NodeId({id})") ++ "]"

/-- Inserts an id into a list sorted by number. -/
def insertSorted (id : NodeId) : List NodeId → List NodeId
  | [] => [id]
  | x :: rest => if id.value ≤ x.value then id :: x :: rest else x :: insertSorted id rest

/-- Ids in ascending order. -/
def sort (ids : List NodeId) : List NodeId := ids.foldr insertSorted []

end NodeId

end SceneGraph
