import SceneGraph.World.Basic

/-!
# Letting go of nodes

When the last holder of a node lets go, the node is destroyed: its behaviour takes leave, the
registry strikes it off, and then its own references are let go, one by one and depth first
(`World.release`). A grouping node takes leave by giving up its children
(`World.leaveChildren`). Each step of a release uses up one reference, so it ends also where nodes
refer to each other in cycles; the nodes of a cycle that something still refers to stay alive.
-/

namespace SceneGraph

/-- The field of a grouping node that lists its children. -/
def childrenField : String := "children"

namespace World

/-- The renderer's objects of two nodes, if both have one and the parent's scene is rendered. -/
def renderedPair? (w : World) (parent child : NodeId) : Option (NodeId × NodeId) :=
  match w.node? parent, w.node? child with
  | some p, some c =>
    if p.environment.renders then
      match p.object, c.object with
      | some a, some b => some (a, b)
      | _, _ => none
    else none
  | _, _ => none

/-- Tells the renderer that a child leaves its parent, if it knows both. -/
def detach (w : World) (parent child : NodeId) : World :=
  match w.renderedPair? parent child with
  | some (a, b) => w.tell (.detached a b)
  | none => w

/-- Tells the renderer that a child joins a parent, if it knows both. -/
def attach (w : World) (parent child : NodeId) : World :=
  match w.renderedPair? parent child with
  | some (a, b) => w.tell (.attached a b)
  | none => w

/-- Counts one occurrence more among the children of `parent`. -/
def addParent (w : World) (child parent : NodeId) : World :=
  w.modify child fun n => { n with parents := Node.addParent parent n.parents }

/-- Counts one occurrence less among the children of `parent`. -/
def removeParent (w : World) (child parent : NodeId) : World :=
  w.modify child fun n => { n with parents := Node.removeParent parent n.parents }

/-- A grouping node that was set up gives up its children. -/
def leaveChildren (w : World) (n : Node) : World :=
  if n.initialized then
    (n.nodesIn childrenField).foldl (fun w c => (w.removeParent c n.id).detach n.id c) w
  else w

/-- What a behaviour does before its node goes. -/
def takeLeave (w : World) (n : Node) : World :=
  match n.behavior with
  | .grouping => w.leaveChildren n
  | .recorder _ => w.tell (.destroyed n.id n.name)
  | _ => w

/-- A node that is still counted among children must not go unnoticed. -/
def reportParents (w : World) (id : NodeId) : World :=
  match w.node? id with
  | some n =>
    if n.parents.isEmpty then w
    else w.log .error
      s!"{n.typeName} #{n.id} destroyed with {n.parents.length} parent(s) still registered"
  | none => w

/-- Strikes a node off the world. -/
def remove (w : World) (n : Node) : World :=
  ({ w with
    nodes := w.nodes.filter (·.id != n.id)
    registry := w.registry.unregister n.id n.name }).step (.destroyed n.id)

/-- Everything that happens to a node that nobody holds, short of letting go of its references. -/
def destroy (w : World) (n : Node) : World := ((w.takeLeave n).reportParents n.id).remove n

/-! ### Who refers to whom -/

/-- The live nodes, each with the nodes that it refers to. -/
def graph (w : World) : List (NodeId × List NodeId) := w.nodes.map fun n => (n.id, n.references)

/-- How many references there are between live nodes. -/
def referenceCount (w : World) : Nat := (w.graph.flatMap (·.2)).length

theorem graph_modify (w : World) (id : NodeId) {f : Node → Node}
    (h : ∀ n, ((f n).id, (f n).references) = (n.id, n.references)) : (w.modify id f).graph = w.graph := by
  unfold graph modify
  rw [List.map_map]
  congr 1
  funext n
  by_cases hn : n.id = id <;> simp [hn, h n]

theorem graph_removeParent (w : World) (c p : NodeId) : (w.removeParent c p).graph = w.graph :=
  graph_modify w c fun _ => rfl

theorem graph_detach (w : World) (p c : NodeId) : (w.detach p c).graph = w.graph := by
  unfold detach
  split <;> rfl

theorem graph_leaveChildren (w : World) (n : Node) : (w.leaveChildren n).graph = w.graph := by
  unfold leaveChildren
  split
  · generalize n.nodesIn childrenField = cs
    induction cs generalizing w with
    | nil => rfl
    | cons c rest ih => rw [List.foldl_cons, ih, graph_detach, graph_removeParent]
  · rfl

theorem graph_takeLeave (w : World) (n : Node) : (w.takeLeave n).graph = w.graph := by
  unfold takeLeave
  split
  · exact graph_leaveChildren w n
  · rfl
  · rfl

theorem graph_reportParents (w : World) (id : NodeId) : (w.reportParents id).graph = w.graph := by
  unfold reportParents
  split
  · split <;> rfl
  · rfl

theorem graph_remove (w : World) (n : Node) : (w.remove n).graph = w.graph.filter (·.1 != n.id) := by
  simp only [remove, step, enter, graph, List.filter_map]
  rfl

/-- A destroyed node is gone with its references, and nobody else's references change. -/
theorem graph_destroy (w : World) (n : Node) : (w.destroy n).graph = w.graph.filter (·.1 != n.id) := by
  rw [destroy, graph_remove, graph_reportParents, graph_takeLeave]

theorem mem_nodes_of_node? {w : World} {id : NodeId} {n : Node} (h : w.node? id = some n) :
    n ∈ w.nodes := List.mem_of_find?_eq_some h

theorem id_of_node? {w : World} {id : NodeId} {n : Node} (h : w.node? id = some n) : n.id = id := by
  simpa using List.find?_some h

theorem length_flatMap_filter_le (g : List (NodeId × List NodeId)) (a : NodeId) :
    ((g.filter (·.1 != a)).flatMap (·.2)).length ≤ (g.flatMap (·.2)).length := by
  induction g with
  | nil => exact Nat.le_refl _
  | cons e rest ih =>
    rw [List.filter_cons]
    split <;> simp only [List.flatMap_cons, List.length_append] <;> omega

theorem length_flatMap_filter_add_le {g : List (NodeId × List NodeId)} {a : NodeId}
    {rs : List NodeId} (h : (a, rs) ∈ g) :
    ((g.filter (·.1 != a)).flatMap (·.2)).length + rs.length ≤ (g.flatMap (·.2)).length := by
  obtain ⟨before, after, rfl⟩ := List.append_of_mem h
  have hbefore := length_flatMap_filter_le before a
  have hafter := length_flatMap_filter_le after a
  rw [List.filter_append, List.filter_cons_of_neg (by simp)]
  simp only [List.flatMap_append, List.flatMap_cons, List.length_append]
  omega

/-- The references of a destroyed node are no longer counted. -/
theorem referenceCount_destroy {w : World} {id : NodeId} {n : Node} (h : w.node? id = some n) :
    (w.destroy n).referenceCount + n.references.length ≤ w.referenceCount := by
  unfold referenceCount
  rw [graph_destroy]
  exact length_flatMap_filter_add_le (List.mem_map.2 ⟨n, mem_nodes_of_node? h, rfl⟩)

/-! ### Letting go -/

/-- Lets go of handles that were taken off `held`, in order. A node that is neither held elsewhere nor
still in the list is destroyed, and its own references come next. -/
def release (ids : List NodeId) (w : World) : World :=
  match ids with
  | [] => w
  | id :: rest =>
    if w.isHeld id || rest.contains id then release rest w
    else
      match _h : w.node? id with
      | none => release rest w
      | some n => release (n.references ++ rest) (w.destroy n)
termination_by ids.length + w.referenceCount
decreasing_by
  · simp
  · simp
  · have := referenceCount_destroy _h
    simp only [List.length_append, List.length_cons]
    omega

/-- Lets go of handles, in order. -/
def dropAll (w : World) (ids : List NodeId) : World :=
  release ids { w with held := ids.foldl List.erase w.held }

/-- Lets go of a handle. -/
def drop (w : World) (id : NodeId) : World := w.dropAll [id]

end World

end SceneGraph
