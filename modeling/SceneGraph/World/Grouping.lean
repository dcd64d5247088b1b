import SceneGraph.World.Release

/-!
# Grouping nodes

A grouping node lists its children in the field `children`, and `addChildren` and `removeChildren`
change that list. Once it is set up it counts itself among the parents of every child and keeps the
host's renderer informed. A node never becomes a child of one of its descendants: proposed children
that are ancestors are dropped (`World.accept`), the rest of the list is taken.
-/

namespace SceneGraph

/-- The field that takes children to add. -/
def addChildrenField : String := "addChildren"

/-- The field that takes children to remove. -/
def removeChildrenField : String := "removeChildren"

/-- The fields of every grouping node. -/
def groupingFields : List FieldSpec :=
  [⟨childrenField, .all, .nodes []⟩,
    ⟨addChildrenField, .setExplicit, .nodes []⟩,
    ⟨removeChildrenField, .setExplicit, .nodes []⟩]

/-- What is left to do when a hook of a node is over: references to let go of, and fields whose new
values go out along their routes. -/
structure Aftermath where
  released : List NodeId := []
  emitted : List String := []
  deriving DecidableEq, Repr

namespace Aftermath

/-- Lets go of more references. -/
def release (a : Aftermath) (ids : List NodeId) : Aftermath := { a with released := a.released ++ ids }

/-- Sends one more field out, each once. -/
def emit (a : Aftermath) (name : String) : Aftermath :=
  if a.emitted.contains name then a else { a with emitted := a.emitted ++ [name] }

end Aftermath

namespace World

/-- The children that a grouping node lists. -/
def children (w : World) (id : NodeId) : List NodeId :=
  ((w.node? id).map (·.nodesIn childrenField)).getD []

/-- The message about a proposed child that is an ancestor. -/
def logRejected (w : World) (id child : NodeId) : World :=
  match w.node? id, w.node? child with
  | some n, some c =>
    w.log .warn
      s!"{n.typeName} '{n.name}' (#{n.id}): {c.typeName} #{c.id} is an ancestor, not added as child"
  | _, _ => w

/-- Splits proposed children into those that are no ancestors of the node and the rest, which is
reported. -/
def accept (w : World) (id : NodeId) (proposed : List NodeId) : List NodeId × List NodeId × World :=
  let ancestors := w.ancestors id
  let accepted := proposed.filter (!ancestors.contains ·)
  let rejected := proposed.filter (ancestors.contains ·)
  (accepted, rejected, rejected.foldl (logRejected · id ·) w)

/-- Replaces the list of children without telling anybody. The references of the old list are left to
be let go of. -/
def storeChildren (w : World) (id : NodeId) (old new : List NodeId) (time : Timestamp)
    (after : Aftermath) : Aftermath × World :=
  let after := after.release old
  match w.node? id with
  | some n =>
    match n.fieldOfKind childrenField ⟨.node, .multi⟩ with
    | .ok _ =>
      let value := Field.nodes new time
      (after, (w.modify id (·.store childrenField value)).step (.stored id childrenField value))
    | .error _ => (after, w)
  | none => (after, w)

/-- Counts a node among the parents of a child. -/
def link (w : World) (parent child : NodeId) : World := (w.addParent child parent).attach parent child

/-- Takes a link back. -/
def unlink (w : World) (parent child : NodeId) : World :=
  (w.removeParent child parent).detach parent child

/-- Replaces the list of children; a node that is set up unlinks the old ones and links the new. -/
def replaceChildren (w : World) (id : NodeId) (old new : List NodeId) (time : Timestamp)
    (after : Aftermath) : Aftermath × World :=
  let linked := (w.node? id).any (·.initialized)
  let w := if linked then new.foldl (link · id ·) (old.foldl (unlink · id ·) w) else w
  w.storeChildren id old new time after

/-- Takes a list of children, or children to add or to remove; false if the value is no list of
nodes. -/
def changeChildren (w : World) (id : NodeId) (name : String) (value : Field) :
    Bool × Aftermath × World :=
  if value.kind ≠ ⟨.node, .multi⟩ then (false, {}, w)
  else
    let incoming := value.references
    let current := w.children id
    let (next, rejected, w) :=
      if name = childrenField then w.accept id incoming
      else if name = addChildrenField then
        let (accepted, rejected, w) := w.accept id (incoming.filter (!current.contains ·))
        (current ++ accepted, rejected, w)
      else (current.filter (!incoming.contains ·), [], w)
    let (after, w) := w.replaceChildren id current next value.timestamp { released := rejected }
    (true, after, w)

/-- Claims the children of a node that is about to be set up: those that are ancestors by now are
dropped from the list, the others count the node among their parents. -/
def adoptChildren (w : World) (id : NodeId) : Aftermath × World :=
  let current := w.children id
  let (accepted, rejected, w) := w.accept id current
  let (after, w) :=
    if accepted.length ≠ current.length then
      let time := ((w.node? id).bind (·.field? childrenField)).elim .unset (·.timestamp)
      w.storeChildren id current accepted time { released := rejected }
    else ({ released := rejected }, w)
  (after, accepted.foldl (fun w child => w.addParent child id) w)

/-- Asks the host's renderer for an object; it makes none for types that start with `No`. -/
def renderNode (w : World) (n : Node) : World :=
  if n.environment.renders then
    let object := if n.typeName.startsWith "No" then none else some n.id
    (w.tell (.rendered n.typeName n.id)).modify n.id fun n => { n with object }
  else w

/-- Gives a grouping node its object in the renderer, and at the first time joins the children that
have one. -/
def setUpChildren (w : World) (id : NodeId) : World :=
  match w.node? id with
  | some n =>
    let w := if n.object.isNone then w.renderNode n else w
    if n.isFirstInitialization then (w.children id).foldl (attach · id ·) w else w
  | none => w

end World

end SceneGraph
