import SceneGraph.World.Cascade

/-!
# The life of a node

Setting a node up (`World.initializeNode`) happens once: the node is marked, its behaviour claims what
is its own, the nodes that it refers to are set up, and then the behaviour finishes. A node that is
marked is not entered again, so cycles of references do no harm, and the depth of the recursion is
at most the number of nodes that are not set up.

A node can gain and lose fields of its own, and a node that is given up is made anonymous and loses
its references (`World.discard`), so that it goes away even if it refers to itself.
-/

namespace SceneGraph

namespace World

/-- Lets a behaviour claim what is its own. -/
def runAdopt (w : World) (id : NodeId) : World :=
  match w.node? id with
  | some n =>
    let w := w.step (.adopting id)
    let (after, w) := w.adopt n
    settle (deliverUpTo w.cascadeDepth) n after w
  | none => w

/-- Lets a behaviour finish the set-up of its node. -/
def runSetUp (w : World) (id : NodeId) (time : Timestamp) : World :=
  let w := w.modify id fun n => { n with initializations := n.initializations + 1 }
  match w.node? id with
  | some n => (w.step (.settingUp id)).setUp n time
  | none => w

/-- The references of a node. -/
def referencesOf (w : World) (id : NodeId) : List NodeId :=
  ((w.node? id).map Node.references).getD []

/-- Does something with every node that a node refers to; they are held meanwhile. -/
def forReferences (w : World) (id : NodeId) (act : World → NodeId → World) : World :=
  let refs := w.referencesOf id
  (refs.foldl act (w.holdAll refs)).dropAll refs

/-- Sets up a node and what it refers to, so many levels deep. -/
def initializeUpTo (time : Timestamp) : Nat → World → NodeId → World
  | 0, w, _ => w
  | depth + 1, w, id =>
    match w.node? id with
    | none => w
    | some n =>
      if n.initialized then w
      else
        let w := w.modify id fun n => { n with initialized := true }
        ((w.runAdopt id).forReferences id (initializeUpTo time depth)).runSetUp id time

/-- How many nodes are not set up. -/
def uninitializedCount (w : World) : Nat := w.nodes.countP (!·.initialized)

/-- Sets up a node and everything that it refers to. -/
def initializeNode (w : World) (id : NodeId) (time : Timestamp) : World :=
  initializeUpTo time w.uninitializedCount w id

/-- Sets up what a node refers to and lets its behaviour finish once more. -/
def reinitializeNode (w : World) (id : NodeId) (time : Timestamp) : World :=
  if (w.node? id).any (·.initialized) then
    (w.forReferences id fun w id => w.initializeNode id time).runSetUp id time
  else w.initializeNode id time

/-! ### Fields of a node's own -/

/-- Gives a node a field of its own. -/
def addField (w : World) (id : NodeId) (name : String) (value : Field) :
    Except NodeError Unit × World :=
  match w.node? id with
  | none => (.ok (), w)
  | some n =>
    if !n.capabilities.dynamic then (.error (.notDynamic n.typeName), w)
    else if n.hasField name then (.error (.fieldExists name), w)
    else (.ok (), w.modify id fun n => { n with dynamic := n.dynamic ++ [(name, value)] })

/-- Takes a field of a node's own away, with the routes leaving it. -/
def removeField (w : World) (id : NodeId) (name : String) : Except NodeError Unit × World :=
  match w.node? id with
  | none => (.ok (), w)
  | some n =>
    if !n.capabilities.dynamic then (.error (.notDynamic n.typeName), w)
    else
      match n.dynamicField? name with
      | none => (.error (n.notFound name), w)
      | some old =>
        let w := w.modify id fun n => { n with
          dynamic := n.dynamic.filter (·.1 != name)
          routes := n.routes.filter (·.1 != name) }
        (.ok (), release old.references w)

/-! ### Routes -/

/-- Adds a route; false if it is there already. Nothing is checked about its ends. -/
def addConnection (w : World) (id : NodeId) (output : String) (route : Route) : Bool × World :=
  match w.node? id with
  | some n => ((n.addConnection output route).1, w.modify id fun n => (n.addConnection output route).2)
  | none => (false, w)

/-- Removes a route; false if it is not there. -/
def removeConnection (w : World) (id : NodeId) (output : String) (route : Route) : Bool × World :=
  match w.node? id with
  | some n =>
    ((n.removeConnection output route).1, w.modify id fun n => (n.removeConnection output route).2)
  | none => (false, w)

/-! ### Giving up -/

/-- Takes a node's name and its references away without running a hook. -/
def discard (w : World) (id : NodeId) : World :=
  let w := w.setName id ""
  let refs := w.referencesOf id
  release refs (w.modify id Node.forget)

end World

end SceneGraph
