import SceneGraph.World.Sensor

/-!
# Fan-out

A frame reaches every node that takes part in frames, and input every node that receives it, each
once and in the order in which the nodes were made. The nodes are those of the moment when the
fan-out starts; they are held until their turn is over (`World.fanOut`).
-/

namespace SceneGraph

namespace World

/-- The nodes that take part in frames, or only those of the scenes of a library. -/
def frameNodes (w : World) (library : Option String) : List NodeId :=
  w.registry.updating.filter fun id =>
    library.all fun l => (w.node? id).any (·.environment.library == l)

/-- Does something with each of some nodes, which are held until their turn is over. -/
def fanOut (w : World) (ids : List NodeId) (act : World → NodeId → World) : World :=
  ids.foldl (fun w id => (act w id).drop id) (w.holdAll ids)

/-- Updates every node for a frame. -/
def updateAll (w : World) (time : Timestamp) (library : Option String) : World :=
  w.fanOut (w.frameNodes library) (·.update · time)

/-- The latest time that a node asks for, or the given one if none asks for a later one. -/
def preUpdateAll (w : World) (time : Timestamp) (library : Option String) : Timestamp :=
  ((w.frameNodes library).filterMap (w.preUpdate · time)).foldl .later time

/-- Offers something to every node that receives input. True if one of them handles it. -/
def offerAll (w : World) (offer : World → NodeId → Bool × World) : Bool × World :=
  w.registry.sensing.foldl
    (fun (handled, w) id =>
      let (h, w) := offer w id
      (handled || h, w.drop id))
    (false, w.holdAll w.registry.sensing)

/-- Offers a mouse event to every node that receives input. -/
def mouseEventAll (w : World) (e : MouseEvent) (now : Timestamp) : Bool × World :=
  w.offerAll fun w id => w.mouseEvent id e now

/-- Offers a key event to every node that receives input. -/
def keyEventAll (w : World) (e : KeyEvent) : Bool × World := w.offerAll fun w id => w.keyEvent id e

end World

end SceneGraph
