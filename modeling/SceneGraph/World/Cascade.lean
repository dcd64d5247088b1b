import SceneGraph.World.Reaction

/-!
# Cascades

A value that is set on a field goes on along every route that leaves the field, depth first and in
the order in which the routes were added. While a field is being set it is on the cascade stack, and
a field on the stack is not set again: a route back to it ends there, while a field that several
routes lead to is set once for each of them.

`World.setField` sets a field from outside, `World.emitField` from the node's own behaviour, and
`World.initField` stores a value without telling anybody. A field enters the stack only at the start
or as the end of a route, so a cascade is never nested deeper than there are routes; this bounds
`deliverUpTo`.
-/

namespace SceneGraph

namespace World

/-- Puts a field on the cascade stack, unless it is there. -/
def enterCascade (w : World) (id : NodeId) (name : String) : Option World :=
  if w.cascade.contains (id, name) then none
  else some ({ w with cascade := (id, name) :: w.cascade }.step (.entered id name))

/-- Takes the innermost field off the cascade stack. -/
def leaveCascade (w : World) : World := { w with cascade := w.cascade.tail }.step .left

/-- A value on its way along some routes. -/
structure Dispatch where
  routes : List Route
  value : Field

/-- The routes that a changed field goes out along, with its value; none if nothing leaves it or it
cannot be read. -/
def dispatch? (w : World) (id : NodeId) (name : String) : Option Dispatch :=
  match w.node? id with
  | some n =>
    if (n.access? name).any (·.get) && !(n.routesFrom name).isEmpty then
      (n.field? name).map fun value => ⟨n.routesFrom name, value⟩
    else none
  | none => none

/-- The message about a route whose target is gone. -/
def logTargetGone (w : World) (n : Node) (name : String) (route : Route) : World :=
  w.log .debug s!"ROUTE {n.typeName} #{n.id}.{name} -> {route.text}: target is gone, dropped"

/-- The message about a value that the target of a route refuses. -/
def logHopRefused (w : World) (n target : Node) (name : String) (route : Route) (e : NodeError) :
    World :=
  w.log .warn
    s!"ROUTE {n.typeName} #{n.id}.{name} -> {target.typeName} #{target.id}.{route.field}: {e.message}"

/-- How a value is set on a field at the end of a route. -/
abbrev Delivery := NodeId → String → Field → World → Except NodeError Unit × World

/-- Sends a value along one route. The target is held meanwhile. -/
def hop (deliver : Delivery) (n : Node) (name : String) (value : Field) (w : World) (route : Route) :
    World :=
  match w.node? route.target with
  | none => w.logTargetGone n name route
  | some target =>
    match deliver target.id route.field value (w.hold target.id) with
    | (.ok _, w) => (w.step (.followed n.id name target.id route.field value none)).drop target.id
    | (.error e, w) =>
      ((w.step (.followed n.id name target.id route.field value (some e))).logHopRefused n target name
        route e).drop target.id

/-- Sends a value along routes, one after the other. -/
def follow (deliver : Delivery) (n : Node) (name : String) (d : Dispatch) (w : World) : World :=
  d.routes.foldl (hop deliver n name d.value) w

/-- Does something while the nodes that a dispatch refers to are held. -/
def holding (d : Dispatch) (act : World → World) (w : World) : World :=
  (act (w.holdAll d.value.references)).dropAll d.value.references

/-- Sends out an output that a hook stored. -/
def sendEmitted (deliver : Delivery) (n : Node) (w : World) (name : String) : World :=
  match w.enterCascade n.id name with
  | none => w
  | some w =>
    match w.dispatch? n.id name with
    | none => w.leaveCascade
    | some d => (holding d (follow deliver n name d) w).leaveCascade

/-- What follows a hook: references are let go of, then the outputs go out in order. -/
def settle (deliver : Delivery) (n : Node) (after : Aftermath) (w : World) : World :=
  after.emitted.foldl (sendEmitted deliver n) (release after.released w)

/-- What follows a change of a field: the aftermath, and then the value that the field had right after
the change goes out along the routes that left it then. -/
def passOn (deliver : Delivery) (n : Node) (name : String) (after : Aftermath) (w : World) : World :=
  match w.dispatch? n.id name with
  | none => settle deliver n after w
  | some d => holding d (fun w => follow deliver n name d (settle deliver n after w)) w

/-- Ends a change: one that was refused only lets go of references. -/
def conclude (deliver : Delivery) (n : Node) (name : String) :
    Except NodeError Unit × Aftermath × World → Except NodeError Unit × World
  | (.error e, after, w) => (.error e, release after.released w)
  | (.ok _, after, w) => (.ok (), passOn deliver n name after w)

/-- Sets a field from outside; the cascade is nested at most so many times. -/
def deliverUpTo : Nat → Delivery
  | 0, _, _, _, w => (.ok (), w)
  | depth + 1, id, name, value, w =>
    match w.node? id with
    | none => (.ok (), w)
    | some n =>
      match w.enterCascade id name with
      | none => (.ok (), w)
      | some w =>
        let (result, w) := conclude (deliverUpTo depth) n name (w.receive n name value)
        (result, w.leaveCascade)

/-- More than the deepest nesting of a cascade: one field for every route, and the first one. -/
def cascadeDepth (w : World) : Nat := (w.nodes.flatMap (·.connections)).length + 1

/-- Sets a field from outside and lets the change spread along the routes. -/
def setField (w : World) (id : NodeId) (name : String) (value : Field) : Except NodeError Unit × World :=
  deliverUpTo w.cascadeDepth id name value w

/-- Stores an output of a node and lets the change spread along the routes. -/
def emitField (w : World) (id : NodeId) (name : String) (value : Field) :
    Except NodeError Unit × World :=
  match w.node? id with
  | none => (.ok (), w)
  | some n =>
    match w.enterCascade id name with
    | none => (.ok (), w)
    | some w =>
      let (result, w) := conclude (deliverUpTo w.cascadeDepth) n name (w.produce n name value)
      (result, w.leaveCascade)

/-- Stores a value without asking for rights and without telling anybody. -/
def initField (w : World) (id : NodeId) (name : String) (value : Field) :
    Except NodeError Unit × World :=
  match w.node? id with
  | none => (.ok (), w)
  | some n =>
    match w.produce n name value with
    | (result, after, w) => (result, release after.released w)

end World

end SceneGraph
