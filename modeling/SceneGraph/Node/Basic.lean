import SceneGraph.Node.Error
import SceneGraph.Specification
import SceneGraph.Text.Quoted

/-!
# Nodes

A node has the fields of its type, in the order of its layout, and may have fields of its own
(`dynamic`). It keeps the routes that leave its fields, and counts how often each grouping node lists
it among its children. What its type does beyond storing values is its `Behavior`.
-/

namespace SceneGraph

/-- What a node can do beyond holding values. -/
structure Capabilities where
  /-- Fields can be added and removed. -/
  dynamic : Bool := false
  /-- Takes part in frames. -/
  update : Bool := false
  /-- Receives mouse and key events. -/
  event : Bool := false
  deriving DecidableEq, Repr

def Capabilities.debugText (c : Capabilities) : String :=
  "Capabilities \x7b " ++ s!"dynamic: {c.dynamic}, update: {c.update}, event: {c.event}" ++ " \x7d"

/-- The ways in which types of nodes react to changes, frames and input. -/
inductive Behavior where
  /-- Only holds values. -/
  | plain
  /-- Holds values and accepts fields of its own. -/
  | dynamic
  /-- Groups children. -/
  | grouping
  /-- Splits a boolean event by its value. -/
  | filter
  /-- Emits the fraction of a cycle at every frame. -/
  | timer
  /-- Reports presses on what it shares a parent with. -/
  | touch
  /-- Writes everything that happens to it into the journal. -/
  | recorder (capabilities : Capabilities)
  deriving DecidableEq, Repr

def Behavior.capabilities : Behavior → Capabilities
  | dynamic => { dynamic := true }
  | timer => { update := true }
  | touch => { event := true }
  | recorder c => c
  | plain | grouping | filter => {}

/-- What all nodes of a scene have in common. -/
structure Environment where
  library : String := ""
  filename : String := ""
  scene : NodeId := .nil
  /-- The host renders the scene. -/
  renders : Bool := false
  deriving DecidableEq, Repr

/-- The environment of nodes outside every scene. -/
def Environment.detached : Environment := {}

def Environment.debugText (e : Environment) : String :=
  "Environment \x7b " ++ s!"library: {Text.shown e.library}, filename: {Text.shown e.filename}, " ++
    s!"scene_id: NodeId({e.scene}), render_context: {e.renders}" ++ " \x7d"

/-- Where a route leads: a field of a node. -/
structure Route where
  target : NodeId
  field : String
  deriving DecidableEq, Repr

def Route.text (r : Route) : String := s!"#{r.target}.{r.field}"

structure Node where
  id : NodeId
  spec : Specification
  behavior : Behavior
  environment : Environment
  name : String := ""
  /-- One field for every entry of the layout, in its order. -/
  fields : List Field
  /-- The node's own fields, in the order they were added. -/
  dynamic : List (String × Field) := []
  /-- How often each grouping node counts this one among its children. -/
  parents : List (NodeId × Nat) := []
  /-- The routes leaving each field, in the order they were added. -/
  routes : List (String × List Route) := []
  initialized : Bool := false
  /-- How often the node was set up. -/
  initializations : Nat := 0
  /-- The object that stands for the node in the host's renderer. -/
  object : Option NodeId := none

namespace Node

/-- A node as it is made: all fields at their first values. -/
def fresh (id : NodeId) (spec : Specification) (behavior : Behavior) (environment : Environment) :
    Node where
  id := id
  spec := spec
  behavior := behavior
  environment := environment
  fields := spec.instantiate

def typeName (n : Node) : String := n.spec.typeName

def capabilities (n : Node) : Capabilities := n.behavior.capabilities

/-! ### Fields -/

/-- The node's own field of a name. -/
def dynamicField? (n : Node) (name : String) : Option Field :=
  (n.dynamic.find? (·.1 == name)).map (·.2)

/-- The field of a name; the type's fields come first. -/
def field? (n : Node) (name : String) : Option Field :=
  match n.spec.index? name with
  | some i => n.fields[i]?
  | none => n.dynamicField? name

/-- Replaces the content of a field that the node has. -/
def store (n : Node) (name : String) (f : Field) : Node :=
  match n.spec.index? name with
  | some i => { n with fields := n.fields.set i f }
  | none =>
    { n with dynamic := n.dynamic.map fun (k, old) => if k == name then (k, f) else (k, old) }

def hasField (n : Node) (name : String) : Bool :=
  n.spec.hasField name || (n.dynamicField? name).isSome

/-- The rights on a field; a node's own fields can be read and set. -/
def access? (n : Node) (name : String) : Option Access :=
  match n.spec.entry? name with
  | some e => some e.access
  | none => (n.dynamicField? name).map fun _ => .getSet

def kind? (n : Node) (name : String) : Option Kind :=
  match n.spec.entry? name with
  | some e => some e.initial.kind
  | none => (n.dynamicField? name).map (·.kind)

def dynamicNames (n : Node) : List String := n.dynamic.map (·.1)

/-- The names of all fields, the type's first. -/
def fieldNames (n : Node) : List String := n.spec.names ++ n.dynamicNames

def notFound (n : Node) (name : String) : NodeError := .fieldNotFound n.typeName name

/-- The field of a name, or the refusal. -/
def field (n : Node) (name : String) : Except NodeError Field :=
  match n.field? name with
  | some f => .ok f
  | none => .error (n.notFound name)

/-- The field of a name if it is of the expected kind. -/
def fieldOfKind (n : Node) (name : String) (k : Kind) : Except NodeError Field :=
  match n.field? name with
  | some f => if f.kind = k then .ok f else .error (.typeMismatch name k f.kind)
  | none => .error (n.notFound name)

/-- The single value of a field of type `t`. -/
def value (n : Node) (t : FieldType) (name : String) : Except NodeError t.Carrier :=
  match n.fieldOfKind name ⟨t, .single⟩ with
  | .ok f =>
    match f.single? t with
    | some v => .ok v
    | none => .error (n.notFound name)
  | .error e => .error e

/-- The name without `set_` in front or `_changed` behind, if that makes it the name of a field. -/
def plainFieldName (n : Node) (name : String) : String :=
  if n.hasField name then name
  else
    let cs := name.toList
    let setter := "set_".toList
    let changed := "_changed".toList
    let afterSetter := String.ofList (cs.drop setter.length)
    let beforeChanged := String.ofList (cs.take (cs.length - changed.length))
    if setter.isPrefixOf cs && n.hasField afterSetter then afterSetter
    else if changed.isSuffixOf cs && n.hasField beforeChanged then beforeChanged
    else name

/-! ### References -/

/-- All fields, the type's first. -/
def allFields (n : Node) : List Field := n.fields ++ n.dynamic.map (·.2)

/-- The nodes that the fields refer to, in order and as often as they do. -/
def references (n : Node) : List NodeId := n.allFields.flatMap Field.references

/-- The nodes listed in a field. -/
def nodesIn (n : Node) (name : String) : List NodeId :=
  match n.field? name with
  | some f => if f.kind = ⟨.node, .multi⟩ then f.references else []
  | none => []

/-- A node without references: fields of nodes return to their first values, and such fields of its own
go. -/
def forget (n : Node) : Node :=
  { n with
    fields := (n.fields.zip n.spec.entries).map fun (f, e) =>
      if f.kind.type = .node then e.initial else f
    dynamic := n.dynamic.filter (·.2.kind.type != .node) }

/-! ### Routes -/

/-- The routes leaving a field. -/
def routesFrom (n : Node) (field : String) : List Route :=
  ((n.routes.find? (·.1 == field)).map (·.2)).getD []

/-- Every route with the field it leaves. -/
def connections (n : Node) : List (String × Route) :=
  n.routes.flatMap fun (field, routes) => routes.map (field, ·)

/-- Adds a route; false if it is there already. -/
def addConnection (n : Node) (field : String) (route : Route) : Bool × Node :=
  if n.routes.any (·.1 == field) then
    if (n.routesFrom field).contains route then (false, n)
    else (true, { n with routes := n.routes.map fun (f, rs) =>
      if f == field then (f, rs ++ [route]) else (f, rs) })
  else (true, { n with routes := n.routes ++ [(field, [route])] })

/-- Removes a route; false if it is not there. -/
def removeConnection (n : Node) (field : String) (route : Route) : Bool × Node :=
  if (n.routesFrom field).contains route then
    (true, { n with routes := n.routes.map fun (f, rs) =>
      if f == field then (f, rs.filter (· != route)) else (f, rs) })
  else (false, n)

/-! ### Parents -/

/-- Counts one more occurrence among a node's children. -/
def addParent (parent : NodeId) : List (NodeId × Nat) → List (NodeId × Nat)
  | [] => [(parent, 1)]
  | (p, k) :: rest => if p = parent then (p, k + 1) :: rest else (p, k) :: addParent parent rest

/-- Counts one occurrence less; a count of zero is dropped. -/
def removeParent (parent : NodeId) : List (NodeId × Nat) → List (NodeId × Nat)
  | [] => []
  | (p, k) :: rest =>
    if p = parent then if k ≤ 1 then rest else (p, k - 1) :: rest
    else (p, k) :: removeParent parent rest

def hasParent (n : Node) (parent : NodeId) : Bool := n.parents.any (·.1 == parent)

def parentIds (n : Node) : List NodeId := n.parents.map (·.1)

/-- The parents by id. -/
def sortedParents (n : Node) : List (NodeId × Nat) :=
  (NodeId.sort n.parentIds).map fun p => (p, ((n.parents.find? (·.1 == p)).map (·.2)).getD 0)

/-! ### Set up -/

/-- True during the first set-up, false when the node is set up again. -/
def isFirstInitialization (n : Node) : Bool := n.initializations ≤ 1

/-- The name of a node, or its type if it has none, with its id. -/
def debugText (n : Node) : String :=
  "Node \x7b " ++ s!"id: NodeId({n.id}), type: {Text.shown n.typeName}, name: {Text.shown n.name}" ++
    " \x7d"

end Node

end SceneGraph
