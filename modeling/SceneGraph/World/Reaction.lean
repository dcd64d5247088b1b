import SceneGraph.World.Grouping

/-!
# Reactions

How the behaviour of a node reacts to a value that is put before it (`World.changeField`), to a
value that was stored (`World.noticeChange`), and to being set up (`World.adopt`, `World.setUp`). A
reaction changes only the node and, for grouping nodes, the parent counts of children; everything
that could reach further is left to its `Aftermath`.
-/

namespace SceneGraph

namespace World

/-- Stores a value in a field of its kind. The references of the old value are left to be let go
of. -/
def assign (w : World) (id : NodeId) (name : String) (value : Field) (after : Aftermath) :
    Bool × Aftermath × World :=
  match (w.node? id).bind (·.field? name) with
  | some old =>
    match old.assign value with
    | some new =>
      (true, after.release old.references,
        (w.modify id (·.store name new)).step (.stored id name new))
    | none => (false, after, w)
  | none => (false, after, w)

/-- Stores an output of a reaction and sends it out afterwards. -/
def emit (w : World) (id : NodeId) (name : String) (value : Field) (after : Aftermath) :
    Bool × Aftermath × World :=
  match w.assign id name value after with
  | (true, after, w) => (true, after.emit name, w)
  | refused => refused

/-- Two outputs one after the other; the second only if the first is taken. -/
def emitBoth (w : World) (id : NodeId) (a b : String × Field) : Bool × Aftermath × World :=
  match w.emit id a.1 a.2 {} with
  | (true, after, w) => w.emit id b.1 b.2 after
  | refused => refused

/-- A filter puts the value on the output for its truth value and the negation on another. -/
def filterInput (w : World) (id : NodeId) (name : String) (value : Field) :
    Bool × Aftermath × World :=
  if name ≠ "set_boolean" then w.assign id name value {}
  else
    match value.single? .boolean with
    | some (b : Bool) =>
      let output := if b then "inputTrue" else "inputFalse"
      w.emitBoth id (output, .single .boolean true value.timestamp)
        ("inputNegate", .single .boolean (!b) value.timestamp)
    | none => (false, {}, w)

/-- Adds one to the number called `count`. -/
def bumpCount (w : World) (id : NodeId) (time : Timestamp) : Bool × Aftermath × World :=
  match w.node? id with
  | some n =>
    match n.value .int "count" with
    | .ok (count : Int32) =>
      let value := Field.single .int (count + 1 : Int32) time
      (true, {}, (w.modify id (·.store "count" value)).step (.stored id "count" value))
    | .error e => (false, {}, w.tell (.refused e))
  | none => (false, {}, w)

/-- Tells the recorder where a node stands in the graph. -/
def survey (w : World) (id : NodeId) : World :=
  match w.node? id with
  | some n =>
    w.tell (.surveyed (NodeId.sort n.parentIds) (NodeId.sort (w.ancestors id)) n.references
      (n.value .float "count"))
  | none => w

/-- A recorder acts on the name of the field. -/
def recordInput (w : World) (id : NodeId) (name : String) (value : Field) :
    Bool × Aftermath × World :=
  let emitter := "emit_"
  if name.startsWith "reject" then (false, {}, w)
  else if name.startsWith emitter then
    w.emit id (String.ofList (name.toList.drop emitter.length)) value {}
  else if name = "twice" then w.emitBoth id ("count", value) ("count", value)
  else if name = "bump" then w.bumpCount id value.timestamp
  else if name = "who" then (true, {}, w.survey id)
  else w.assign id name value {}

/-- What a behaviour does with a value for a field that asks for an explicit decision. False rejects
the value. -/
def changeField (w : World) (n : Node) (name : String) (value : Field) : Bool × Aftermath × World :=
  match n.behavior with
  | .grouping =>
    if name = childrenField ∨ name = addChildrenField ∨ name = removeChildrenField then
      w.changeChildren n.id name value
    else w.assign n.id name value {}
  | .filter => w.filterInput n.id name value
  | .recorder _ => (w.tell (.changing n.id name n.initialized)).recordInput n.id name value
  | _ => w.assign n.id name value {}

/-- What a behaviour does after a plain change of a field. -/
def noticeChange (w : World) (id : NodeId) (name : String) : World :=
  match w.node? id with
  | some n =>
    match n.behavior, n.field? name with
    | .recorder _, some value => w.tell (.changed id name value)
    | _, _ => w
  | none => w

/-- What a node does with a value that is set from outside: check the rights on the field, then leave
the value to the behaviour or store it. -/
def receive (w : World) (n : Node) (name : String) (value : Field) :
    Except NodeError Unit × Aftermath × World :=
  match n.access? name with
  | none => (.error (n.notFound name), {}, w)
  | some access =>
    if !access.set then (.error (.accessDenied name .setOnly access), {}, w)
    else if access.explicit then
      match w.changeField n name value with
      | (true, after, w) => (.ok (), after, w)
      | (false, after, w) => (.error (.rejected name), after, w)
    else
      match n.field? name with
      | none => (.error (n.notFound name), {}, w)
      | some old =>
        if old.kind ≠ value.kind then (.error (.typeMismatch name old.kind value.kind), {}, w)
        else
          let (_, after, w) := w.assign n.id name value {}
          (.ok (), after, if n.initialized then w.noticeChange n.id name else w)

/-- What a node does with a value of its own making: no rights are asked for, and no hook runs. -/
def produce (w : World) (n : Node) (name : String) (value : Field) :
    Except NodeError Unit × Aftermath × World :=
  match n.field? name with
  | none => (.error (n.notFound name), {}, w)
  | some old =>
    if old.kind ≠ value.kind then (.error (.typeMismatch name old.kind value.kind), {}, w)
    else
      let (_, after, w) := w.assign n.id name value {}
      (.ok (), after, w)

/-- What a behaviour does when its node is set up for the first time, before the nodes that it refers
to. -/
def adopt (w : World) (n : Node) : Aftermath × World :=
  match n.behavior with
  | .grouping => w.adoptChildren n.id
  | .recorder _ => ({}, w.tell (.adopted n.id n.name))
  | _ => ({}, w)

/-- What a behaviour does when its node and everything that it refers to are set up. -/
def setUp (w : World) (n : Node) (time : Timestamp) : World :=
  match n.behavior with
  | .grouping => w.setUpChildren n.id
  | .recorder _ => w.tell (.setUp n.id time n.isFirstInitialization)
  | _ => w

end World

end SceneGraph
