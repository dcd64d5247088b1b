import SceneGraph.Document.Value

/-!
# Statements

The statements of a document other than declarations: `ROUTE a.f TO b.g`, `META "key" "value"` and
`PROFILE name`. A route whose ends do not fit is reported and dropped (`RouteFault`); only an error
in its form counts as an error of the document.
-/

namespace SceneGraph

/-- Why a route of a document cannot be added. -/
inductive RouteFault where
  | sourceMissing (name : String)
  | targetMissing (name : String)
  | noField (nodeType field : String)
  | differentKinds (source target : Kind)
  | notOutput (field : String)
  | notInput (field : String)
  deriving DecidableEq, Repr

def RouteFault.message : RouteFault → String
  | sourceMissing name => s!"source node '{name}' does not exist"
  | targetMissing name => s!"target node '{name}' does not exist"
  | noField nodeType field => s!"{nodeType} has no field '{field}'"
  | differentKinds a b => s!"fields have different types ({a.keyword} vs {b.keyword})"
  | notOutput field => s!"source field '{field}' is not an output"
  | notInput field => s!"target field '{field}' is not an input"

/-- A route as a document writes it. -/
structure RouteText where
  source : String
  output : String
  target : String
  input : String
  deriving DecidableEq, Repr

def RouteText.text (r : RouteText) : String := s!"{r.source}.{r.output} TO {r.target}.{r.input}"

namespace World

/-- The ends that a route of a scene means: its source with the name of the output, and its target
with the name of the input. -/
def resolveRoute (w : World) (scene : NodeId) (r : RouteText) :
    Except RouteFault (Node × String × Node × String) :=
  match w.findInScene? r.source scene with
  | none => .error (.sourceMissing r.source)
  | some a =>
    let output := a.plainFieldName r.output
    match a.kind? output with
    | none => .error (.noField a.typeName r.output)
    | some outputKind =>
      match w.findInScene? r.target scene with
      | none => .error (.targetMissing r.target)
      | some b =>
        let input := b.plainFieldName r.input
        match b.kind? input with
        | none => .error (.noField b.typeName r.input)
        | some inputKind =>
          if outputKind ≠ inputKind then .error (.differentKinds outputKind inputKind)
          else if !(a.access? output).any (·.get) then .error (.notOutput output)
          else if !(b.access? input).any (·.set) then .error (.notInput input)
          else .ok (a, output, b, input)

end World

namespace Reader

variable (ctx : DocumentContext)

/-- Adds a route that was written at some place. -/
def installRoute (p : Position) (r : RouteText) : Reader Unit := do
  let s ← get
  match s.world.resolveRoute s.scene.root r with
  | .error fault => warn ctx p s!"ROUTE {r.text} dropped: {fault.message}"
  | .ok (a, output, b, input) =>
    let (added, w) := s.world.addConnection a.id output ⟨b.id, input⟩
    set { s with world := w }
    unless added do
      act (·.log .debug s!"ROUTE {r.source}.{output} TO {r.target}.{input} declared twice")

/-- A route, after its keyword. -/
def route : Reader Unit := do
  let p ← last
  let source ← identifier ctx "a source node name"
  symbol ctx .dot
  let output ← identifier ctx "a source field name"
  keyword ctx .destination
  let target ← identifier ctx "a target node name"
  symbol ctx .dot
  let input ← identifier ctx "a target field name"
  installRoute ctx p { source, output, target, input }

/-- An entry of the metadata, after its keyword. -/
def metadata : Reader Unit := do
  let key ← quoted ctx "a quoted META key"
  let value ← quoted ctx "a quoted META value"
  modify fun s => { s with scene := s.scene.insertMetadata key value }

/-- The profile, after its keyword. -/
def profile : Reader Unit := do
  let name ← identifier ctx "a profile name"
  modify fun s => { s with scene := { s.scene with profile := some name } }

end Reader

end SceneGraph
