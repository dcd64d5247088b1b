import SceneGraph.Document.Statement

/-!
# Declarations

A node is declared as `DEF name Type { … }`, where the name may be missing and the braces hold fields
with their values, routes, and fields of the node's own. A declaration that cannot be read is
skipped up to its closing brace: its node is given up, and the rest of the document goes on. Only the
end of the text and a request to stop are passed on.

A declared node is held for whoever reads it. Declarations nest at most as deep as there are lexemes,
which bounds `declarationUpTo`.
-/

namespace SceneGraph

namespace Reader

variable (ctx : DocumentContext)

/-- Asks for a node of a type. -/
def request (typeName : String) : Reader (Option NodeId) := do
  modify fun s => { s with asked := s.asked + 1, checkpoints := s.progress :: s.checkpoints }
  act (·.step (.asked typeName))
  match (← get).world.createOfType ctx.catalog typeName ctx.environment with
  | .ok (id, w) => modify fun s => { s with world := w }; return id
  | .error e => throw (.layout e)

/-- A node by its name, after the keyword; nothing if no node of the scene goes by it. -/
def use : Reader (Option NodeId) := do
  let name ← identifier ctx "a node name after USE"
  let s ← get
  match s.scene.find? s.world name with
  | some id => act (·.hold id); return some id
  | none => warn ctx s.last s!"USE of unknown node '{name}'"; return none

/-- A node as the value of a field: one used again or one declared here. -/
def nodeValue (declaration : Reader (Option NodeId)) : Reader (Option NodeId) := do
  if ← optionalKeyword ctx .use then use ctx else declaration

/-- The value of a field of a node. -/
def fieldValue (declaration : Reader (Option NodeId)) (id : NodeId) (name : String) : Reader Unit := do
  let p ← position ctx
  match ((← get).world.node? id).bind (·.kind? name) with
  | none =>
    let typeName := (((← get).world.node? id).map (·.typeName)).getD ""
    throw (.unknownField typeName name p)
  | some k =>
    let value ← content ctx (nodeValue ctx declaration) k
    let s ← get
    let (result, w) := s.world.initField id name value
    set { s with world := w.dropAll value.references }
    match result with
    | .ok _ => return
    | .error e => throw (.node e p)

/-- Gives a node a field of its own, declared at some place. -/
def declareField (id : NodeId) (name : String) (k : Kind) (p : Position) : Reader Unit := do
  let s ← get
  let (result, w) := s.world.addField id name (.initial k)
  set { s with world := w }
  match result with
  | .ok _ => return
  | .error e => throw (.node e p)

/-- One entry of a body, or its closing brace, which ends it. -/
def bodyEntry (declaration : Reader (Option NodeId)) (id : NodeId) : Reader (Option Unit) := do
  let p ← position ctx
  match ← peek? with
  | some (.symbol .nodeEnd) => pop ctx; return some ()
  | some (.keyword .route) => pop ctx; route ctx; return none
  | some (.keyword (.kind k)) =>
    pop ctx
    let name ← identifier ctx "a dynamic field name"
    declareField id name k p
    fieldValue ctx declaration id name
    return none
  | some (.identifier name) =>
    pop ctx
    match (← get).world.node? id with
    | some n => unless n.hasField name do throw (.unknownField n.typeName name p)
    | none => pure ()
    fieldValue ctx declaration id name
    return none
  | some (.invalid raw) =>
    pop ctx
    act (·.log .error
      s!"Error in \"{ctx.file}\", {p.text}: {(Token.invalid raw).text}, trying the next field")
    return none
  | _ => unexpected ctx "a field name or '\x7d'"

/-- The body of a declaration, after its opening brace. -/
def body (declaration : Reader (Option NodeId)) (id : NodeId) : Reader Unit :=
  loop ctx (bodyEntry ctx declaration id)

/-- What becomes of a node whose body was read, or could not be read. -/
def closeBody (id : NodeId) (typeName : String) (p : Position) :
    Except ReadError Unit → Reader (Option NodeId)
  | .ok _ => return some id
  | .error e => do
    match e with
    | .layout _ => act (·.drop id); throw e
    | .cancelled | .endOfFile _ => act fun w => (w.discard id).drop id; throw e
    | _ =>
      act (·.discard id)
      logError ctx e
      onFailure (skipBody ctx) (·.drop id)
      warn ctx p s!"skipped {typeName} node"
      act (·.drop id)
      return none

/-- Declarations that nest so many levels deep. -/
def declarationUpTo : Nat → Reader (Option NodeId)
  | 0 => throw (.endOfFile ctx.stop)
  | depth + 1 => do
    if ctx.control.isCancelled (← get).asked then throw .cancelled
    if ← optionalKeyword ctx .null then return none
    let name ←
      if ← optionalKeyword ctx .define then some <$> identifier ctx "a node name after DEF"
      else pure none
    let typeName ← identifier ctx "a node type"
    let p ← last
    match ← request ctx typeName with
    | none =>
      symbol ctx .nodeBegin
      skipBody ctx
      warn ctx p s!"skipped unknown node type '{typeName}'"
      return none
    | some id =>
      match name with
      | some name => act (·.setName id name)
      | none => pure ()
      onFailure (symbol ctx .nodeBegin) (·.drop id)
      closeBody ctx id typeName p (← attempt (body ctx (declarationUpTo depth) id))

/-- A declaration, or `NULL` for no node. A node that is skipped counts as none. -/
def declaration : Reader (Option NodeId) := do
  declarationUpTo ctx ((← get).lexemes.length + 1)

end Reader

end SceneGraph
