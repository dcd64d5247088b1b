import SceneGraph.Document.Declaration
import SceneGraph.Path

/-!
# Reading documents

`Document.read` turns the text of a document into a scene. The header decides the grammar, statements
are read one after the other, and the nodes declared at the top become the children of the root. What
cannot be read is reported in the log and skipped; the reading as a whole fails only for the header,
for a request to stop, and for a type of nodes that is itself at fault. After a failure nothing of the
scene is held any more.
-/

namespace SceneGraph

/-- Which header a document has to start with. -/
inductive HeaderCheck where
  /-- The one that goes with the extension of the file, or any if none does. -/
  | byExtension
  | require (header : Header)
  | any
  deriving DecidableEq, Repr

/-- The header that a file has to start with, if it is fixed. -/
def HeaderCheck.required? (check : HeaderCheck) (file : String) : Option Header :=
  match check with
  | any => none
  | require h => some h
  | byExtension => (Path.extension? file).bind Header.ofExtension?

namespace Reader

variable (ctx : DocumentContext)

/-- Tells the host how much of the text has been read. -/
def publishProgress : Reader Unit := do
  match (← get).lexemes.head? with
  | some l =>
    if ctx.control.watched && ctx.size ≠ 0 then
      let part := Decimal.narrow (Float.ofNat l.stop) / Decimal.narrow (Float.ofNat ctx.size)
      modify fun s => { s with progress := clampUnit part }
  | none => pure ()

/-- One statement; a declaration yields its node. -/
def statement : Reader (Option NodeId) := do
  if ← optionalKeyword ctx .route then route ctx; return none
  else if ← optionalKeyword ctx .metadata then metadata ctx; return none
  else if ← optionalKeyword ctx .profile then profile ctx; return none
  else declaration ctx

/-- The statements up to the end of the text, at most `n`, after those whose nodes were read before. An
error costs its statement, and at least one token; at the end of the text the reading is over. -/
def statements : Nat → List NodeId → Reader (List NodeId)
  | 0, before => return before
  | n + 1, before => do
    match ← peek? with
    | none => return before
    | some _ =>
      publishProgress ctx
      let left := (← get).lexemes.length
      match ← attempt (statement ctx) with
      | .ok node => statements n (before ++ node.toList)
      | .error e =>
        match e with
        | .cancelled | .layout _ => act (·.dropAll before); throw e
        | .endOfFile _ => logError ctx e; return before
        | _ =>
          logError ctx e
          if (← get).lexemes.length = left then pop ctx
          statements n before

/-- The whole document after its header: the top-level nodes become the children of the root, and then
everything is set up. -/
def document : Reader Unit := do
  let nodes ← onFailure (do statements ctx ((← get).lexemes.length + 1) []) (·.drop ctx.environment.scene)
  let s ← get
  let (result, w) := s.scene.setChildren s.world nodes
  set { s with world := w.dropAll nodes }
  match result with
  | .error e => act (·.drop ctx.environment.scene); throw (.node e s.last)
  | .ok _ =>
    act s.scene.setUp
    if ctx.control.watched then modify fun s => { s with progress := 1 }
    let s ← get
    act (·.log .debug
      s!"parsed {ctx.file} with {(s.scene.children s.world).length} top-level nodes")

end Reader

/-- A text to read, and how. -/
structure Document where
  text : String
  file : String
  catalog : Catalog
  library : String := ""
  check : HeaderCheck := .byExtension
  /-- The time that values are set at; unset stands for now. -/
  time : Timestamp
  /-- What the clock shows. -/
  now : Timestamp
  renders : Bool := false
  control : LoadControl := {}
  /-- The progress that the host sees before the reading. -/
  progress : Float32 := 0

/-- What came of reading a document. -/
structure ReadOutcome where
  result : Except ReadError Scene
  world : World
  /-- The progress that the host saw last, also after a failure. -/
  progress : Float32
  /-- The progress whenever a node was asked for. -/
  checkpoints : List Float32

namespace Document

/-- The header of a document, or why it cannot be read. -/
def header (d : Document) : Except ReadError Header :=
  let line := (Cursor.ofText d.text).readLine.1
  match Header.ofLine? line with
  | none => .error (.invalidHeader line .start)
  | some h =>
    match d.check.required? d.file with
    | some required => if required ≠ h then .error (.headerMismatch required line .start) else .ok h
    | none => .ok h

/-- Reads a document into a world. A scene that is read holds a handle of its root. -/
def read (d : Document) (w : World) : ReadOutcome :=
  match d.header with
  | .error e => ⟨.error e, w, d.progress, []⟩
  | .ok h =>
    let (lexemes, stop) := (Cursor.ofText d.text).readLine.2.lexemes (some h)
    let time := if d.time.isUnset then d.now else d.time
    let (scene, w) := Scene.create w d.library d.file d.renders time
    let ctx : DocumentContext :=
      { file := d.file
        catalog := d.catalog
        environment :=
          { library := d.library, filename := d.file, scene := scene.root, renders := d.renders }
        time
        size := d.text.utf8ByteSize
        stop := stop.position
        control := d.control }
    let start : ReaderState := { lexemes, world := w, scene, progress := d.progress }
    let (result, s) := (Reader.document ctx).run.run start
    ⟨result.map fun _ => s.scene, s.world, s.progress, s.checkpoints.reverse⟩

end Document

end SceneGraph
