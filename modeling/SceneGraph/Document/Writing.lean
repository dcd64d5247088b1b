import SceneGraph.Document.Outline

/-!
# Writing scenes

`Scene.text` is the document of a scene: the header line, for X3D the profile and the metadata, the
outline of every top-level node, and last the routes between nodes that the document names. Routes
from or to the root are left out, because the root itself is not written.
-/

namespace SceneGraph

namespace Scene

variable (s : Scene)

/-- The routes that are written: those that neither leave nor enter the root. -/
def innerRoutes (w : World) : List (NodeId × String × Route) :=
  (s.routes w).filter fun (source, _, route) => source ≠ s.root ∧ route.target ≠ s.root

/-- How often each node is referred to: every reference of the root and of the nodes of the scene. -/
def uses (w : World) : List NodeId := (s.root :: s.nodes w).flatMap w.referencesOf

/-- The name of a node in the document: its own, or one made for it if it needs one. -/
def nameFor (uses ends : List NodeId) (n : Node) : Option String :=
  if n.name ≠ "" then some n.name
  else if uses.count n.id > 1 ∨ ends.contains n.id then some s!"{n.typeName}_{n.id}"
  else none

/-- The names of all nodes that have one in the document. -/
def namesFor (w : World) : NodeNames :=
  let uses := s.uses w
  let ends := (s.innerRoutes w).flatMap fun (source, _, route) => [source, route.target]
  (s.nodes w).filterMap fun id =>
    ((w.node? id).bind (nameFor uses ends)).map (id, ·)

/-- What a document with some header says about the top-level nodes, and what was left out. -/
def outline (w : World) (header : Header) : List NodeOutline × OutlineState :=
  ((s.children w).mapM (Outliner.node { header, world := w, names := s.namesFor w })).run {}

/-- The lines about the document as a whole. -/
def preamble (header : Header) : String :=
  header.line ++ "\n" ++
    if header.isX3d then
      s.profile.elim "" (fun p => "PROFILE " ++ p ++ "\n") ++
        String.join (s.metadata.map fun (k, v) =>
          "META " ++ spellString k ++ " " ++ spellString v ++ "\n")
    else ""

/-- The line for a route, if both its ends have names. -/
def routeLine (names : NodeNames) (r : NodeId × String × Route) : String :=
  match names.name? r.1, names.name? r.2.2.target with
  | some source, some target => s!"ROUTE {source}.{r.2.1} TO {target}.{r.2.2.field}\n"
  | _, _ => ""

/-- The lines for the routes, after an empty line. -/
def routeLines (w : World) : String :=
  let routes := s.innerRoutes w
  if routes.isEmpty then ""
  else "\n" ++ String.join (routes.map (routeLine (s.namesFor w)))

/-- The document of a scene. -/
def text (w : World) (header : Header) : String :=
  s.preamble header ++
    String.join ((s.outline w header).1.map fun n => "\n" ++ n.text 0 ++ "\n") ++ s.routeLines w

/-- Writes the document of a scene and reports what is left out. -/
def write (w : World) (header : Header) : String × World :=
  (s.text w header,
    (s.outline w header).2.omitted.reverse.foldl (fun w f => w.log .warn f.message) w)

end Scene

end SceneGraph
