import SceneGraph.Scene

/-!
# Reports

What people and other programs are told about a scene: `Scene.report`, a block of lines for every
node and a line for every route, and `Scene.summary`, the same as JSON. Both show all fields of a
node sorted by name.
-/

namespace SceneGraph

/-- The name of a node, or its type if it has none, with its id. -/
def Node.label (n : Node) : String :=
  let name := if n.name = "" then n.typeName else n.name
  s!"{name} #{n.id}"

namespace World

/-- All fields of a node in JSON, sorted by name. -/
def fieldSummary (w : World) (n : Node) : List (String × Json) :=
  (n.fieldNames.filterMap fun name => (n.field? name).map fun f => (name, f.json w.describe)).foldl
    (fun acc (name, value) => Json.insertField name value acc) []

/-- A node in JSON. -/
def nodeSummary (w : World) (n : Node) : Json :=
  .ofFields [("id", .int n.id.value), ("type", .string n.typeName), ("name", .string n.name),
    ("dynamic", .array (n.dynamicNames.map .string)), ("fields", .object (w.fieldSummary n))]

/-- The lines about a node: its label after an empty line, and its fields. Fields of its own are marked
with a plus. -/
def nodeReport (w : World) (n : Node) : String :=
  "\n" ++ n.label ++ "\n" ++
    String.join ((w.fieldSummary n).map fun (name, value) =>
      " " ++ (if n.dynamicNames.contains name then "+" else " ") ++ name ++ " = " ++ value.compact ++
        "\n")

/-- How a report calls a node that may be gone. -/
def labelOf (w : World) (id : NodeId) : String := (w.node? id).elim s!"#{id}" Node.label

end World

namespace Scene

variable (s : Scene)

/-- The nodes of a scene as they are. -/
def liveNodes (w : World) : List Node := (s.nodes w).filterMap w.node?

def environment (w : World) : Environment := (w.node? s.root).elim .detached (·.environment)

/-- A scene in JSON. -/
def summary (w : World) : Json :=
  let environment := s.environment w
  .ofFields [("scene", .int s.root.value),
    ("file", .string environment.filename),
    ("library", .string environment.library),
    ("profile", s.profile.elim .null .string),
    ("meta", .ofFields (s.metadata.map fun (k, v) => (k, .string v))),
    ("children", .array ((s.children w).map fun id => .int id.value)),
    ("nodes", .array ((s.liveNodes w).map w.nodeSummary)),
    ("routes", .array ((s.routes w).map fun (source, field, route) =>
      .ofFields [("from", .int source.value), ("fromField", .string field),
        ("to", .int route.target.value), ("toField", .string route.field)]))]

/-- The lines about a scene, its nodes and its routes. -/
def report (w : World) : String :=
  let routes := s.routes w
  s!"scene #{s.root} ({(s.environment w).filename})\n" ++
    s.profile.elim "" (fun p => s!"profile {p}\n") ++
    String.join (s.metadata.map fun (k, v) => s!"meta {Text.shown k} {Text.shown v}\n") ++
    String.join ((s.liveNodes w).map w.nodeReport) ++
    (if routes.isEmpty then "" else "\n") ++
    String.join (routes.map fun (source, field, route) =>
      s!"ROUTE {w.labelOf source}.{field} TO {w.labelOf route.target}.{route.field}\n")

end Scene

end SceneGraph
