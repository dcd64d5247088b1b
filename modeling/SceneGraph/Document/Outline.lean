import SceneGraph.Document.Header
import SceneGraph.Document.Spelling
import SceneGraph.Scene
import SceneGraph.Text.Indent

/-!
# Outlines

An outline is what a document says about nodes, before it is laid out as text: the first occurrence
of a node declares it with all fields that differ from their first values, and every later one uses
it by name (`NodeOutline`). `Scene.outline` walks depth first from the top-level nodes, following
the fields in the order of the layout and then the node's own fields; it never declares a node
twice, so it ends on graphs with cycles too. Fields that can be set but not read are left out, and so
are own fields of a type that the header does not allow, which is noted (`OmittedField`).

A node that is used again, or stands at an end of a route, needs a name: its own, or else one made of
its type and its id (`Scene.namesFor`).
-/

namespace SceneGraph

mutual

/-- What a document says about a node at one place. -/
inductive NodeOutline where
  /-- There is no node. -/
  | null
  /-- A node declared before. -/
  | use (name : String)
  | declare (id : NodeId) (name : Option String) (typeName : String) (entries : List EntryOutline)

/-- What a declaration says about a field, which is labelled by its name, or by its kind and its name
if it is declared there. -/
inductive EntryOutline where
  | value (label : String) (value : Field)
  | node (label : String) (node : NodeOutline)
  | nodes (label : String) (nodes : List NodeOutline)

end

/-- A field of a node's own that a header does not allow. -/
structure OmittedField where
  nodeType : String
  node : NodeId
  field : String
  deriving DecidableEq, Repr

def OmittedField.message (f : OmittedField) : String :=
  s!"{f.nodeType} #{f.node}: dynamic field '{f.field}' needs an extended header, not written"

/-- The names of nodes in a document. -/
abbrev NodeNames := List (NodeId × String)

/-- The name of a node in a document. -/
def NodeNames.name? (names : NodeNames) (id : NodeId) : Option String :=
  (names.find? (·.1 == id)).map (·.2)

/-- What stays the same while an outline is made. -/
structure OutlineContext where
  header : Header
  world : World
  names : NodeNames

/-- What has been said so far. -/
structure OutlineState where
  /-- The nodes declared so far, the last one first. -/
  declared : List NodeId := []
  /-- The fields left out so far, the last one first. -/
  omitted : List OmittedField := []
  deriving DecidableEq, Repr

/-- A step in making an outline. -/
abbrev Outliner (α : Type) := StateM OutlineState α

namespace Outliner

variable (ctx : OutlineContext)

/-- The entry for a field. -/
def entry (node : NodeId → Outliner NodeOutline) (label : String) (f : Field) :
    Outliner EntryOutline :=
  match f.kind with
  | ⟨.node, .single⟩ =>
    match f.references.head? with
    | some id => .node label <$> node id
    | none => pure (.node label .null)
  | ⟨.node, .multi⟩ => .nodes label <$> f.references.mapM node
  | _ => pure (.value label f)

/-- The fields of a node's type that are written: those that can be read or cannot be set, with a value
that is not the first one. -/
def writtenFields (n : Node) : List (String × Field) :=
  n.spec.entries.filterMap fun e =>
    if e.access.set && !e.access.get then none
    else
      match n.field? e.name with
      | some f => if f.sameValue e.initial then none else some (e.name, f)
      | none => none

/-- The entry for a field of a node's own, unless the header does not allow it. -/
def ownEntry (node : NodeId → Outliner NodeOutline) (n : Node) (own : String × Field) :
    Outliner (Option EntryOutline) := do
  let kind := own.2.kind
  if kind.type.isExtended && !ctx.header.isExtended then
    modify fun s => { s with omitted := ⟨n.typeName, n.id, own.1⟩ :: s.omitted }
    return none
  else some <$> entry node s!"{kind.keyword} {own.1}" own.2

/-- All entries of a declaration. -/
def entries (node : NodeId → Outliner NodeOutline) (n : Node) : Outliner (List EntryOutline) := do
  let fixed ← (writtenFields n).mapM fun f => entry node f.1 f.2
  let own ← n.dynamic.mapM (ownEntry ctx node n)
  return fixed ++ own.filterMap id

/-- What is said about a node, if declarations nest at most so many levels deep. -/
def nodeUpTo : Nat → NodeId → Outliner NodeOutline
  | 0, _ => pure .null
  | depth + 1, id => do
    if (← get).declared.contains id then return (ctx.names.name? id).elim .null .use
    else
      match ctx.world.node? id with
      | none => return .null
      | some n =>
        modify fun s => { s with declared := id :: s.declared }
        return .declare id (ctx.names.name? id) n.typeName (← entries ctx (nodeUpTo depth) n)

/-- What is said about a node. Every level declares one more of the live nodes. -/
def node (id : NodeId) : Outliner NodeOutline := nodeUpTo ctx (ctx.world.nodes.length + 1) id

end Outliner

/-! ### The text of an outline -/

open Text (newline)

mutual

/-- The text of a node at some depth. -/
def NodeOutline.text (depth : Nat) : NodeOutline → String
  | .null => "NULL"
  | .use name => "USE " ++ name
  | .declare _ name typeName entries =>
    name.elim "" (fun name => "DEF " ++ name ++ " ") ++ typeName ++ " \x7b" ++
      EntryOutline.linesText (depth + 1) entries ++
      (if entries.isEmpty then " " else newline depth) ++ "\x7d"

/-- The text of an entry at some depth. -/
def EntryOutline.text (depth : Nat) : EntryOutline → String
  | .value label f => label ++ " " ++ f.spell
  | .node label n => label ++ " " ++ n.text depth
  | .nodes label ns =>
    label ++ " [" ++ NodeOutline.linesText (depth + 1) ns ++
      (if ns.isEmpty then "" else newline depth) ++ "]"

/-- Nodes, each on a line of its own. -/
def NodeOutline.linesText (depth : Nat) : List NodeOutline → String
  | [] => ""
  | n :: rest => newline depth ++ n.text depth ++ NodeOutline.linesText depth rest

/-- Entries, each on a line of its own. -/
def EntryOutline.linesText (depth : Nat) : List EntryOutline → String
  | [] => ""
  | e :: rest => newline depth ++ e.text depth ++ EntryOutline.linesText depth rest

end

end SceneGraph
