import SceneGraph.Decimal.Narrow
import SceneGraph.Document.Reader

/-!
# Values in documents

How the value of a field of each type is written. Numbers may be integers, strings may be plain names,
parts of colors are moved into the unit interval, axes of rotations are brought to length one, and
matrices are written row by row. A list is a bracketed sequence or one bare value.
-/

namespace SceneGraph

namespace Reader

variable {α : Type} (ctx : DocumentContext)

def boolean : Reader Bool :=
  token ctx "TRUE or FALSE" fun
    | .keyword (.bool b) => some b
    | _ => none

def integer : Reader Int32 :=
  token ctx "an integer" fun
    | .integer i => some i
    | _ => none

def number : Reader Float :=
  token ctx "a number" fun
    | .integer i => some (Float.ofInt i.toInt)
    | .number x => some x
    | _ => none

def float : Reader Float32 := Decimal.narrow <$> number ctx

/-- A quoted string or a plain name. -/
def string : Reader String :=
  token ctx "a string" fun
    | .string s => some s
    | .identifier s => some s
    | _ => none

def vector2 : Reader Vector2 := do return ⟨← float ctx, ← float ctx⟩

def vector3 : Reader Vector3 := do return ⟨← float ctx, ← float ctx, ← float ctx⟩

def vector4 : Reader Vector4 := do return ⟨← float ctx, ← float ctx, ← float ctx, ← float ctx⟩

def color : Reader Color := do
  let v ← vector3 ctx
  return .clamped v.x v.y v.z

/-- An axis and an angle. An axis without a direction makes the whole rotation the identity. -/
def rotation : Reader Rotation := do
  let axis ← vector3 ctx
  let angle ← float ctx
  match Rotation.ofAxisAngle? axis angle with
  | some r => return r
  | none =>
    warn ctx (← last) "invalid rotation axis, using the default axis"
    return .identity

def matrix3 : Reader Matrix3 := do
  let rows : Matrix3 := ⟨← vector3 ctx, ← vector3 ctx, ← vector3 ctx⟩
  return rows.transpose

def matrix4 : Reader Matrix4 := do
  let rows : Matrix4 := ⟨← vector4 ctx, ← vector4 ctx, ← vector4 ctx, ← vector4 ctx⟩
  return rows.transpose

/-- One value of a type; `node` reads a node. -/
def value (node : Reader (Option NodeId)) : (t : FieldType) → Reader t.Carrier
  | .boolean => boolean ctx
  | .int => integer ctx
  | .float => float ctx
  | .time => number ctx
  | .string => string ctx
  | .color => color ctx
  | .rotation => rotation ctx
  | .vector2 => vector2 ctx
  | .vector3 => vector3 ctx
  | .vector4 => vector4 ctx
  | .matrix3 => matrix3 ctx
  | .matrix4 => matrix4 ctx
  | .node => node

/-- Values up to the closing bracket, at most `n`. -/
def items (item : Reader α) : Nat → Reader (List α)
  | 0 => throw (.endOfFile ctx.stop)
  | n + 1 => do
    if ← optionalSymbol ctx .listEnd then return []
    else return (← item) :: (← items item n)

/-- A bracketed list or one bare value. -/
def list (item : Reader α) : Reader (List α) := do
  if ← optionalSymbol ctx .listBegin then items ctx item ((← get).lexemes.length + 1)
  else return [← item]

/-- Nodes up to the closing bracket, after those read before. Nothing is entered for a node that is
missing, and a failure lets go of the nodes read so far. -/
def nodeItems (node : Reader (Option NodeId)) : Nat → List NodeId → Reader (List NodeId)
  | 0, _ => throw (.endOfFile ctx.stop)
  | n + 1, before => do
    if ← optionalSymbol ctx .listEnd then return before
    else
      let next ← onFailure node (·.dropAll before)
      nodeItems node n (before ++ next.toList)

/-- A bracketed list of nodes or one bare node. -/
def nodeList (node : Reader (Option NodeId)) : Reader (List NodeId) := do
  if ← optionalSymbol ctx .listBegin then nodeItems ctx node ((← get).lexemes.length + 1) []
  else return (← node).toList

/-- The content of a field of a kind, set at the time of the document. The nodes in it are held. -/
def content (node : Reader (Option NodeId)) : Kind → Reader Field
  | ⟨t, .single⟩ => do return .single t (← value ctx node t) ctx.time
  | ⟨.node, .multi⟩ => do return .nodes (← nodeList ctx node) ctx.time
  | ⟨t, .multi⟩ => do return .multi t (← list ctx (value ctx node t)) ctx.time

end Reader

end SceneGraph
