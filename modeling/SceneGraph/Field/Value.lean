import SceneGraph.Field.Kind
import SceneGraph.Json
import SceneGraph.NodeId

/-!
# Values

What one value of each `FieldType` is (`FieldType.Carrier`), its default, when two values are equal,
and how a value looks in JSON. Numbers are compared as numbers: a NaN differs from itself and the
two zeros are equal.
-/

namespace SceneGraph

/-- A color by its red, green and blue parts. -/
structure Color where
  red : Float32
  green : Float32
  blue : Float32
  deriving BEq

structure Vector2 where
  x : Float32
  y : Float32
  deriving BEq

structure Vector3 where
  x : Float32
  y : Float32
  z : Float32
  deriving BEq

structure Vector4 where
  x : Float32
  y : Float32
  z : Float32
  w : Float32
  deriving BEq

/-- A 3 by 3 matrix by its columns. -/
structure Matrix3 where
  c0 : Vector3
  c1 : Vector3
  c2 : Vector3
  deriving BEq

/-- A 4 by 4 matrix by its columns. -/
structure Matrix4 where
  c0 : Vector4
  c1 : Vector4
  c2 : Vector4
  c3 : Vector4
  deriving BEq

/-- A rotation by an angle about an axis. -/
structure Rotation where
  axis : Vector3
  angle : Float32
  deriving BEq

/-- A number moved into the interval from zero to one; what does not compare stays. -/
def clampUnit (x : Float32) : Float32 := if x < 0 then 0 else if x > 1 then 1 else x

namespace Color

def black : Color := ⟨0, 0, 0⟩

/-- The color whose parts are the given numbers, each moved into the unit interval. -/
def clamped (r g b : Float32) : Color := ⟨clampUnit r, clampUnit g, clampUnit b⟩

end Color

namespace Vector3

def zero : Vector3 := ⟨0, 0, 0⟩

/-- The vector with three equal parts. -/
def splat (s : Float32) : Vector3 := ⟨s, s, s⟩

def scale (v : Vector3) (s : Float32) : Vector3 := ⟨v.x * s, v.y * s, v.z * s⟩

def add (v w : Vector3) : Vector3 := ⟨v.x + w.x, v.y + w.y, v.z + w.z⟩

def neg (v : Vector3) : Vector3 := ⟨-v.x, -v.y, -v.z⟩

def length (v : Vector3) : Float32 := (v.x * v.x + v.y * v.y + v.z * v.z).sqrt

/-- The vector of length one in the same direction; none if the length or its inverse is not a
finite positive number. -/
def normalize? (v : Vector3) : Option Vector3 :=
  let inverse := 1 / v.length
  if inverse.isFinite && inverse > 0 then some (v.scale inverse) else none

end Vector3

namespace Rotation

/-- No rotation, written about the second axis. -/
def identity : Rotation := ⟨⟨0, 1, 0⟩, 0⟩

/-- The rotation about an axis of any positive length. -/
def ofAxisAngle? (axis : Vector3) (angle : Float32) : Option Rotation :=
  axis.normalize?.map (⟨·, angle⟩)

/-- The unit quaternion of a rotation, scalar part last. -/
def toQuaternion (r : Rotation) : Vector4 :=
  let half := r.angle * 0.5
  let v := r.axis.scale half.sin
  ⟨v.x, v.y, v.z, half.cos⟩

end Rotation

namespace Matrix3

def identity : Matrix3 := ⟨⟨1, 0, 0⟩, ⟨0, 1, 0⟩, ⟨0, 0, 1⟩⟩

def transpose (m : Matrix3) : Matrix3 :=
  ⟨⟨m.c0.x, m.c1.x, m.c2.x⟩, ⟨m.c0.y, m.c1.y, m.c2.y⟩, ⟨m.c0.z, m.c1.z, m.c2.z⟩⟩

end Matrix3

namespace Matrix4

def identity : Matrix4 := ⟨⟨1, 0, 0, 0⟩, ⟨0, 1, 0, 0⟩, ⟨0, 0, 1, 0⟩, ⟨0, 0, 0, 1⟩⟩

def transpose (m : Matrix4) : Matrix4 :=
  ⟨⟨m.c0.x, m.c1.x, m.c2.x, m.c3.x⟩, ⟨m.c0.y, m.c1.y, m.c2.y, m.c3.y⟩,
    ⟨m.c0.z, m.c1.z, m.c2.z, m.c3.z⟩, ⟨m.c0.w, m.c1.w, m.c2.w, m.c3.w⟩⟩

end Matrix4

/-- The parts of a value that consists of 32-bit numbers, in storage order. -/
class Parts (α : Type) where
  parts : α → List Float32

instance : Parts Color := ⟨fun c => [c.red, c.green, c.blue]⟩
instance : Parts Vector2 := ⟨fun v => [v.x, v.y]⟩
instance : Parts Vector3 := ⟨fun v => [v.x, v.y, v.z]⟩
instance : Parts Vector4 := ⟨fun v => [v.x, v.y, v.z, v.w]⟩
instance : Parts Rotation := ⟨fun r => [r.axis.x, r.axis.y, r.axis.z, r.angle]⟩

/-- The columns of a matrix one after the other. -/
instance : Parts Matrix3 := ⟨fun m => [m.c0, m.c1, m.c2].flatMap Parts.parts⟩
instance : Parts Matrix4 := ⟨fun m => [m.c0, m.c1, m.c2, m.c3].flatMap Parts.parts⟩

/-- A list of 32-bit numbers in JSON. -/
def Json.ofParts {α : Type} [Parts α] (a : α) : Json := .array ((Parts.parts a).map Json.real32)

namespace FieldType

/-- What one value of a type is. A node value refers to a node by its id, or to none. -/
@[reducible] def Carrier : FieldType → Type
  | boolean => Bool
  | int => Int32
  | float => Float32
  | time => Float
  | string => String
  | color => Color
  | rotation => Rotation
  | vector2 => Vector2
  | vector3 => Vector3
  | vector4 => Vector4
  | matrix3 => Matrix3
  | matrix4 => Matrix4
  | node => Option NodeId

/-- The value that a field of a type starts from if nothing else is said. -/
def initial : (t : FieldType) → t.Carrier
  | boolean => false
  | int => (0 : Int32)
  | float => (0 : Float32)
  | time => (0 : Float)
  | string => ""
  | color => Color.black
  | rotation => Rotation.identity
  | vector2 => (⟨0, 0⟩ : Vector2)
  | vector3 => Vector3.zero
  | vector4 => (⟨0, 0, 0, 0⟩ : Vector4)
  | matrix3 => Matrix3.identity
  | matrix4 => Matrix4.identity
  | node => (none : Option NodeId)

/-- Equality of values, numbers being compared as numbers. -/
def sameValue : (t : FieldType) → t.Carrier → t.Carrier → Bool
  | boolean, (a : Bool), (b : Bool) => a == b
  | int, (a : Int32), (b : Int32) => a == b
  | float, (a : Float32), (b : Float32) => a == b
  | time, (a : Float), (b : Float) => a == b
  | string, (a : String), (b : String) => a == b
  | color, (a : Color), (b : Color) => a == b
  | rotation, (a : Rotation), (b : Rotation) => a == b
  | vector2, (a : Vector2), (b : Vector2) => a == b
  | vector3, (a : Vector3), (b : Vector3) => a == b
  | vector4, (a : Vector4), (b : Vector4) => a == b
  | matrix3, (a : Matrix3), (b : Matrix3) => a == b
  | matrix4, (a : Matrix4), (b : Matrix4) => a == b
  | node, (a : Option NodeId), (b : Option NodeId) => a == b

/-- The node that a value refers to, if it does. -/
def nodeOf? : (t : FieldType) → t.Carrier → Option NodeId
  | node, (a : Option NodeId) => a
  | _, _ => none

theorem nodeOf?_eq_none {t : FieldType} (h : t ≠ .node) (v : t.Carrier) : t.nodeOf? v = none := by
  cases t <;> first | rfl | exact absurd rfl h

/-- A value in JSON; `describe` tells how a node looks there. Matrices are lists of rows. -/
def json (describe : NodeId → Json) : (t : FieldType) → t.Carrier → Json
  | boolean, (b : Bool) => .bool b
  | int, (i : Int32) => .int i.toInt
  | float, (x : Float32) => .real32 x
  | time, (x : Float) => .real x
  | string, (s : String) => .string s
  | color, (c : Color) => .ofParts c
  | rotation, (r : Rotation) => .ofParts r
  | vector2, (v : Vector2) => .ofParts v
  | vector3, (v : Vector3) => .ofParts v
  | vector4, (v : Vector4) => .ofParts v
  | matrix3, (m : Matrix3) =>
    let rows := m.transpose
    .array [.ofParts rows.c0, .ofParts rows.c1, .ofParts rows.c2]
  | matrix4, (m : Matrix4) =>
    let rows := m.transpose
    .array [.ofParts rows.c0, .ofParts rows.c1, .ofParts rows.c2, .ofParts rows.c3]
  | node, (n : Option NodeId) => (n.map describe).getD .null

end FieldType

end SceneGraph
