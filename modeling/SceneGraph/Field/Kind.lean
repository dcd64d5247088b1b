/-!
# Kinds of fields

A field holds values of one of thirteen types, either a single one or a list. Type and dimension
together are its kind, which documents write as a keyword such as `SFVec3f` or `MFNode`.
-/

namespace SceneGraph

/-- The types of values. -/
inductive FieldType where
  | boolean | int | float | time | string | color | rotation
  | vector2 | vector3 | vector4 | matrix3 | matrix4 | node
  deriving DecidableEq, Repr

/-- One value or a list of values. -/
inductive Dimension where
  | single | multi
  deriving DecidableEq, Repr

/-- The type and the dimension of a field. -/
structure Kind where
  type : FieldType
  dimension : Dimension
  deriving DecidableEq, Repr

namespace FieldType

/-- Every type once. -/
def all : List FieldType :=
  [boolean, int, float, time, string, color, rotation,
    vector2, vector3, vector4, matrix3, matrix4, node]

theorem mem_all (t : FieldType) : t ∈ all := by cases t <;> decide

/-- The part of a kind's keyword that names the type. -/
def suffix : FieldType → String
  | boolean => "Bool"
  | int => "Int32"
  | float => "Float"
  | time => "Time"
  | string => "String"
  | color => "Color"
  | rotation => "Rotation"
  | vector2 => "Vec2f"
  | vector3 => "Vec3f"
  | vector4 => "Vec4f"
  | matrix3 => "Matrix3f"
  | matrix4 => "Matrix4f"
  | node => "Node"

/-- The name of a type in messages. -/
def label : FieldType → String
  | boolean => "BOOLEAN"
  | int => "INT"
  | float => "FLOAT"
  | time => "TIME"
  | string => "STRING"
  | color => "COLOR"
  | rotation => "ROTATION"
  | vector2 => "VECTOR2"
  | vector3 => "VECTOR3"
  | vector4 => "VECTOR4"
  | matrix3 => "MATRIX3"
  | matrix4 => "MATRIX4"
  | node => "NODE"

/-- The type that the part of a keyword behind its first two letters names. -/
def ofSuffix? (s : String) : Option FieldType := all.find? (·.suffix == s)

/-- Types that only documents with an extended header may declare. -/
def isExtended : FieldType → Bool
  | vector4 | matrix3 | matrix4 => true
  | _ => false

end FieldType

/-- The name of a dimension in messages. -/
def Dimension.label : Dimension → String
  | single => "Single"
  | multi => "Multi"

/-- The first two letters of the keyword of a kind. -/
def Dimension.letters : Dimension → String
  | single => "SF"
  | multi => "MF"

namespace Kind

/-- The keyword of a kind, such as `SFVec3f`. -/
def keyword (k : Kind) : String := k.dimension.letters ++ k.type.suffix

/-- Every kind once. -/
def all : List Kind :=
  FieldType.all.flatMap fun t => [⟨t, .single⟩, ⟨t, .multi⟩]

/-- The kind that a keyword names. -/
def ofKeyword? (word : String) : Option Kind :=
  match word.toList with
  | 'S' :: 'F' :: suffix => (FieldType.ofSuffix? (String.ofList suffix)).map fun t => ⟨t, .single⟩
  | 'M' :: 'F' :: suffix => (FieldType.ofSuffix? (String.ofList suffix)).map fun t => ⟨t, .multi⟩
  | _ => none

/-- The kind in messages, such as `FLOAT/Single`. -/
def label (k : Kind) : String := s!"{k.type.label}/{k.dimension.label}"

theorem mem_all (k : Kind) : k ∈ all := by
  obtain ⟨t, d⟩ := k
  cases t <;> cases d <;> decide

end Kind

end SceneGraph
