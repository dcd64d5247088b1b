import SceneGraph.Field.Basic

/-!
# How documents spell values

The text of a value in a document, for every type but nodes. Numbers have no exponent, strings escape
quotes and backslashes and nothing else, and matrices are written row by row. A list stands in
brackets with commas between its values.
-/

namespace SceneGraph

/-- A character of a quoted string in a document. -/
def spellChar (c : Char) : List Char := if c = '"' ∨ c = '\\' then ['\\', c] else [c]

/-- A quoted string in a document. -/
def spellString (s : String) : String := String.ofList ('"' :: s.toList.flatMap spellChar ++ ['"'])

/-- The parts of a value with blanks between them. -/
def spellParts {α : Type} [Parts α] (a : α) : String :=
  " ".intercalate ((Parts.parts a).map Decimal.plain32)

/-- The text of a value. A node has no text of its own. -/
def FieldType.spell : (t : FieldType) → t.Carrier → String
  | boolean, (b : Bool) => if b then "TRUE" else "FALSE"
  | int, (i : Int32) => toString i.toInt
  | float, (x : Float32) => Decimal.plain32 x
  | time, (x : Float) => Decimal.plain x
  | string, (s : String) => spellString s
  | color, (c : Color) => spellParts c
  | rotation, (r : Rotation) => spellParts r
  | vector2, (v : Vector2) => spellParts v
  | vector3, (v : Vector3) => spellParts v
  | vector4, (v : Vector4) => spellParts v
  | matrix3, (m : Matrix3) => spellParts m.transpose
  | matrix4, (m : Matrix4) => spellParts m.transpose
  | node, _ => "NULL"

/-- The text of a list of values. -/
def FieldType.spellList (t : FieldType) (values : List t.Carrier) : String :=
  if values.isEmpty then "[]" else "[ " ++ ", ".intercalate (values.map t.spell) ++ " ]"

/-- The text of the content of a field. -/
def Field.spell : Field → String
  | ⟨⟨t, .single⟩, value, _⟩ => t.spell value
  | ⟨⟨t, .multi⟩, values, _⟩ => t.spellList values

end SceneGraph
