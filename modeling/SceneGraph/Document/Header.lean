import SceneGraph.Text.Blank

/-!
# Header lines

A document opens with one of four header lines. Two of them allow the words `META` and `PROFILE`
(`Header.isX3d`), and two allow the extended field types (`Header.isExtended`). Each header goes
with a file extension.
-/

namespace SceneGraph

/-- The four kinds of documents. -/
inductive Header where
  | vrml | x3d | extendedVrml | extendedX3d
  deriving DecidableEq, Repr

namespace Header

def all : List Header := [vrml, x3d, extendedVrml, extendedX3d]

/-- The name of a kind of document. -/
def name : Header → String
  | vrml => "Vrml"
  | x3d => "X3d"
  | extendedVrml => "ExtendedVrml"
  | extendedX3d => "ExtendedX3d"

/-- The line that opens a document. -/
def line : Header → String
  | vrml => "#VRML V2.0 utf8"
  | x3d => "#X3D V3.0 utf8"
  | extendedVrml => "#OVRML V2.0 utf8"
  | extendedX3d => "#OX3D V3.0 utf8"

/-- The extension of files that hold such documents, without a dot. -/
def extension : Header → String
  | vrml => "wrl"
  | x3d => "x3dv"
  | extendedVrml => "owrl"
  | extendedX3d => "ox3dv"

/-- The words `META` and `PROFILE` are known. -/
def isX3d : Header → Bool
  | x3d | extendedX3d => true
  | _ => false

/-- The extended field types may be declared. -/
def isExtended : Header → Bool
  | extendedVrml | extendedX3d => true
  | _ => false

/-- The header that a line is, blank characters at its end aside. -/
def ofLine? (s : String) : Option Header :=
  all.find? (·.line == String.ofList (Text.trimEnd s.toList))

/-- The header that goes with a file extension, in upper or lower case. -/
def ofExtension? (extension : String) : Option Header := all.find? (·.extension == extension.toLower)

theorem ofExtension?_extension (h : Header) : ofExtension? h.extension = some h := by
  cases h <;> decide +kernel

theorem ofLine?_line (h : Header) : ofLine? h.line = some h := by
  cases h <;> decide +kernel

end Header

end SceneGraph
