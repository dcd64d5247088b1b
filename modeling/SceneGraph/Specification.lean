import SceneGraph.Access
import SceneGraph.Field.Basic

/-!
# Layouts of node types

A `Specification` lists the fields that every node of a type has: their names, access rights and
first values, in a fixed order. Names occur once, which `Specification.ofFields` checks.
-/

namespace SceneGraph

/-- One field of a node type. -/
structure FieldSpec where
  name : String
  access : Access
  /-- What the field holds in a fresh node. -/
  initial : Field

/-- The fields that all nodes of a type share. -/
structure Specification where
  typeName : String
  entries : List FieldSpec

/-- A type lists two fields of one name. -/
structure LayoutError where
  typeName : String
  field : String
  deriving DecidableEq, Repr

def LayoutError.message (e : LayoutError) : String :=
  s!"{e.typeName}: field '{e.field}' registered twice"

namespace Specification

def names (s : Specification) : List String := s.entries.map (·.name)

/-- The place of a field in the list. -/
def index? (s : Specification) (name : String) : Option Nat :=
  s.entries.findIdx? (·.name == name)

def entry? (s : Specification) (name : String) : Option FieldSpec :=
  s.entries.find? (·.name == name)

def hasField (s : Specification) (name : String) : Bool := (s.entry? name).isSome

/-- The fields of a fresh node. -/
def instantiate (s : Specification) : List Field := s.entries.map (·.initial)

/-- The first name that a list of fields has twice. -/
def duplicate? (seen : List String) : List FieldSpec → Option String
  | [] => none
  | f :: rest => if seen.contains f.name then some f.name else duplicate? (f.name :: seen) rest

/-- The layout with the given fields, unless two of them share a name. -/
def ofFields (typeName : String) (fields : List FieldSpec) : Except LayoutError Specification :=
  match duplicate? [] fields with
  | some field => .error ⟨typeName, field⟩
  | none => .ok ⟨typeName, fields⟩

end Specification

end SceneGraph
