import SceneGraph.Access
import SceneGraph.Field.Kind

/-!
# Refusals of a node

Why a node refuses to read or change one of its fields.
-/

namespace SceneGraph

inductive NodeError where
  | fieldNotFound (nodeType field : String)
  | accessDenied (field : String) (required access : Access)
  | typeMismatch (field : String) (expected found : Kind)
  | fieldExists (field : String)
  | notDynamic (nodeType : String)
  | rejected (field : String)
  deriving DecidableEq, Repr

namespace NodeError

/-- The name of the cause. -/
def name : NodeError → String
  | fieldNotFound .. => "FieldNotFound"
  | accessDenied .. => "AccessDenied"
  | typeMismatch .. => "TypeMismatch"
  | fieldExists .. => "FieldExists"
  | notDynamic .. => "NotDynamic"
  | rejected .. => "Rejected"

def message : NodeError → String
  | fieldNotFound nodeType field => s!"{nodeType} has no field '{field}'"
  | accessDenied field required access =>
    s!"field '{field}' does not permit {required.text} (access: {access.text})"
  | typeMismatch field expected found => s!"field '{field}' is {expected.label}, got {found.label}"
  | fieldExists field => s!"field '{field}' already exists"
  | notDynamic nodeType => s!"{nodeType} does not support dynamic fields"
  | rejected field => s!"change of field '{field}' was rejected"

end NodeError

end SceneGraph
