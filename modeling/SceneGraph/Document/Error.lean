import SceneGraph.Document.Token
import SceneGraph.Node.Error
import SceneGraph.Specification

/-!
# Errors of documents

Why a document cannot be read, or a part of it not. Only a bad header, a request to stop and a faulty
type of nodes end the reading; every other error costs the declaration or the statement that it
occurs in.
-/

namespace SceneGraph

inductive ReadError where
  | unexpectedToken (expected found : String) (position : Position)
  | endOfFile (position : Position)
  | invalidHeader (found : String) (position : Position)
  | headerMismatch (required : Header) (found : String) (position : Position)
  | unknownField (nodeType field : String) (position : Position)
  | node (error : NodeError) (position : Position)
  | layout (error : LayoutError)
  | cancelled
  deriving DecidableEq, Repr

namespace ReadError

/-- The name of the cause. -/
def name : ReadError → String
  | unexpectedToken .. => "UnexpectedToken"
  | endOfFile _ => "UnexpectedEof"
  | invalidHeader .. => "InvalidHeader"
  | headerMismatch .. => "HeaderMismatch"
  | unknownField .. => "UnknownField"
  | node .. => "Node"
  | layout _ => "panic"
  | cancelled => "Cancelled"

def message : ReadError → String
  | unexpectedToken expected found p => s!"{p.text}: expected {expected}, got {found}"
  | endOfFile p => s!"{p.text}: unexpected end of file"
  | invalidHeader found p => s!"{p.text}: invalid file header \"{found}\""
  | headerMismatch required found p =>
    s!"{p.text}: .{required.extension} files need the header \"{required.line}\", got \"{found}\""
  | unknownField nodeType field p => s!"{p.text}: {nodeType} has no field '{field}'"
  | node e p => s!"{p.text}: {e.message}"
  | layout e => e.message
  | cancelled => "parsing was cancelled"

end ReadError

end SceneGraph
