/-!
# File extensions

The extension of a file name, without its dot and in lower case, with a description for people.
-/

namespace SceneGraph

/-- A file extension that a library loads. -/
structure FileExtension where
  /-- In lower case and without a dot in front. -/
  extension : String
  description : String
  deriving DecidableEq, Repr

namespace FileExtension

/-- Drops the dots in front and turns ASCII letters into lower case. -/
def normalize (s : String) : String :=
  String.ofList ((s.toList.dropWhile (· == '.')).map Char.toLower)

/-- The extension of a given spelling. -/
def ofSpelling (spelling description : String) : FileExtension := ⟨normalize spelling, description⟩

end FileExtension

end SceneGraph
