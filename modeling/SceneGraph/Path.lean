/-!
# Paths of files

Paths are texts whose parts are divided by slashes. Two paths are the same if their parts are, so
doubled slashes and parts that are a single dot do not matter (`Path.components`).
-/

namespace SceneGraph.Path

def isAbsolute (path : String) : Bool := path.startsWith "/"

/-- The parts of a path. An absolute path starts with the part `/`; a dot counts only at the start of a
relative path. -/
def components (path : String) : List String :=
  let parts := path.splitOn "/"
  let kept := parts.filter fun p => p ≠ "" && p ≠ "."
  if isAbsolute path then "/" :: kept
  else if parts.head? = some "." then "." :: kept
  else kept

/-- Two paths with the same parts. -/
def same (a b : String) : Bool := components a == components b

/-- A path seen from a directory. -/
def join (directory path : String) : String :=
  if isAbsolute path || directory = "" then path
  else if directory.endsWith "/" then directory ++ path
  else directory ++ "/" ++ path

/-- The last part of a path, if it names something. -/
def fileName? (path : String) : Option String :=
  (components path).getLast?.filter fun p => p ≠ "/" && p ≠ "." && p ≠ ".."

/-- What stands behind the last dot of the last part; a dot at its very start does not count. -/
def extension? (path : String) : Option String :=
  (fileName? path).bind fun name =>
    let cs := name.toList
    let extension := (cs.reverse.takeWhile (· ≠ '.')).reverse
    let front := cs.length - extension.length
    if front ≤ 1 then none else some (String.ofList extension)

end SceneGraph.Path
