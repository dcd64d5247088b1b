import SceneGraph.Path

/-!
# Storage

Where files are read from. `Storage` tells what each path leads to; a `FileTree` is storage made of
files given by the parts of their absolute paths, with the directories that they need. Paths of a
tree are walked part by part: two dots lead to the directory above, and nothing lies below a file.
Paths and their parts must not be too long.
-/

namespace SceneGraph

/-- Why a path cannot be read or written. -/
inductive StorageFault where
  | missing
  | notDirectory
  | isDirectory
  | notText
  /-- The path, or one of its parts, is too long. -/
  | nameTooLong
  /-- No path holds the character of code zero. -/
  | zeroCharacter
  /-- Some other reason, in the words of the host. -/
  | other (reason : String)
  deriving DecidableEq, Repr

def StorageFault.message : StorageFault → String
  | missing => "No such file or directory (os error 2)"
  | notDirectory => "Not a directory (os error 20)"
  | isDirectory => "Is a directory (os error 21)"
  | notText => "stream did not contain valid UTF-8"
  | nameTooLong => "File name too long (os error 36)"
  | zeroCharacter => "file name contained an unexpected NUL byte"
  | other reason => reason

/-- What a path leads to. -/
inductive StorageEntry where
  | directory
  | file (content : ByteArray)
  | fault (reason : StorageFault)

structure Storage where
  /-- Where relative paths start. -/
  workingDirectory : String
  /-- What a path leads to. -/
  entry : String → StorageEntry

namespace Storage

def isFile (s : Storage) (path : String) : Bool :=
  match s.entry path with
  | .file _ => true
  | _ => false

/-- The text in a file. -/
def read (s : Storage) (path : String) : Except StorageFault String :=
  match s.entry path with
  | .file content =>
    match String.fromUTF8? content with
    | some text => .ok text
    | none => .error .notText
  | .directory => .error .isDirectory
  | .fault reason => .error reason

end Storage

/-- Files by the parts of their absolute paths. -/
structure FileTree where
  workingDirectory : String
  files : List (List String × ByteArray)

namespace FileTree

/-- The parts of a path that name something, without the slashes. -/
def parts (path : String) : List String := (path.splitOn "/").filter (· ≠ "")

/-- The place where relative paths start. -/
def root (t : FileTree) : List String := parts t.workingDirectory

/-- The tree with one more file; the file replaces one of its name. -/
def insert (t : FileTree) (place : List String) (content : ByteArray) : FileTree :=
  { t with files := t.files.filter (·.1 != place) ++ [(place, content)] }

/-- The tree whose files are given by paths relative to the working directory. -/
def ofFiles (workingDirectory : String) (files : List (String × ByteArray)) : FileTree :=
  let root := parts workingDirectory
  ⟨workingDirectory, files.map fun (path, content) =>
    (root ++ (parts path).filter (· ≠ "."), content)⟩

/-- There is a directory at a place: the working directory, one above it, or one with files below. -/
def isDirectory (t : FileTree) (place : List String) : Bool :=
  place.isPrefixOf t.root || t.files.any fun f => place.isPrefixOf f.1 && place ≠ f.1

/-- What is found at a place. -/
def entryAt (t : FileTree) (place : List String) : StorageEntry :=
  if t.isDirectory place then .directory
  else
    match t.files.find? (·.1 == place) with
    | some (_, content) => .file content
    | none => .fault .missing

/-- How many bytes a path may have. -/
def maxPathSize : Nat := 4095

/-- How many bytes a part of a path may have. -/
def maxPartSize : Nat := 255

/-- What is wrong with a path wherever it leads. -/
def pathFault? (path : String) : Option StorageFault :=
  if path = "" then some .missing
  else if path.toList.any (· == '\x00') then some .zeroCharacter
  else if maxPathSize < path.utf8ByteSize then some .nameTooLong
  else none

/-- The place reached from a directory by the parts of a path. -/
def walk (t : FileTree) : List String → List String → Except StorageFault (List String)
  | place, [] => .ok place
  | place, part :: rest =>
    match t.entryAt place with
    | .directory =>
      if part = "." then walk t place rest
      else if part = ".." then walk t place.dropLast rest
      else if maxPartSize < part.utf8ByteSize then .error .nameTooLong
      else walk t (place ++ [part]) rest
    | .file _ => .error .notDirectory
    | .fault reason => .error reason

/-- Where the walk along a path starts. -/
def start (t : FileTree) (path : String) : List String := if Path.isAbsolute path then [] else t.root

/-- A path with a slash at its end means a directory. -/
def meansDirectory (path : String) : Bool := path.endsWith "/"

/-- What a path leads to. -/
def entry (t : FileTree) (path : String) : StorageEntry :=
  match pathFault? path, t.walk (t.start path) (parts path) with
  | some reason, _ => .fault reason
  | none, .error reason => .fault reason
  | none, .ok place =>
    match t.entryAt place with
    | .file content => if meansDirectory path then .fault .notDirectory else .file content
    | found => found

/-- The tree as storage. -/
def storage (t : FileTree) : Storage := ⟨t.workingDirectory, t.entry⟩

/-- Writes a text into a file of a directory. -/
def writeIn (t : FileTree) (directory : List String) (name text : String) :
    Except StorageFault FileTree :=
  if name = "." ∨ name = ".." then .error .isDirectory
  else if maxPartSize < name.utf8ByteSize then .error .nameTooLong
  else if t.isDirectory (directory ++ [name]) then .error .isDirectory
  else .ok (t.insert (directory ++ [name]) text.toUTF8)

/-- Writes a text into a file, which may be a new one in a directory that is there. -/
def write (t : FileTree) (path text : String) : Except StorageFault FileTree :=
  match pathFault? path, (parts path).getLast? with
  | some fault, _ => .error fault
  | none, none => .error .isDirectory
  | none, some name => do
    let directory ← t.walk (t.start path) (parts path).dropLast
    match t.entryAt directory with
    | .file _ => .error .notDirectory
    | .fault reason => .error reason
    | .directory =>
      if meansDirectory path then .error .isDirectory else t.writeIn directory name text

end FileTree

end SceneGraph
