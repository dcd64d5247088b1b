import SceneGraph.Library.FileExtension
import SceneGraph.Storage
import SceneGraph.Toml.Reading

/-!
# Settings

The settings of a host: where to look for files, what to log, and how documents are loaded. They
come from a file; a file that is missing means the defaults, and so does every entry that is missing
in a file. A file that is not well formed, or says anything else, is refused as a whole.
-/

namespace SceneGraph

/-- How documents are loaded. -/
structure DocumentSettings where
  /-- The place of the library of documents among all libraries. -/
  priority : Int := 0
  /-- Extensions of files with their descriptions, sorted by extension. -/
  extensions : List (String × String) :=
    [("owrl", "Extended VRML 2.0"), ("ox3dv", "Extended X3D classic encoding"), ("wrl", "VRML 2.0"),
      ("x3dv", "X3D classic encoding")]
  deriving DecidableEq, Repr

structure Settings where
  /-- The directories in which relative paths are looked up, after the working directory. -/
  searchPaths : List String := []
  /-- Which messages are logged. -/
  logFilter : String := "warn"
  documents : DocumentSettings := {}
  deriving DecidableEq, Repr

namespace Settings

/-- The file that settings are read from if no other is named. -/
def fileName : String := "scenic.toml"

open Toml (Value)

def string? : Value → Option String
  | .string s => some s
  | _ => none

def strings? : Value → Option (List String)
  | .array items => items.mapM string?
  | _ => none

/-- A number that fits into 32 bits. -/
def int32? : Value → Option Int
  | .integer i => if -0x80000000 ≤ i ∧ i < 0x80000000 then some i else none
  | _ => none

/-- Puts an entry into a list sorted by key. -/
def insertSorted (key value : String) : List (String × String) → List (String × String)
  | [] => [(key, value)]
  | (k, v) :: rest =>
    if key < k then (key, value) :: (k, v) :: rest else (k, v) :: insertSorted key value rest

/-- The key under which the text of a date or time is found where a table is expected. -/
def momentKey : String := "$__toml_private_datetime"

/-- A table of strings, sorted by key. A date or time counts as a table with one entry, its text. -/
def dictionary? : Value → Option (List (String × String))
  | .table _ entries => do
    let entries ← entries.mapM fun (k, v) => (string? v).map (k, ·)
    return entries.foldl (fun acc (k, v) => insertSorted k v acc) []
  | .moment m => some [(momentKey, m.text)]
  | _ => none

/-- Takes over one entry about documents. -/
def setDocumentEntry (s : DocumentSettings) (key : String) (v : Value) : Option DocumentSettings :=
  if key = "priority" then (int32? v).map fun priority => { s with priority }
  else if key = "extensions" then (dictionary? v).map fun extensions => { s with extensions }
  else none

/-- How documents are loaded, by a table or by the list of its values in their fixed order. -/
def documents? : Value → Option DocumentSettings
  | .table _ entries => entries.foldlM (fun s (k, v) => setDocumentEntry s k v) {}
  | .array items =>
    (["priority", "extensions"].zip items).foldlM (fun s (k, v) => setDocumentEntry s k v) {}
  | _ => none

/-- Takes over one entry. -/
def setEntry (s : Settings) (key : String) (v : Value) : Option Settings :=
  if key = "search_paths" then (strings? v).map fun searchPaths => { s with searchPaths }
  else if key = "log_filter" then (string? v).map fun logFilter => { s with logFilter }
  else if key = "classic" then (documents? v).map fun documents => { s with documents }
  else none

/-- The settings that a text describes. -/
def ofText? (text : String) : Option Settings := do
  (← Toml.read text).entries.foldlM (fun s (k, v) => setEntry s k v) {}

end Settings

/-- Why settings cannot be read. -/
inductive SettingsError where
  | unreadable (path : String) (fault : StorageFault)
  | invalid (path : String)
  deriving DecidableEq, Repr

/-- The name of the cause. -/
def SettingsError.name : SettingsError → String
  | unreadable .. => "Io"
  | invalid _ => "Config"

def SettingsError.message : SettingsError → String
  | unreadable path fault => s!"failed to read {path}: {fault.message}"
  | invalid path => s!"invalid configuration {path}"

namespace Settings

/-- The settings that a text found at a path describes. -/
def parse (text path : String) : Except SettingsError Settings :=
  match ofText? text with
  | some s => .ok s
  | none => .error (.invalid path)

/-- The settings in a file. -/
def load (storage : Storage) (path : String) : Except SettingsError Settings :=
  match storage.read path with
  | .ok text => parse text path
  | .error .missing => .ok {}
  | .error fault => .error (.unreadable path fault)

end Settings

end SceneGraph
