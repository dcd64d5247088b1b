import SceneGraph.Toml.Number
import SceneGraph.Toml.Value

/-!
# Reading settings files

`Toml.read` turns a text into the table that it describes: lines with a key and a value, headers that
say which table the following lines belong to, comments and empty lines. A text that is not well
formed, or says something twice, gives nothing.
-/

namespace SceneGraph.Toml

/-- A comment, if there is one. -/
def skipComment : List Char → List Char
  | '#' :: rest => rest.dropWhile isPlain
  | s => s

/-- Blanks, comments and ends of lines between the values of an array. The bound is the number of
characters. -/
def skipLayout : Nat → List Char → List Char
  | 0, s => s
  | n + 1, s =>
    let rest := skipComment (skipBlanks s)
    match newline? rest with
    | some rest => skipLayout n rest
    | none => rest

/-- The blanks and the comment at the end of a line, and the end of the line or of the text. -/
def lineEnd (s : List Char) : Option (List Char) :=
  match skipComment (skipBlanks s) with
  | [] => some []
  | rest => newline? rest

/-- A key and the value that a reader finds behind the equals sign. -/
def keyValue (value : Scan Value) : Scan (List String × String × Value) := fun s => do
  let ((path, key), rest) ← dottedKey s
  match skipBlanks rest with
  | '=' :: rest =>
    let (v, rest) ← value (skipBlanks rest)
    return ((path, key, v), rest)
  | _ => none

/-- The values of an array after its opening bracket, at most `n`. -/
def items (value : Scan Value) : Nat → Scan (List Value)
  | 0, _ => none
  | n + 1, s =>
    match skipLayout s.length s with
    | ']' :: rest => some ([], rest)
    | s => do
      let (v, rest) ← value s
      match skipLayout rest.length rest with
      | ',' :: rest =>
        let (vs, rest) ← items value n rest
        return (v :: vs, rest)
      | ']' :: rest => return ([v], rest)
      | _ => none

/-- The entries of an inline table after those read before, at most `n`. -/
def inlineEntries (value : Scan Value) : Nat → Table → Scan Table
  | 0, _, _ => none
  | n + 1, t, s => do
    let ((path, key, v), rest) ← keyValue value (skipBlanks s)
    let t ← t.assign path key v
    match skipBlanks rest with
    | ',' :: rest => inlineEntries value n t rest
    | '}' :: rest => return (t, rest)
    | _ => none

/-- An inline table after its opening brace. -/
def inlineTable (value : Scan Value) : Scan Table := fun s =>
  match skipBlanks s with
  | '}' :: rest => some (⟨.inline, []⟩, rest)
  | s => inlineEntries value s.length ⟨.inline, []⟩ s

/-- Characters of words that are neither strings nor brackets. -/
def isWordChar (c : Char) : Bool :=
  c.isAlphanum || c == '_' || c == '-' || c == '+' || c == '.' || c == ':'

/-- The value that a word is. -/
def wordValue? (word : List Char) : Option Value :=
  if word = "true".toList then some (.boolean true)
  else if word = "false".toList then some (.boolean false)
  else
    match integer? word with
    | some i => some (.integer i)
    | none => (float? word).map .float

/-- A value that is neither an array nor a table. -/
def scalar : Scan Value := fun s =>
  match string s, Moment.scan s with
  | some (t, rest), _ => some (.string t, rest)
  | none, some (m, rest) => some (.moment m, rest)
  | none, none => (wordValue? (s.takeWhile isWordChar)).map (·, s.dropWhile isWordChar)

/-- Values that nest at most so many levels deep. -/
def valueUpTo : Nat → Scan Value
  | 0, s => scalar s
  | depth + 1, s =>
    match s with
    | '[' :: rest => (items (valueUpTo depth) s.length rest).map fun (vs, rest) => (.array vs, rest)
    | '{' :: rest =>
      (inlineTable (valueUpTo depth) rest).map fun (t, rest) => (.table t.origin t.entries, rest)
    | s => scalar s

def value : Scan Value := valueUpTo nestingLimit

/-- A header after its opening bracket. -/
def header : Scan (List String × String) := fun s => do
  let (key, rest) ← dottedKey (skipBlanks s)
  match skipBlanks rest with
  | ']' :: rest => return (key, rest)
  | _ => none

/-- The table that the lines read so far describe, and the header that holds at the moment. -/
structure Progress where
  table : Table := ⟨.declared, []⟩
  current : List String := []

/-- One line without its end. -/
def line (p : Progress) (s : List Char) : Option (Progress × List Char) :=
  match skipBlanks s with
  | [] => some (p, [])
  | '#' :: rest => some (p, '#' :: rest)
  | '\n' :: rest => some (p, '\n' :: rest)
  | '\r' :: rest => some (p, '\r' :: rest)
  | '[' :: rest => do
    let ((path, key), rest) ← header rest
    let table ← p.table.declare path key
    return ({ table, current := path ++ [key] }, rest)
  | s => do
    let ((path, key, v), rest) ← keyValue value s
    let table ← p.table.assignIn p.current path key v
    return ({ p with table }, rest)

/-- All lines, at most `n`. -/
def lines : Nat → Progress → List Char → Option Table
  | 0, _, _ => none
  | n + 1, p, s =>
    if s.isEmpty then some p.table
    else
      match line p s with
      | some (p, rest) => (lineEnd rest).bind (lines n p)
      | none => none

/-- The table that a text describes. A mark of byte order at its start is passed over. -/
def read (text : String) : Option Table :=
  let s := match text.toList with
    | c :: rest => if c.toNat = 0xfeff then rest else c :: rest
    | [] => []
  lines (s.length + 1) {} s

end SceneGraph.Toml
