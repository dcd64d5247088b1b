import SceneGraph.Decimal.Layout
import SceneGraph.Text.Indent
import SceneGraph.Text.Quoted

/-!
# JSON values

The values that reports are made of, their compact text (`Json.compact`) and their text with one
entry a line (`Json.pretty`). Objects are built by `Json.ofFields`, which sorts them by key.
-/

namespace SceneGraph

/-- A JSON value. Objects keep their fields in the order they are written in. -/
inductive Json where
  | null
  | bool (b : Bool)
  | int (i : Int)
  | real (x : Float)
  | string (s : String)
  | array (items : List Json)
  | object (fields : List (String × Json))

namespace Json

/-- Puts a field into a list sorted by key; a later field replaces an earlier one of its key. -/
def insertField (key : String) (value : Json) : List (String × Json) → List (String × Json)
  | [] => [(key, value)]
  | (k, v) :: rest =>
    if key < k then (key, value) :: (k, v) :: rest
    else if key = k then (key, value) :: rest
    else (k, v) :: insertField key value rest

/-- The object with the given fields, sorted by key. -/
def ofFields (fields : List (String × Json)) : Json :=
  .object (fields.foldl (fun acc (k, v) => insertField k v acc) [])

/-- A 32-bit number, widened. -/
def real32 (x : Float32) : Json := .real x.toFloat

mutual

/-- The text of a value without any white space. -/
def compact : Json → String
  | null => "null"
  | bool b => if b then "true" else "false"
  | int i => toString i
  | real x => Decimal.json x
  | string s => Text.jsonQuoted s
  | array items => "[" ++ compactItems items ++ "]"
  | object fields => "\x7b" ++ compactFields fields ++ "\x7d"

/-- The entries of an array, separated by commas. -/
def compactItems : List Json → String
  | [] => ""
  | [x] => compact x
  | x :: y :: rest => compact x ++ "," ++ compactItems (y :: rest)

/-- The fields of an object, separated by commas. -/
def compactFields : List (String × Json) → String
  | [] => ""
  | [(k, x)] => Text.jsonQuoted k ++ ":" ++ compact x
  | (k, x) :: y :: rest => Text.jsonQuoted k ++ ":" ++ compact x ++ "," ++ compactFields (y :: rest)

end

open Text (indent)

mutual

/-- The text of a value at some depth, one entry a line. -/
def prettyAt (depth : Nat) : Json → String
  | null => "null"
  | bool b => if b then "true" else "false"
  | int i => toString i
  | real x => Decimal.json x
  | string s => Text.jsonQuoted s
  | array [] => "[]"
  | array (x :: rest) => "[\n" ++ prettyItems (depth + 1) (x :: rest) ++ "\n" ++ indent depth ++ "]"
  | object [] => "\x7b\x7d"
  | object (x :: rest) =>
    "\x7b\n" ++ prettyFields (depth + 1) (x :: rest) ++ "\n" ++ indent depth ++ "\x7d"

/-- The entries of an array, a line each. -/
def prettyItems (depth : Nat) : List Json → String
  | [] => ""
  | [x] => indent depth ++ prettyAt depth x
  | x :: y :: rest =>
    indent depth ++ prettyAt depth x ++ ",\n" ++ prettyItems depth (y :: rest)

/-- The fields of an object, a line each. -/
def prettyFields (depth : Nat) : List (String × Json) → String
  | [] => ""
  | [(k, x)] => indent depth ++ Text.jsonQuoted k ++ ": " ++ prettyAt depth x
  | (k, x) :: y :: rest =>
    indent depth ++ Text.jsonQuoted k ++ ": " ++ prettyAt depth x ++ ",\n" ++
      prettyFields depth (y :: rest)

end

/-- The text of a value with one entry a line. -/
def pretty (value : Json) : String := prettyAt 0 value

end Json

end SceneGraph
