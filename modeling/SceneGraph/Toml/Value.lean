import SceneGraph.Toml.Moment

/-!
# Values of settings files

Settings files are written in TOML without its arrays of tables, because no setting is one.

A table remembers how it came about (`Toml.Origin`), because that decides who may still add to it. A
header may declare a table once, and may declare one that so far was only passed through; a dotted
key may only add to tables that dotted keys made; and an inline table is closed.
-/

namespace SceneGraph.Toml

/-- How a table came about. -/
inductive Origin where
  /-- Passed through by a header. -/
  | implied
  /-- Made by a dotted key. -/
  | dotted
  /-- Declared by a header of its own, or the document itself. -/
  | declared
  /-- Written between braces. -/
  | inline
  deriving DecidableEq, Repr

inductive Value where
  | string (s : String)
  | boolean (b : Bool)
  | integer (i : Int)
  | float (x : Float)
  | moment (m : Moment)
  | array (items : List Value)
  | table (origin : Origin) (entries : List (String × Value))

/-- The entries of a table and how it came about. -/
structure Table where
  origin : Origin
  entries : List (String × Value)

namespace Table

/-- The value of a key. -/
def value? (t : Table) (key : String) : Option Value := (t.entries.find? (·.1 == key)).map (·.2)

/-- Sets a key, which keeps its place if it is there. -/
def insert (t : Table) (key : String) (v : Value) : Table :=
  if t.entries.any (·.1 == key) then
    { t with entries := t.entries.map fun (k, old) => if k == key then (k, v) else (k, old) }
  else { t with entries := t.entries ++ [(key, v)] }

/-- Whether a header, or else a dotted key, may pass through the table. -/
def isOpen (dotted : Bool) (t : Table) : Bool :=
  match t.origin with
  | .implied | .dotted => true
  | .declared => !dotted
  | .inline => false

/-- Changes the table at the end of a path, and makes the tables on the way that are missing. -/
def alter (dotted : Bool) (change : Table → Option Table) : List String → Table → Option Table
  | [], t => change t
  | key :: path, t => do
    let next : Table ←
      match t.value? key with
      | none => some ⟨if dotted then .dotted else .implied, []⟩
      | some (.table origin entries) =>
        if isOpen dotted ⟨origin, entries⟩ then some ⟨origin, entries⟩ else none
      | some _ => none
    let next ← alter dotted change path next
    return t.insert key (.table next.origin next.entries)

/-- Gives a value to the key at the end of a path of dotted keys. The key must be new. -/
def assign (path : List String) (key : String) (v : Value) : Table → Option Table :=
  alter true (fun t =>
    if (t.origin = .dotted) = (path = []) ∨ (t.value? key).isSome then none
    else some (t.insert key v)) path

/-- Declares the table of a header, given by the path to it and its own key. -/
def declare (path : List String) (key : String) : Table → Option Table :=
  alter false (fun t =>
    match t.value? key with
    | none => some (t.insert key (.table .declared []))
    | some (.table .implied entries) => some (t.insert key (.table .declared entries))
    | some _ => none) path

/-- Gives a value to a key inside the table that a header declared. -/
def assignIn (header path : List String) (key : String) (v : Value) : Table → Option Table :=
  alter false (assign path key v) header

end Table

end SceneGraph.Toml
