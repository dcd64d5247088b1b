import SceneGraph.Document.Error
import SceneGraph.Document.Lexeme
import SceneGraph.Scene

/-!
# Readers

A `Reader` takes lexemes of a document one after the other and builds up the scene in a world. It can
fail, and then keeps what it has done so far. This module has the small readers that take single
tokens, the messages about a document, and the bracket-counting `skipBody` by which a reader gets
past a declaration that it cannot make sense of.
-/

namespace SceneGraph

/-- How a host watches a load: it sees the progress, and it may ask to stop. -/
structure LoadControl where
  /-- The host watches. -/
  watched : Bool := true
  /-- The host asks to stop while this many nodes have been asked for; zero is before the start. -/
  cancelAt : Option Nat := none
  deriving DecidableEq, Repr

namespace LoadControl

/-- The host has asked to stop by the time so many nodes have been asked for. -/
def isCancelled (c : LoadControl) (asked : Nat) : Bool := c.watched && c.cancelAt.any (· ≤ asked)

/-- The control as seen from the time when so many nodes have been asked for. -/
def after (c : LoadControl) (asked : Nat) : LoadControl :=
  { c with cancelAt := c.cancelAt.map (· - asked) }

end LoadControl

/-- What stays the same while a document is read. -/
structure DocumentContext where
  file : String
  catalog : Catalog
  environment : Environment
  /-- The time that values are set at. -/
  time : Timestamp
  /-- The bytes of the text. -/
  size : Nat
  /-- The end of the text. -/
  stop : Position
  control : LoadControl

/-- What changes while a document is read. -/
structure ReaderState where
  /-- The lexemes not taken yet. -/
  lexemes : List Lexeme
  /-- Where the lexeme taken last stands. -/
  last : Position := .start
  world : World
  scene : Scene
  /-- How many nodes have been asked for. -/
  asked : Nat := 0
  /-- The part of the text that has been read, from zero to one. -/
  progress : Float32 := 0
  /-- The progress whenever a node was asked for, the last time first. -/
  checkpoints : List Float32 := []

/-- A reader of a part of a document. -/
abbrev Reader (α : Type) := ExceptT ReadError (StateM ReaderState) α

namespace Reader

variable {α : Type} (ctx : DocumentContext)

/-! ### The world -/

/-- Changes the world. -/
def act (f : World → World) : Reader Unit := modify fun s => { s with world := f s.world }

/-- The result of a reader, failure included. -/
def attempt (p : Reader α) : Reader (Except ReadError α) := ExceptT.mk do
  let r ← p.run
  return .ok r

/-- Changes the world if a reader fails. -/
def onFailure (p : Reader α) (f : World → World) : Reader α := do
  match ← attempt p with
  | .ok a => return a
  | .error e => act f; throw e

/-- Repeats a reader until it has an answer. The bound is the number of lexemes: a reader that has no
answer takes at least one. -/
def untilSome (p : Reader (Option α)) : Nat → Reader α
  | 0 => throw (.endOfFile ctx.stop)
  | n + 1 => do
    match ← p with
    | some a => return a
    | none => untilSome p n

/-- Repeats a reader until it has an answer. -/
def loop (p : Reader (Option α)) : Reader α := do
  untilSome ctx p ((← get).lexemes.length + 1)

/-! ### Messages -/

/-- The message about an error in the document. -/
def logError (e : ReadError) : Reader Unit :=
  act (·.log .error s!"Error in \"{ctx.file}\", {e.message}")

/-- A warning about a place in the document. -/
def warn (p : Position) (text : String) : Reader Unit :=
  act (·.log .warn s!"\"{ctx.file}\", {p.text}: {text}")

/-! ### Single tokens -/

/-- The next token, if there is one. -/
def peek? : Reader (Option Token) := do return (← get).lexemes.head?.map (·.token)

/-- Where the next token stands, or the end of the text. -/
def position : Reader Position := do
  return ((← get).lexemes.head?.map (·.position)).getD ctx.stop

/-- Where the token taken last stands. -/
def last : Reader Position := do return (← get).last

/-- Takes the next token. -/
def pop : Reader Unit :=
  modify fun s =>
    match s.lexemes with
    | l :: rest => { s with lexemes := rest, last := l.position }
    | [] => { s with last := ctx.stop }

/-- Fails at the next token. -/
def unexpected (expected : String) : Reader α := do
  match ← peek? with
  | some t => throw (.unexpectedToken expected t.text (← position ctx))
  | none => throw (.endOfFile ctx.stop)

/-- Takes the next token if it gives a value. -/
def token (expected : String) (accept : Token → Option α) : Reader α := do
  match (← peek?).bind accept with
  | some a => pop ctx; return a
  | none => unexpected ctx expected

def identifier (expected : String) : Reader String :=
  token ctx expected fun
    | .identifier name => some name
    | _ => none

def quoted (expected : String) : Reader String :=
  token ctx expected fun
    | .string s => some s
    | _ => none

def symbol (s : Symbol) : Reader Unit :=
  token ctx s!"'{String.singleton s.char}'" fun t => if t.isSymbol s then some () else none

def keyword (k : Keyword) : Reader Unit :=
  token ctx s!"'{k.word}'" fun t => if t.isKeyword k then some () else none

/-- Takes the next token if it is the given sign. -/
def optionalSymbol (s : Symbol) : Reader Bool := do
  if (← peek?).any (·.isSymbol s) then pop ctx; return true else return false

/-- Takes the next token if it is the given keyword. -/
def optionalKeyword (k : Keyword) : Reader Bool := do
  if (← peek?).any (·.isKeyword k) then pop ctx; return true else return false

/-! ### Skipping -/

/-- Takes tokens until so many open braces are closed. -/
def closeBraces (lexemes : List Lexeme) (unclosed : Nat) : Reader Unit :=
  match unclosed, lexemes with
  | 0, _ => pure ()
  | _ + 1, [] => do pop ctx; throw (.endOfFile ctx.stop)
  | unclosed + 1, l :: rest => do
    pop ctx
    closeBraces rest (if l.token.isSymbol .nodeBegin then unclosed + 2
      else if l.token.isSymbol .nodeEnd then unclosed else unclosed + 1)

/-- Takes everything up to the brace that closes the current declaration. -/
def skipBody : Reader Unit := do closeBraces ctx (← get).lexemes 1

end Reader

end SceneGraph
