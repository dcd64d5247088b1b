import SceneGraph.Document.Header
import SceneGraph.Field.Kind
import SceneGraph.Decimal.Layout

/-!
# Tokens

The tokens of a document, where they stand (`Position`), and the words that a header turns into
keywords (`Keyword.ofWord?`): a word that the header does not enable is a plain identifier.
-/

namespace SceneGraph

/-- A place in a text: lines from one, and bytes within the line from one. -/
structure Position where
  line : Nat
  column : Nat
  deriving DecidableEq, Repr

namespace Position

def start : Position := ⟨1, 1⟩

/-- The place behind a character. -/
def after (p : Position) (c : Char) : Position :=
  if c = '\n' then ⟨p.line + 1, 1⟩ else ⟨p.line, p.column + c.utf8Size⟩

/-- The place behind a run of characters. -/
def afterAll (p : Position) (cs : List Char) : Position := cs.foldl after p

def text (p : Position) : String := s!"line {p.line}, column {p.column}"

end Position

/-- The signs of the encoding. -/
inductive Symbol where
  | dot | nodeBegin | nodeEnd | listBegin | listEnd
  deriving DecidableEq, Repr

def Symbol.char : Symbol → Char
  | dot => '.'
  | nodeBegin => '\x7b'
  | nodeEnd => '\x7d'
  | listBegin => '['
  | listEnd => ']'

/-- The words with a meaning of their own. -/
inductive Keyword where
  | define | use | route | destination | metadata | profile | null
  | bool (value : Bool)
  /-- Declares a field of a kind. -/
  | kind (k : Kind)
  deriving DecidableEq, Repr

namespace Keyword

/-- The spelling of a keyword. -/
def word : Keyword → String
  | define => "DEF"
  | use => "USE"
  | route => "ROUTE"
  | destination => "TO"
  | metadata => "META"
  | profile => "PROFILE"
  | null => "NULL"
  | bool true => "TRUE"
  | bool false => "FALSE"
  | kind k => k.keyword

/-- Every keyword once. -/
def all : List Keyword :=
  [define, use, route, destination, metadata, profile, null, bool true, bool false] ++ Kind.all.map kind

/-- A header makes some words keywords; the others always are. -/
def isEnabled (header : Option Header) : Keyword → Bool
  | metadata | profile => header.any Header.isX3d
  | kind k => !k.type.isExtended || header.any Header.isExtended
  | _ => true

/-- The keyword that a word spells. -/
def ofSpelling? : String → Option Keyword
  | "DEF" => some define
  | "USE" => some use
  | "ROUTE" => some route
  | "TO" => some destination
  | "META" => some metadata
  | "PROFILE" => some profile
  | "NULL" => some null
  | "TRUE" => some (bool true)
  | "FALSE" => some (bool false)
  | s => (Kind.ofKeyword? s).map kind

/-- The keyword that a word is under a header. -/
def ofWord? (header : Option Header) (s : String) : Option Keyword := (ofSpelling? s).filter (isEnabled header)

end Keyword

/-- One unit of a text. -/
inductive Token where
  | symbol (s : Symbol)
  | keyword (k : Keyword)
  | integer (value : Int32)
  | number (value : Float)
  | string (value : String)
  | identifier (name : String)
  /-- Characters that form no token. -/
  | invalid (raw : String)

namespace Token

/-- A token in messages. -/
def text : Token → String
  | symbol s => s!"'{String.singleton s.char}'"
  | keyword k => s!"'{k.word}'"
  | integer value => toString value.toInt
  | number value => Decimal.plain value
  | string value => s!"\"{value}\""
  | identifier name => s!"'{name}'"
  | invalid raw => s!"invalid token '{raw}'"

/-- What messages call the place behind the last token. -/
def endText : String := "end of file"

def isSymbol (s : Symbol) : Token → Bool
  | symbol t => s = t
  | _ => false

def isKeyword (k : Keyword) : Token → Bool
  | keyword l => k = l
  | _ => false

end Token

end SceneGraph
