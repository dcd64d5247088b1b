import SceneGraph.Document.Number

/-!
# Lexemes

A lexeme is a token with the place it stands at. `Lexeme.first` reads the one at the start of a text
without blanks in front, `Cursor.lexemes` all those of a text. Commas count as blanks, and `#` opens
a comment that ends with its line. What forms no token is an invalid one up to the next blank or
bracket, so that a malformed word never hides a bracket, a quote or a comment.
-/

namespace SceneGraph

/-- Characters between tokens. -/
def isSeparator (c : Char) : Bool := c == ' ' || c == '\t' || c == '\r' || c == ',' || c == '\n'

/-- Characters that end an invalid token. -/
def endsInvalid (c : Char) : Bool :=
  c == ' ' || c == '\t' || c == '\n' || c == '\x0c' || c == '\r' || c == ',' ||
    c == '\x7b' || c == '\x7d' || c == '[' || c == ']' || c == '"' || c == '#'

/-- Takes blanks and comments off the front of a text; the flag says whether a comment is open. -/
def splitBlanks : Bool → List Char → List Char × List Char
  | _, [] => ([], [])
  | true, c :: r => let (blank, rest) := splitBlanks (c != '\n') r; (c :: blank, rest)
  | false, c :: r =>
    if isSeparator c then let (blank, rest) := splitBlanks false r; (c :: blank, rest)
    else if c == '#' then let (blank, rest) := splitBlanks true r; (c :: blank, rest)
    else ([], c :: r)

/-- Reads a string whose opening quote is gone: its value, its characters with the closing quote,
and the rest. A backslash is dropped in front of a quote or another backslash. -/
def splitString? : List Char → Option (List Char × List Char × List Char)
  | [] => none
  | [c] => if c == '"' then some ([], [c], []) else none
  | c :: d :: r =>
    if c == '"' then some ([], [c], d :: r)
    else if c == '\\' && (d == '"' || d == '\\') then
      (splitString? r).map fun (value, raw, rest) => (d :: value, c :: d :: raw, rest)
    else (splitString? (d :: r)).map fun (value, raw, rest) => (c :: value, c :: raw, rest)

/-- A token, the characters it is written with, and the rest of the text. -/
structure Lexed where
  token : Token
  raw : List Char
  rest : List Char

namespace Lexed

/-- An invalid token that takes at least the first character. -/
def invalid (c : Char) (r : List Char) : Lexed :=
  let (raw, rest) := r.span (!endsInvalid ·)
  ⟨.invalid (String.ofList (c :: raw)), c :: raw, rest⟩

/-- A keyword or an identifier. -/
def word (header : Option Header) (cs : List Char) : Lexed :=
  let (raw, rest) := cs.span isWordPart
  let s := String.ofList raw
  ⟨(Keyword.ofWord? header s).elim (.identifier s) .keyword, raw, rest⟩

/-- A number, or an invalid token. -/
def number (c : Char) (r : List Char) : Lexed :=
  match Numeral.split? (c :: r) with
  | some (numeral, raw, rest) => ⟨numeral.token?.getD (.invalid (String.ofList raw)), raw, rest⟩
  | none => invalid c r

/-- A string, or an invalid token that takes the rest of the text. -/
def string (r : List Char) : Lexed :=
  match splitString? r with
  | some (value, raw, rest) => ⟨.string (String.ofList value), '"' :: raw, rest⟩
  | none => ⟨.invalid (String.ofList ('"' :: r)), '"' :: r, []⟩

/-- A sign of the encoding. -/
def sign (s : Symbol) (r : List Char) : Lexed := ⟨.symbol s, [s.char], r⟩

/-- The token at the start of a text that has no blank in front. -/
def first (header : Option Header) (c : Char) (r : List Char) : Lexed :=
  if c == '\x7b' then sign .nodeBegin r
  else if c == '\x7d' then sign .nodeEnd r
  else if c == '[' then sign .listBegin r
  else if c == ']' then sign .listEnd r
  else if c == '.' && !Numeral.startsWith Char.isDigit r then sign .dot r
  else if c == '"' then string r
  else if c.isDigit || c == '+' || c == '-' || c == '.' then number c r
  else if isWordStart c then word header (c :: r)
  else invalid c r

end Lexed

/-- A token of a document: where it starts, and how many bytes of the text end with it. -/
structure Lexeme where
  token : Token
  position : Position
  stop : Nat

/-- The bytes of a run of characters. -/
def byteLength (cs : List Char) : Nat := cs.foldl (fun n c => n + c.utf8Size) 0

/-- A place in a text and what follows it. -/
structure Cursor where
  rest : List Char
  offset : Nat := 0
  position : Position := .start

namespace Cursor

/-- The start of a text; a byte order mark in front does not count as a column. -/
def ofText (s : String) : Cursor :=
  match s.toList with
  | '\ufeff' :: rest => ⟨rest, 3, .start⟩
  | rest => ⟨rest, 0, .start⟩

/-- The place behind some characters that the text goes on with. -/
def after (c : Cursor) (taken rest : List Char) : Cursor :=
  ⟨rest, c.offset + byteLength taken, c.position.afterAll taken⟩

/-- The rest of the line without its break, and the place behind it. Carriage returns in front of the
break belong to it. -/
def readLine (c : Cursor) : String × Cursor :=
  match c.rest.span (· != '\n') with
  | (line, '\n' :: rest) =>
    (String.ofList (line.reverse.dropWhile (· == '\r')).reverse, c.after (line ++ ['\n']) rest)
  | (line, rest) => (String.ofList line, c.after line rest)

/-- The place of the next token or of the end of the text. -/
def skipBlanks (c : Cursor) : Cursor :=
  let (blank, rest) := splitBlanks false c.rest
  c.after blank rest

/-- The lexemes from a place on, at most `n`, and the place behind the last blank. -/
def lexemesUpTo (header : Option Header) : Nat → Cursor → List Lexeme × Cursor
  | 0, c => ([], c.skipBlanks)
  | n + 1, c =>
    let here := c.skipBlanks
    match here.rest with
    | [] => ([], here)
    | x :: r =>
      let lexed := Lexed.first header x r
      let next := here.after lexed.raw lexed.rest
      let (more, stop) := lexemesUpTo header n next
      (⟨lexed.token, here.position, next.offset⟩ :: more, stop)

/-- All lexemes from a place on, and the place behind the last blank. Every lexeme takes at least
one character, so there are no more of them than characters. -/
def lexemes (header : Option Header) (c : Cursor) : List Lexeme × Cursor :=
  lexemesUpTo header c.rest.length c

end Cursor

end SceneGraph
