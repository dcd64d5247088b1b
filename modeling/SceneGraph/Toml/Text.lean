/-!
# Strings and keys of settings files

Every reader here takes the characters in front of it and gives back what it read with the rest, or
nothing if the text is not well formed. Strings come in four forms: with escapes or without, on one
line or on several.
-/

namespace SceneGraph.Toml

/-- Something read off the front of a text, and the rest. -/
abbrev Scan (α : Type) := List Char → Option (α × List Char)

/-- Blanks within a line. -/
def isBlank (c : Char) : Bool := c == ' ' || c == '\t'

def skipBlanks (s : List Char) : List Char := s.dropWhile isBlank

/-- Characters that may stand in strings and comments as they are. -/
def isPlain (c : Char) : Bool := c == '\t' || (0x20 ≤ c.toNat && c.toNat ≠ 0x7f)

/-- The end of a line. -/
def newline? : List Char → Option (List Char)
  | '\n' :: rest => some rest
  | '\r' :: '\n' :: rest => some rest
  | _ => none

/-- The value of a hexadecimal digit. -/
def hexDigit? (c : Char) : Option Nat :=
  if '0' ≤ c ∧ c ≤ '9' then some (c.toNat - '0'.toNat)
  else if 'a' ≤ c ∧ c ≤ 'f' then some (c.toNat - 'a'.toNat + 10)
  else if 'A' ≤ c ∧ c ≤ 'F' then some (c.toNat - 'A'.toNat + 10)
  else none

/-- The character given by so many hexadecimal digits. -/
def codePoint (digits : Nat) : Scan Char := fun s => do
  let values ← (s.take digits).mapM hexDigit?
  let n := values.foldl (fun acc d => 16 * acc + d) 0
  if values.length = digits ∧ n.isValidChar then some (Char.ofNat n, s.drop digits) else none

/-- What stands for a backslash with the characters after it. -/
def escape : Scan Char
  | 'b' :: rest => some ('\x08', rest)
  | 't' :: rest => some ('\t', rest)
  | 'n' :: rest => some ('\n', rest)
  | 'f' :: rest => some ('\x0c', rest)
  | 'r' :: rest => some ('\r', rest)
  | '"' :: rest => some ('"', rest)
  | '\\' :: rest => some ('\\', rest)
  | 'u' :: rest => codePoint 4 rest
  | 'U' :: rest => codePoint 8 rest
  | _ => none

/-- Puts a character in front of what a reader gives. -/
def andThen (c : Char) (r : Option (List Char × List Char)) : Option (List Char × List Char) :=
  r.map fun (s, rest) => (c :: s, rest)

/-- The rest of a string on one line with escapes. The bound is the number of characters. -/
def basic : Nat → Scan (List Char)
  | 0, _ => none
  | n + 1, s =>
    match s with
    | '"' :: rest => some ([], rest)
    | '\\' :: rest =>
      match escape rest with
      | some (c, rest) => andThen c (basic n rest)
      | none => none
    | c :: rest => if isPlain c then andThen c (basic n rest) else none
    | [] => none

/-- The rest of a string on one line without escapes. -/
def literal : Scan (List Char)
  | '\'' :: rest => some ([], rest)
  | c :: rest => if isPlain c then andThen c (literal rest) else none
  | [] => none

/-- The end of a string on several lines: three quotes, with up to two more in front that belong to the
string. -/
def closing (quote : Char) : Scan (List Char) := fun s =>
  match (s.take 5).takeWhile (· == quote) with
  | [_, _, _] => some ([], s.drop 3)
  | [_, _, _, _] => some ([quote], s.drop 4)
  | [_, _, _, _, _] => some ([quote, quote], s.drop 5)
  | _ => none

/-- Drops blanks and ends of lines. -/
def skipBlankLines : List Char → List Char
  | '\r' :: '\n' :: rest => skipBlankLines rest
  | c :: rest => if isBlank c || c == '\n' then skipBlankLines rest else c :: rest
  | [] => []

/-- What follows the backslash at the end of a line: the next line that is not blank. -/
def lineJoin (s : List Char) : Option (List Char) := (newline? (skipBlanks s)).map skipBlankLines

/-- The rest of a string on several lines, with escapes or without. Every end of a line is read as one
character. The bound is the number of characters. -/
def multiline (escapes : Bool) (quote : Char) : Nat → Scan (List Char)
  | 0, _ => none
  | n + 1, s =>
    match closing quote s, newline? s, s with
    | some r, _, _ => some r
    | none, some rest, _ => andThen '\n' (multiline escapes quote n rest)
    | none, none, c :: rest =>
      if escapes && c == '\\' then
        match lineJoin rest, escape rest with
        | some rest, _ => multiline escapes quote n rest
        | none, some (c, rest) => andThen c (multiline escapes quote n rest)
        | none, none => none
      else if isPlain c then andThen c (multiline escapes quote n rest) else none
    | none, none, [] => none

/-- A string on several lines, after its opening quotes; a line that ends there does not count. -/
def multilineBody (escapes : Bool) (quote : Char) : Scan (List Char) := fun s =>
  multiline escapes quote (s.length + 1) ((newline? s).getD s)

/-- A string of any form. -/
def string : Scan String := fun s =>
  let text (r : Option (List Char × List Char)) := r.map fun (s, rest) => (String.ofList s, rest)
  match s with
  | '"' :: '"' :: '"' :: rest => text (multilineBody true '"' rest)
  | '"' :: rest => text (basic (rest.length + 1) rest)
  | '\'' :: '\'' :: '\'' :: rest => text (multilineBody false '\'' rest)
  | '\'' :: rest => text (literal rest)
  | _ => none

/-! ### Keys -/

/-- Characters of keys without quotes. -/
def isKeyChar (c : Char) : Bool := c.isAlphanum || c == '_' || c == '-'

/-- A key, in quotes or not. -/
def simpleKey : Scan String := fun s =>
  let text (r : Option (List Char × List Char)) := r.map fun (s, rest) => (String.ofList s, rest)
  match s with
  | '"' :: rest => text (basic (rest.length + 1) rest)
  | '\'' :: rest => text (literal rest)
  | _ => if (s.takeWhile isKeyChar).isEmpty then none
    else text (some (s.takeWhile isKeyChar, s.dropWhile isKeyChar))

/-- Keys with dots between them, at most so many: those in front of the last one, and the last one. -/
def keysUpTo : Nat → Scan (List String × String)
  | 0, _ => none
  | n + 1, s => do
    let (key, rest) ← simpleKey s
    match skipBlanks rest with
    | '.' :: rest' =>
      let ((path, last), rest') ← keysUpTo n (skipBlanks rest')
      return ((key :: path, last), rest')
    | _ => return (([], key), rest)

/-- How many keys may be joined by dots, and how deep values may nest in arrays and inline tables. -/
def nestingLimit : Nat := 79

/-- Keys with dots between them: those in front of the last one, and the last one. -/
def dottedKey : Scan (List String × String) := keysUpTo nestingLimit

end SceneGraph.Toml
