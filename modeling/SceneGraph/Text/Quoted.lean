import SceneGraph.Text.Printable

/-!
# Quoted texts

Two ways to put a text between double quotes: `jsonQuoted`, as JSON has it, and `shown`, for
messages that people read, where every character that would not show is escaped.
-/

namespace SceneGraph.Text

/-- The lower-case hexadecimal digits of a number, padded with zeros to a width. -/
def hex (width n : Nat) : String :=
  let digits := Nat.toDigits 16 n
  String.ofList (List.replicate (width - digits.length) '0' ++ digits)

/-- A character inside a JSON text: quotes, backslashes and controls are escaped. -/
def jsonChar (c : Char) : String :=
  if c == '"' then "\\\""
  else if c == '\\' then "\\\\"
  else if c == '\n' then "\\n"
  else if c == '\r' then "\\r"
  else if c == '\t' then "\\t"
  else if c == '\x08' then "\\b"
  else if c == '\x0c' then "\\f"
  else if c.toNat < 0x20 then "\\u" ++ hex 4 c.toNat
  else String.singleton c

/-- A JSON string. -/
def jsonQuoted (s : String) : String := "\"" ++ String.join (s.toList.map jsonChar) ++ "\""

/-- A character inside a quoted text for people. -/
def shownChar (c : Char) : String :=
  if c == '"' then "\\\""
  else if c == '\\' then "\\\\"
  else if c == '\n' then "\\n"
  else if c == '\r' then "\\r"
  else if c == '\t' then "\\t"
  else if c.toNat == 0 then "\\0"
  else if isPrintable c then String.singleton c
  else "\\u\x7b" ++ hex 1 c.toNat ++ "\x7d"

/-- A quoted text for people. -/
def shown (s : String) : String := "\"" ++ String.join (s.toList.map shownChar) ++ "\""

end SceneGraph.Text
