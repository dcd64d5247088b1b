import SceneGraph.Document.Token
import SceneGraph.Decimal.Reading

/-!
# Numbers in documents

A number is a hexadecimal or a decimal numeral with an optional sign (`Numeral.split?`). It must not
be followed directly by a letter, a digit or, if decimal, a point. Hexadecimal numerals are words of
32 bits; decimal ones without point and exponent are integers as long as they fit 32 bits.
-/

namespace SceneGraph

/-- Characters that a name starts with. -/
def isWordStart (c : Char) : Bool := c.isAlpha || c == '_' || 0x80 ≤ c.toNat

/-- Characters that a name goes on with. -/
def isWordPart (c : Char) : Bool := isWordStart c || c.isDigit

def isHexDigit (c : Char) : Bool :=
  c.isDigit || ('a' ≤ c && c ≤ 'f') || ('A' ≤ c && c ≤ 'F')

/-- The value of a hexadecimal digit. -/
def hexValue (c : Char) : Nat :=
  if c.isDigit then c.toNat - '0'.toNat
  else if 'a' ≤ c then c.toNat - 'a'.toNat + 10
  else c.toNat - 'A'.toNat + 10

/-- The value of a run of hexadecimal digits. -/
def natOfHex (cs : List Char) : Nat := cs.foldl (fun n c => 16 * n + hexValue c) 0

/-- The spelling of a number. -/
inductive Numeral where
  | hexadecimal (negative : Bool) (digits : List Char)
  | decimal (negative hasPoint hasExponent : Bool) (parts : Decimal.DecimalText)
  deriving DecidableEq, Repr

namespace Numeral

/-- Takes a sign off the front of a text. -/
def splitSign : List Char → List Char × List Char
  | '+' :: r => (['+'], r)
  | '-' :: r => (['-'], r)
  | r => ([], r)

/-- Takes a point and the digits after it off the front of a text. -/
def splitFraction : List Char → List Char × List Char × List Char
  | '.' :: r => (['.'], r.span Char.isDigit)
  | r => ([], [], r)

/-- Takes an exponent off the front of a text: its letter and sign, its digits and the rest. An
exponent has at least one digit. -/
def splitExponent? : List Char → Option (List Char × List Char × List Char)
  | c :: r =>
    if c == 'e' || c == 'E' then
      let (sign, r') := splitSign r
      match r'.span Char.isDigit with
      | ([], _) => none
      | (digits, rest) => some (c :: sign, digits, rest)
    else some ([], [], c :: r)
  | [] => some ([], [], [])

/-- The first character of a text has a property. -/
def startsWith (p : Char → Bool) : List Char → Bool
  | c :: _ => p c
  | [] => false

/-- The hexadecimal digits after `0x`, if the text goes on with them. -/
def hexMark? : List Char → Option (List Char × List Char)
  | '0' :: x :: r => if x == 'x' || x == 'X' then some (['0', x], r) else none
  | _ => none

/-- The numeral at the start of a text, its characters, and the rest. -/
def split? (cs : List Char) : Option (Numeral × List Char × List Char) :=
  let (sign, r) := splitSign cs
  let negative := sign == ['-']
  match hexMark? r with
  | some (mark, r) =>
    match r.span isHexDigit with
    | ([], _) => none
    | (digits, rest) =>
      if startsWith isWordPart rest then none
      else some (.hexadecimal negative digits, sign ++ mark ++ digits, rest)
  | none =>
    let (whole, r) := r.span Char.isDigit
    let (point, fraction, r) := splitFraction r
    if whole.isEmpty && fraction.isEmpty then none
    else
      match splitExponent? r with
      | none => none
      | some (mark, exponent, rest) =>
        if startsWith (fun c => isWordPart c || c == '.') rest then none
        else
          let parts : Decimal.DecimalText :=
            ⟨negative, whole, fraction, mark.contains '-', exponent⟩
          some (.decimal negative (!point.isEmpty) (!mark.isEmpty) parts,
            sign ++ whole ++ point ++ fraction ++ mark ++ exponent, rest)

/-- The value of a numeral; none for a hexadecimal one of more than 32 bits. -/
def token? : Numeral → Option Token
  | hexadecimal negative digits =>
    let n := natOfHex digits
    if n < 0x100000000 then
      let word := Int32.ofNat n
      some (.integer (if negative then -word else word))
    else none
  | decimal negative hasPoint hasExponent parts =>
    let n : Int := Decimal.natOfDigits parts.whole
    let value := if negative then -n else n
    if !hasPoint && !hasExponent && -0x80000000 ≤ value && value < 0x80000000 then
      some (.integer (Int32.ofInt value))
    else some (.number parts.value)

end Numeral

end SceneGraph
