import SceneGraph.Decimal.Reading
import SceneGraph.Toml.Text

/-!
# Numbers of settings files

Integers fit into 64 bits and may be written in four bases; floats are decimal numbers with a fraction
or an exponent, infinite, or no number at all. Single underscores may stand between digits, and a
decimal number has no needless zeros in front.
-/

namespace SceneGraph.Toml

/-- The digits of a numeral, which may have single underscores between them. -/
def digits (isDigit : Char → Bool) : List Char → Option (List Char)
  | [] => none
  | [c] => if isDigit c then some [c] else none
  | c :: '_' :: rest => if isDigit c then (digits isDigit rest).map (c :: ·) else none
  | c :: rest => if isDigit c then (digits isDigit rest).map (c :: ·) else none

/-- Decimal digits without needless zeros in front. -/
def decimalDigits (s : List Char) : Option (List Char) :=
  match s with
  | '0' :: _ :: _ => none
  | _ => digits Char.isDigit s

/-- Takes a sign off the front of a word, and says whether it is a minus. -/
def splitSign : List Char → Bool × List Char
  | '+' :: s => (false, s)
  | '-' :: s => (true, s)
  | s => (false, s)

/-! ### Integers -/

/-- The number that digits of a base stand for. -/
def natural (base : Nat) (s : List Char) : Option Int :=
  let isDigit (c : Char) := (hexDigit? c).any (· < base)
  (digits isDigit s).map fun ds =>
    Int.ofNat (ds.foldl (fun acc c => base * acc + ((hexDigit? c).getD 0)) 0)

/-- The integer that a word stands for. A base is marked by `0x`, `0o` or `0b` and goes without a
sign. -/
def integerValue? : List Char → Option Int
  | '0' :: 'x' :: s => natural 16 s
  | '0' :: 'o' :: s => natural 8 s
  | '0' :: 'b' :: s => natural 2 s
  | s =>
    let (negative, s) := splitSign s
    (decimalDigits s).map fun ds =>
      let n := Int.ofNat (Decimal.natOfDigits ds)
      if negative then -n else n

/-- The integer of 64 bits that a word is. -/
def integer? (word : List Char) : Option Int :=
  (integerValue? word).filter fun i => -0x8000000000000000 ≤ i && i < 0x8000000000000000

/-! ### Floats -/

/-- Characters of runs of digits. -/
def isDigitOrUnderscore (c : Char) : Bool := c.isDigit || c == '_'

/-- The digits of a fraction, and the rest; none if there is no point. -/
def splitFraction? : List Char → Option (Option (List Char) × List Char)
  | '.' :: s =>
    (digits Char.isDigit (s.takeWhile isDigitOrUnderscore)).map (some ·,
      s.dropWhile isDigitOrUnderscore)
  | s => some (none, s)

/-- The sign and the digits of an exponent that a word ends with; none if the word has ended. -/
def exponent? : List Char → Option (Option (Bool × List Char))
  | [] => some none
  | c :: s =>
    let (negative, s) := splitSign s
    if c == 'e' || c == 'E' then (digits Char.isDigit s).map fun ds => some (negative, ds) else none

/-- The parts of a decimal number after its sign. It has a fraction or an exponent. -/
def decimal? (negative : Bool) (s : List Char) : Option Decimal.DecimalText := do
  let whole ← decimalDigits (s.takeWhile isDigitOrUnderscore)
  let (fraction, s) ← splitFraction? (s.dropWhile isDigitOrUnderscore)
  let exponent ← exponent? s
  if fraction.isNone && exponent.isNone then none
  else
    let (exponentNegative, exponent) := exponent.getD (false, [])
    return ⟨negative, whole, fraction.getD [], exponentNegative, exponent⟩

/-- Not the positive infinity, which stands for every decimal number that is too large. -/
def isBelowInfinity (x : Float) : Bool := x.toBits != 0x7ff0000000000000

/-- The float that a word is. -/
def float? (word : List Char) : Option Float :=
  let (negative, s) := splitSign word
  if s = "inf".toList then some (if negative then -1 / 0 else 1 / 0)
  else if s = "nan".toList then some (0 / 0)
  else ((decimal? negative s).map (·.value)).filter isBelowInfinity

end SceneGraph.Toml
