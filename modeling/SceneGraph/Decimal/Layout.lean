import SceneGraph.Decimal.Shortest

/-!
# How digits are laid out

A `Layout` says how the shortest digits of a number become text: which numbers are written
positionally, whether an integral number keeps `.0`, and how the special values look. `fixed` writes
a number with a fixed count of decimals instead.
-/

namespace SceneGraph.Decimal

/-- The decisions of one textual form of numbers. -/
structure Layout where
  /-- Which of two equally near decimals is written. -/
  tie : Tie
  /-- Decimal exponents written positionally, as an inclusive range; `none` means all. -/
  positional : Option (Int × Int)
  /-- Integral numbers end in `.0`. -/
  pointZero : Bool
  nan : String
  infinity : String

/-- The decimal digits of a number, most significant first. -/
def digitsOf (n : Nat) : String := String.ofList (Nat.toDigits 10 n)

/-- `n` zeros. -/
def zeros (n : Nat) : String := String.ofList (List.replicate n '0')

/-- A sign is written in front of negative numbers only. -/
def signed (negative : Bool) (s : String) : String := if negative then "-" ++ s else s

/-- Digits without an exponent part. -/
def positionalText (pointZero : Bool) (d : Digits) : String :=
  let s := digitsOf d.digits
  let suffix := if pointZero then ".0" else ""
  match d.exponent with
  | .ofNat e => if d.digits = 0 then "0" ++ suffix else s ++ zeros e ++ suffix
  | .negSucc e =>
    let places := e + 1
    if places < s.length then
      let front := s.length - places
      String.ofList (s.toList.take front) ++ "." ++ String.ofList (s.toList.drop front)
    else "0." ++ zeros (places - s.length) ++ s

/-- Digits as `d.ddde±x`, with the sign of a positive exponent written. -/
def exponentText (d : Digits) (e : Int) : String :=
  let power := if e < 0 then s!"e-{e.natAbs}" else s!"e+{e.natAbs}"
  match Nat.toDigits 10 d.digits with
  | [] => power
  | [c] => String.ofList [c] ++ power
  | c :: rest => String.ofList (c :: '.' :: rest) ++ power

/-- The text of a number in a layout. -/
def Layout.render (layout : Layout) : Unpacked → String
  | .nan => layout.nan
  | .infinite negative => signed negative layout.infinity
  | .finite negative mantissa exponent narrow =>
    let d := shortest layout.tie mantissa exponent narrow
    -- the exponent of the leading digit
    let e := d.exponent + ((Nat.toDigits 10 d.digits).length - 1 : Nat)
    let isPositional := match layout.positional with
      | none => true
      | some (low, high) => d.digits = 0 || (low ≤ e && e ≤ high)
    signed negative (if isPositional then positionalText layout.pointZero d else exponentText d e)

/-- The quotient `num / den` rounded to the nearest integer, a half going to the even neighbour. -/
def roundHalfEven (num den : Nat) : Nat :=
  let q := num / den
  let r := num % den
  if 2 * r < den then q
  else if den < 2 * r then q + 1
  else if q % 2 = 0 then q else q + 1

/-- A number with exactly `places` decimals, correctly rounded. -/
def fixed (places : Nat) : Unpacked → String
  | .nan => "NaN"
  | .infinite negative => signed negative "inf"
  | .finite negative mantissa exponent _ =>
    let scaled :=
      roundHalfEven (mantissa * Nat.pow 2 exponent.toNat * Nat.pow 10 places)
        (Nat.pow 2 (-exponent).toNat)
    let s := digitsOf scaled
    let s := zeros (places + 1 - s.length) ++ s
    let front := s.length - places
    signed negative
      (String.ofList (s.toList.take front) ++ "." ++ String.ofList (s.toList.drop front))

/-- Numbers in documents and messages: never an exponent, and no `.0`. -/
def plainLayout : Layout where
  tie := .away
  positional := none
  pointZero := false
  nan := "NaN"
  infinity := "inf"

/-- Numbers in JSON texts: an exponent from `1e16` up and below `1e-5`, and integral numbers keep
`.0`. JSON has no word for numbers that are not finite. -/
def jsonLayout : Layout where
  tie := .toEven
  positional := some (-5, 15)
  pointZero := true
  nan := "null"
  infinity := "null"

/-- A 64-bit number as documents and messages write it. -/
def plain (x : Float) : String := plainLayout.render (unpack x)

/-- A 32-bit number as documents and messages write it. -/
def plain32 (x : Float32) : String := plainLayout.render (unpack32 x)

/-- The larger number is the truth about a 32-bit one that leaves for JSON: it is widened first. -/
def json (x : Float) : String :=
  match unpack x with
  | .infinite _ => jsonLayout.infinity
  | u => jsonLayout.render u

end SceneGraph.Decimal
