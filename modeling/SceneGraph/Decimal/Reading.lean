/-!
# Reading decimal numbers

`ofDecimal` gives the 64-bit number nearest to `digits * 10 ^ exponent`, and `DecimalText` is the
shape of the numbers that documents and settings contain, split into its parts.
-/

namespace SceneGraph.Decimal

/-- The value of a run of decimal digits. -/
def natOfDigits (cs : List Char) : Nat := cs.foldl (fun n c => 10 * n + (c.toNat - '0'.toNat)) 0

/-- The 64-bit number nearest to `± digits * 10 ^ exponent`. -/
def ofDecimal (negative : Bool) (digits : Nat) (exponent : Int) : Float :=
  let magnitude := Float.ofScientific digits (exponent < 0) exponent.natAbs
  if negative then -magnitude else magnitude

/-- The parts of a decimal number: digits before and after the point, and an exponent. -/
structure DecimalText where
  negative : Bool
  whole : List Char
  fraction : List Char
  exponentNegative : Bool
  exponent : List Char
  deriving DecidableEq, Repr

/-- The number that the parts of a decimal number stand for. -/
def DecimalText.value (t : DecimalText) : Float :=
  let e : Int := natOfDigits t.exponent
  let e := if t.exponentNegative then -e else e
  ofDecimal t.negative (natOfDigits (t.whole ++ t.fraction)) (e - t.fraction.length)

end SceneGraph.Decimal
