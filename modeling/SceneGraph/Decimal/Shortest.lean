import SceneGraph.Decimal.Unpacked

/-!
# The fewest digits that read back

Among the decimal numbers that round to a given binary number, `shortest` picks one on the coarsest
decimal grid that holds any, and on that grid the nearest one. Two points of the grid at the same
distance are a matter of taste, which `Tie` settles.

All arithmetic is on natural numbers: with `scale = 2 ^ (exponent - 2)` the number is
`4 * mantissa * scale`, and the numbers that round to it fill the interval from
`(4 * mantissa - 2) * scale` (or `- 1` below a power of two) to `(4 * mantissa + 2) * scale`, ends
included when the mantissa is even.
-/

namespace SceneGraph.Decimal

/-- Which of two equally near decimal numbers is taken. -/
inductive Tie where
  /-- The one of larger magnitude. -/
  | away
  /-- The one whose last digit is even. -/
  | toEven
  deriving DecidableEq, Repr

/-- The decimal number `digits * 10 ^ exponent`. -/
structure Digits where
  digits : Nat
  exponent : Int
  deriving DecidableEq, Repr

/-- `a * 2 ^ q / 10 ^ k` as a numerator; `gridDen` is the denominator that goes with it. -/
def gridNum (a : Nat) (q k : Int) : Nat := a * Nat.pow 2 q.toNat * Nat.pow 10 (-k).toNat

/-- The denominator of `a * 2 ^ q / 10 ^ k`. -/
def gridDen (q k : Int) : Nat := Nat.pow 2 (-q).toNat * Nat.pow 10 k.toNat

/-- The point of the grid `10 ^ k` that rounds to `mantissa * 2 ^ exponent` and is nearest to it,
if there is one. -/
def onGrid? (tie : Tie) (mantissa : Nat) (exponent : Int) (narrow : Bool) (k : Int) : Option Nat :=
  let q := exponent - 2
  let den := gridDen q k
  let num := gridNum (4 * mantissa) q k
  let low := gridNum (4 * mantissa - if narrow then 1 else 2) q k
  let high := gridNum (4 * mantissa + 2) q k
  let closed := mantissa % 2 == 0
  let below := num / den
  let above := below + 1
  let belowFits := low < below * den || (closed && low == below * den)
  let aboveFits := above * den < high || (closed && above * den == high)
  match belowFits, aboveFits with
  | false, false => none
  | true, false => some below
  | false, true => some above
  | true, true =>
    let toBelow := num - below * den
    let toAbove := above * den - num
    if toBelow < toAbove then some below
    else if toAbove < toBelow then some above
    else match tie with
      | .away => some above
      | .toEven => if below % 2 == 0 then some below else some above

/-- Tries the grids from `10 ^ k` downwards, at most `tries` of them. -/
def searchGrids (tie : Tie) (mantissa : Nat) (exponent : Int) (narrow : Bool) :
    Nat → Int → Option Digits
  | 0, _ => none
  | tries + 1, k =>
    match onGrid? tie mantissa exponent narrow k with
    | some d => some ⟨d, k⟩
    | none => searchGrids tie mantissa exponent narrow tries (k - 1)

/-- Divides by ten while the last digit is zero, at most `n` times. -/
def Digits.trim : Nat → Digits → Digits
  | 0, d => d
  | n + 1, d => if d.digits ≠ 0 ∧ d.digits % 10 = 0 then trim n ⟨d.digits / 10, d.exponent + 1⟩ else d

/-- The decimal exponent of a grid that is coarser than every number below `2 ^ bits`. -/
def coarseExponent (bits : Int) : Int :=
  -- `2 ^ bits < 10 ^ (bits * 30103 / 100000 + 1)` for the exponents that occur
  (bits * 30103).fdiv 100000 + 1

/-- The fewest digits that read back as `mantissa * 2 ^ exponent`, the nearest if there are several
choices. Twenty grids below the number's own magnitude hold more than seventeen digits, which is
enough to tell any two 64-bit numbers apart. -/
def shortest (tie : Tie) (mantissa : Nat) (exponent : Int) (narrow : Bool) : Digits :=
  if mantissa = 0 then ⟨0, 0⟩
  else
    let k := coarseExponent (mantissa.log2 + 1 + exponent)
    match searchGrids tie mantissa exponent narrow 22 k with
    | some d => d.trim 3
    | none => ⟨mantissa, 0⟩

end SceneGraph.Decimal
