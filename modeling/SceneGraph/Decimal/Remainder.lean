import SceneGraph.Decimal.Unpacked

/-!
# Exact remainders

The remainder of a division of two floating-point numbers whose quotient is cut off toward zero. It
has the sign of the dividend and is always exact: on the finer of the two binary grids it is a
remainder of natural numbers.
-/

namespace SceneGraph.Decimal

/-- `a - b * q` for the integer `q` next to `a / b` toward zero. -/
def remainder (a b : Float) : Float :=
  match unpack a, unpack b with
  | .finite negative m p _, .finite _ n q _ =>
    if n = 0 then 0.0 / 0.0
    else
      let e := min p q
      let r := (m * Nat.pow 2 (p - e).toNat) % (n * Nat.pow 2 (q - e).toNat)
      let magnitude := (Float.ofNat r).scaleB e
      if negative then -magnitude else magnitude
  | .finite .., .infinite _ => a
  | _, _ => 0.0 / 0.0

end SceneGraph.Decimal
