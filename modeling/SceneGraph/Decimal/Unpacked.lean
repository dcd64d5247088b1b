/-!
# Floating-point numbers taken apart

`Unpacked` says what the bits of a binary floating-point number stand for: not a number, an
infinity, or `± mantissa * 2 ^ exponent`. Everything the library prints about a number is computed
from this form in exact arithmetic (`Float.unpack`, `Float32.unpack`).
-/

namespace SceneGraph.Decimal

/-- What the bits of a binary floating-point number stand for. -/
inductive Unpacked where
  | nan
  | infinite (negative : Bool)
  /-- The number `± mantissa * 2 ^ exponent`. The flag `narrow` says that the gap to the next
  smaller magnitude is half the gap to the next larger one. -/
  | finite (negative : Bool) (mantissa : Nat) (exponent : Int) (narrow : Bool)
  deriving DecidableEq, Repr

namespace Unpacked

/-- Splits a word into sign, exponent and fraction, given the widths of the last two. -/
def ofWord (exponentBits fractionBits word : Nat) : Unpacked :=
  let fraction := word % Nat.pow 2 fractionBits
  let biased := word / Nat.pow 2 fractionBits % Nat.pow 2 exponentBits
  let negative := word / Nat.pow 2 (fractionBits + exponentBits) % 2 == 1
  let least : Int := 2 - Nat.pow 2 (exponentBits - 1) - fractionBits
  if biased = Nat.pow 2 exponentBits - 1 then
    if fraction = 0 then .infinite negative else .nan
  else if biased = 0 then
    .finite negative fraction least false
  else
    .finite negative (Nat.pow 2 fractionBits + fraction) (least + biased - 1)
      (fraction = 0 ∧ 1 < biased)

/-- Says whether the sign bit is set; a NaN counts as unsigned. -/
def negative : Unpacked → Bool
  | nan => false
  | infinite s => s
  | finite s _ _ _ => s

end Unpacked

/-- A 64-bit number taken apart. -/
def unpack (x : Float) : Unpacked := .ofWord 11 52 x.toBits.toNat

/-- A 32-bit number taken apart. -/
def unpack32 (x : Float32) : Unpacked := .ofWord 8 23 x.toBits.toNat

example : unpack 1.0 = .finite false (2 ^ 52) (-52) true := by decide +kernel
example : unpack (-0.0) = .finite true 0 (-1074) false := by decide +kernel
example : unpack (1.0 / 0.0) = .infinite false := by decide +kernel

end SceneGraph.Decimal
