import SceneGraph.Decimal.Layout

/-!
# Numbers of half the width

`narrow` gives the 32-bit number nearest to a 64-bit one, a number in the middle between two going to
the one whose last bit is zero. A 32-bit number is `mantissa * 2 ^ exponent` where the mantissa has at
most 24 bits and the exponent is at least -149; the word of a number that is not negative is then
`(exponent + 149) * 2 ^ 23 + mantissa`, also where the mantissa has been rounded up to 25 bits.
-/

namespace SceneGraph.Decimal

/-- The exponent of the 32-bit numbers next to `mantissa * 2 ^ exponent`. -/
def narrowExponent (mantissa : Nat) (exponent : Int) : Int :=
  max (exponent + mantissa.log2 - 23) (-149)

/-- The word of the 32-bit number nearest to `mantissa * 2 ^ exponent`; infinity if that is too
large. -/
def narrowWord (mantissa : Nat) (exponent : Int) : Nat :=
  let target := narrowExponent mantissa exponent
  let rounded := roundHalfEven (mantissa * Nat.pow 2 (exponent - target).toNat)
    (Nat.pow 2 (target - exponent).toNat)
  min ((target + 149).toNat * Nat.pow 2 23 + rounded) (255 * Nat.pow 2 23)

/-- The 32-bit number nearest to a 64-bit one. -/
def narrow (x : Float) : Float32 :=
  match unpack x with
  | .nan => 0 / 0
  | .infinite negative => if negative then -1 / 0 else 1 / 0
  | .finite negative mantissa exponent _ =>
    let word := narrowWord mantissa exponent
    Float32.ofBits (.ofNat (if negative then Nat.pow 2 31 + word else word))

example : (narrow 0.1).toBits = 0x3dcccccd := by decide +kernel
example : (narrow (-0.0)).toBits = 0x80000000 := by decide +kernel
example : (narrow 1e300).toBits = 0x7f800000 := by decide +kernel

end SceneGraph.Decimal
