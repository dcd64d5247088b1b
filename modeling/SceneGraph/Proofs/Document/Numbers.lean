import Mathlib
import SceneGraph.Proofs.Document.Values

/-!
# Equal numbers

Two numbers are equal if they are the same number or zeros of either sign (`eq_or_zero_of_beq32`,
`eq_or_zero_of_beq`). What is said of a number up to the sign of a zero is therefore known of all
numbers equal to it: an axis that normalization leaves as it is keeps this property when its text is
read (`Vector3.IsUnit.normalize?_of_beq`), and it is enough to know of the text of a number that it is
read as an equal number (`readsBack32_of_beq`, `readsBack_of_beq`).
-/

namespace SceneGraph

open Float.Model (UnpackedFloat)
open Float.Model.UnpackedFloat (Sign)

/-! ### Zeros -/

/-- A zero of either sign. -/
def IsZero (x : Float32) : Prop := x = 0 ∨ x = -0

namespace IsZero

variable {x y : Float32}

theorem of_unpack {s : Sign} (h : x.toModel.unpack = .zero s) : IsZero x := by
  have heq : ∀ y : Float32, x.toModel.unpack = y.toModel.unpack → x = y := fun y hxy =>
    Float32.toBits_inj.1 <| UInt32.toBitVec_inj.1 <|
      (UnpackedFloat.unpack_inj_of_valid x.toModel.valid y.toModel.valid).1 hxy
  cases s with
  | positive => exact .inl (heq 0 h)
  | negative => exact .inr (heq (-0) h)

theorem exists_unpack (h : IsZero x) : ∃ s, x.toModel.unpack = .zero s := by
  rcases h with rfl | rfl
  · exact ⟨.positive, rfl⟩
  · exact ⟨.negative, rfl⟩

theorem beq (hx : IsZero x) (hy : IsZero y) : (x == y) = true := by
  rcases hx with rfl | rfl <;> rcases hy with rfl | rfl <;> decide +kernel

theorem mul_self (h : IsZero x) : x * x = 0 := by rcases h with rfl | rfl <;> decide +kernel

/-- A zero times a finite number is a zero. -/
theorem mul (h : IsZero x) (hy : y.isFinite = true) : IsZero (x * y) := by
  obtain ⟨s, hs⟩ := h.exists_unpack
  have hy : y.toModel.unpack.isFinite = true := hy
  have hmul : (x * y).toModel =
      .pack (UnpackedFloat.mul .binary32 x.toModel.unpack y.toModel.unpack) := rfl
  have hpack : ∀ t, (Float32.Model.pack (.zero t)).unpack = .zero t := by
    intro t
    cases t <;> rfl
  rw [hs] at hmul
  cases hu : y.toModel.unpack with
  | notANumber => rw [hu] at hy; cases hy
  | infinity => rw [hu] at hy; cases hy
  | zero t =>
    rw [hu] at hmul
    exact of_unpack (hmul ▸ hpack (s * t))
  | finite t =>
    rw [hu] at hmul
    exact of_unpack (hmul ▸ hpack (s * t))

end IsZero

/-- **Equal numbers are the same, or zeros of either sign.** -/
theorem eq_or_zero_of_beq32 {x y : Float32} (h : (x == y) = true) :
    x = y ∨ IsZero x ∧ IsZero y := by
  obtain ⟨-, -, rfl | ⟨hx, hy⟩ | ⟨hx, hy⟩⟩ := Float32.beq_iff_ne_nan_and_eq.1 h
  · exact .inl rfl
  · exact .inr ⟨.inl hx, .inr hy⟩
  · exact .inr ⟨.inr hx, .inl hy⟩

/-- An equal 64-bit number is the same number, unless the number is a zero. -/
theorem eq_or_zero_of_beq {x y : Float} (h : (x == y) = true) : x = y ∨ x = 0 ∨ x = -0 := by
  obtain ⟨-, -, rfl | ⟨hx, -⟩ | ⟨hx, -⟩⟩ := Float.beq_iff_ne_nan_and_eq.1 h
  · exact .inl rfl
  · exact .inr (.inl hx)
  · exact .inr (.inr hx)

/-! ### Texts that are read as equal numbers -/

/-- The text of a zero of either sign is read as zero. -/
theorem reread32?_of_isZero {x : Float32} (h : IsZero x) : reread32? x = some 0 := by
  rcases h with rfl | rfl <;> decide +kernel

theorem readsBack32_of_beq {x y : Float32} (hy : reread32? x = some y) (h : (x == y) = true) :
    readsBack32 x = true := by
  refine (Option.any_eq_true _ _).2 ⟨y, hy, ?_⟩
  rw [h, Bool.true_and, Bool.or_eq_true, decide_eq_true_eq, decide_eq_true_eq]
  rcases eq_or_zero_of_beq32 h with rfl | ⟨hx, -⟩
  · exact .inl rfl
  · exact .inr (Option.some.inj (hy.symm.trans (reread32?_of_isZero hx)))

theorem readsBack_of_beq {x y : Float} (hy : numberOf? (Decimal.plain x) = some y)
    (h : (x == y) = true) : readsBack x = true := by
  refine (Option.any_eq_true _ _).2 ⟨y, hy, ?_⟩
  rw [h, Bool.true_and, Bool.or_eq_true, decide_eq_true_eq, decide_eq_true_eq]
  rcases eq_or_zero_of_beq h with rfl | hx
  · exact .inl rfl
  · have hzero : numberOf? (Decimal.plain x) = some 0 := by
      rcases hx with rfl | rfl <;> decide +kernel
    exact .inr (Option.some.inj (hy.symm.trans hzero))

/-! ### The unit interval -/

/-- Comparing the other way round gives the opposite answer. -/
theorem compare_swap (u v : UnpackedFloat) : v.compare u = (u.compare v).map Ordering.swap := by
  have hswap : ∀ (m m' : Nat) (e e' : Int),
      (compare e' e).then (compare m' m) = ((compare e e').then (compare m m')).swap := by
    intro m m' e e'
    rw [Ordering.swap_then, ← Std.OrientedOrd.eq_swap, ← Std.OrientedOrd.eq_swap]
  cases u with
  | notANumber => cases v <;> rfl
  | infinity s => cases v with
    | infinity t => cases s <;> cases t <;> rfl
    | notANumber => cases s <;> rfl
    | zero => cases s <;> rfl
    | finite t => cases s <;> cases t <;> rfl
  | zero s => cases v with
    | infinity t => cases t <;> rfl
    | notANumber => rfl
    | zero => rfl
    | finite t => cases t <;> rfl
  | finite s m e => cases v with
    | infinity t => cases s <;> cases t <;> rfl
    | notANumber => cases s <;> rfl
    | zero => cases s <;> rfl
    | finite t m' e' =>
      cases s <;> cases t
      · exact congrArg (fun o => some (Ordering.swap o)) (hswap m m' e e')
      · rfl
      · rfl
      · exact congrArg some (hswap m m' e e')

theorem not_lt_of_le {x y : Float32} (h : x ≤ y) : ¬ y < x := by
  intro hlt
  have hle : (x.toModel.unpack.compare y.toModel.unpack).any (·.isLE) = true := of_decide_eq_true h
  have hlt : (y.toModel.unpack.compare x.toModel.unpack == some .lt) = true := of_decide_eq_true hlt
  rw [compare_swap x.toModel.unpack, beq_iff_eq] at hlt
  cases hc : x.toModel.unpack.compare y.toModel.unpack with
  | none => rw [hc] at hlt; cases hlt
  | some o => rw [hc] at hlt hle; cases o <;> first | (cases hlt; done) | cases hle

/-- A number in the unit interval stays when it is moved there. -/
theorem clampUnit_of_mem {x : Float32} (hlow : 0 ≤ x) (hhigh : x ≤ 1) : clampUnit x = x := by
  rw [clampUnit, if_neg (not_lt_of_le hlow), if_neg (not_lt_of_le hhigh)]

/-! ### Axes -/

theorem mul_self_of_beq {x y : Float32} (h : (x == y) = true) : y * y = x * x := by
  rcases eq_or_zero_of_beq32 h with rfl | ⟨hx, hy⟩
  · rfl
  · rw [hx.mul_self, hy.mul_self]

/-- If a factor leaves a number as it is, it leaves every number equal to it. -/
theorem beq_mul_of_beq {x y s : Float32} (h : (x == y) = true) (hs : s.isFinite = true)
    (hx : (x == x * s) = true) : (x == y * s) = true := by
  rcases eq_or_zero_of_beq32 h with rfl | ⟨hx, hy⟩
  · exact hx
  · exact hx.beq (hy.mul hs)

namespace Vector3

variable {v w : Vector3}

theorem beq_iff : (v == w) = true ↔
    (v.x == w.x) = true ∧ (v.y == w.y) = true ∧ (v.z == w.z) = true := by
  change (v.x == w.x && (v.y == w.y && v.z == w.z)) = true ↔ _
  rw [Bool.and_eq_true, Bool.and_eq_true]

theorem length_of_beq (h : (v == w) = true) : w.length = v.length := by
  obtain ⟨hx, hy, hz⟩ := beq_iff.1 h
  rw [length, length, mul_self_of_beq hx, mul_self_of_beq hy, mul_self_of_beq hz]

/-- Normalization leaves an axis as it is, up to the signs of zeros. -/
def IsUnit (v : Vector3) : Prop := v.normalize?.any (v == ·) = true

instance (v : Vector3) : Decidable v.IsUnit :=
  inferInstanceAs (Decidable (v.normalize?.any (v == ·) = true))

/-- **If normalization leaves an axis as it is, it gives the same for every axis equal to it.** -/
theorem IsUnit.normalize?_of_beq (hv : v.IsUnit) (h : (v == w) = true) :
    ∃ u, w.normalize? = some u ∧ (v == u) = true := by
  unfold IsUnit normalize? at hv
  unfold normalize?
  rw [length_of_beq h]
  dsimp only at hv ⊢
  split at hv
  · rename_i hinverse
    have hfinite := (Bool.and_eq_true _ _ ▸ hinverse).1
    obtain ⟨hx, hy, hz⟩ := beq_iff.1 h
    obtain ⟨hvx, hvy, hvz⟩ := beq_iff.1 hv
    exact ⟨_, if_pos hinverse, beq_iff.2 ⟨beq_mul_of_beq hx hfinite hvx,
      beq_mul_of_beq hy hfinite hvy, beq_mul_of_beq hz hfinite hvz⟩⟩
  · cases hv

end Vector3

end SceneGraph
