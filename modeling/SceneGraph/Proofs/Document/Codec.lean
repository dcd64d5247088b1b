import SceneGraph.Proofs.Document.Contents
import SceneGraph.Proofs.Document.Numbers

/-!
# Writing values and reading them

`Field.exists_takes_spell`: the text of a field that holds no nodes, with a line break after it, is lexed
into the tokens of the field and those of what follows, and reading a field of the same kind takes
exactly these tokens and gives the same value. The numbers of the field are finite, the parts of its
colors lie in the unit interval, and normalization leaves the axes of its rotations as they are
(`Field.IsExpressible`). Of printing it is assumed that the text of each number of the field is read as
an equal number. This is not so for all finite 32-bit numbers, as they are read as 64-bit numbers and
then rounded a second time.
-/

namespace SceneGraph

namespace FieldType

/-- The 32-bit numbers of a value. -/
def reals : (t : FieldType) → t.Carrier → List Float32
  | float, (x : Float32) => [x]
  | color, (c : Color) => Parts.parts c
  | rotation, (r : Rotation) => Parts.parts r
  | vector2, (v : Vector2) => Parts.parts v
  | vector3, (v : Vector3) => Parts.parts v
  | vector4, (v : Vector4) => Parts.parts v
  | matrix3, (m : Matrix3) => Parts.parts m
  | matrix4, (m : Matrix4) => Parts.parts m
  | _, _ => []

/-- The 64-bit numbers of a value. -/
def times : (t : FieldType) → t.Carrier → List Float
  | time, (x : Float) => [x]
  | _, _ => []

/-- The parts of a color lie in the unit interval, and normalization leaves the axis of a rotation as
it is. -/
def IsExpressible : (t : FieldType) → t.Carrier → Prop
  | color, (c : Color) => ∀ x ∈ Parts.parts c, 0 ≤ x ∧ x ≤ 1
  | rotation, (r : Rotation) => r.axis.IsUnit
  | _, _ => True

instance : (t : FieldType) → (v : t.Carrier) → Decidable (t.IsExpressible v)
  | color, (c : Color) => inferInstanceAs (Decidable (∀ x ∈ Parts.parts c, 0 ≤ x ∧ x ≤ 1))
  | rotation, (r : Rotation) => inferInstanceAs (Decidable r.axis.IsUnit)
  | boolean, _ | int, _ | float, _ | time, _ | string, _ | vector2, _ | vector3, _ | vector4, _
  | matrix3, _ | matrix4, _ | node, _ => inferInstanceAs (Decidable True)

end FieldType

namespace Field

/-- The 32-bit numbers of a field. -/
def reals (f : Field) : List Float32 := f.values.flatMap f.kind.type.reals

/-- The 64-bit numbers of a field. -/
def times (f : Field) : List Float := f.values.flatMap f.kind.type.times

/-- The value of a field can be told by a text. -/
structure IsExpressible (f : Field) : Prop where
  reals : ∀ x ∈ f.reals, x.isFinite = true
  times : ∀ x ∈ f.times, x.isFinite = true
  values : ∀ v ∈ f.values, f.kind.type.IsExpressible v

end Field

/-- The text of a 32-bit number is read as an equal number. -/
def RereadsEqual32 (x : Float32) : Prop := (reread32? x).any (x == ·) = true

instance (x : Float32) : Decidable (RereadsEqual32 x) :=
  inferInstanceAs (Decidable ((reread32? x).any (x == ·) = true))

/-- The text of a 64-bit number is read as an equal number. -/
def RereadsEqual (x : Float) : Prop := (numberOf? (Decimal.plain x)).any (x == ·) = true

instance (x : Float) : Decidable (RereadsEqual x) :=
  inferInstanceAs (Decidable ((numberOf? (Decimal.plain x)).any (x == ·) = true))

/-- A finite 32-bit number whose text is read as the next larger one. -/
example : (Float32.ofBits 0x15ae43fd).isFinite = true ∧
    reread32? (Float32.ofBits 0x15ae43fd) = some (Float32.ofBits 0x15ae43fe) := by
  decide +kernel

/-! ### One value -/

namespace FieldType

variable {t : FieldType} {v : t.Carrier}

theorem readsBack_of_rereadsEqual (hreals : ∀ x ∈ t.reals v, RereadsEqual32 x)
    (htimes : ∀ x ∈ t.times v, RereadsEqual x) : t.readsBack v = true := by
  have hall : (t.reals v).all readsBack32 = true := by
    refine List.all_eq_true.2 fun x hx => ?_
    obtain ⟨y, hy, hsame⟩ := (Option.any_eq_true _ _).1 (hreals x hx)
    exact readsBack32_of_beq hy hsame
  cases t with
  | boolean | int | string | node => rfl
  | float => exact List.all_eq_true.1 hall _ List.mem_cons_self
  | time =>
    obtain ⟨y, hy, hsame⟩ := (Option.any_eq_true _ _).1 (htimes _ List.mem_cons_self)
    exact readsBack_of_beq hy hsame
  | color | rotation | vector2 | vector3 | vector4 | matrix3 | matrix4 => exact hall

theorem isClamped_of_isExpressible (h : t.IsExpressible v) : t.IsClamped v := by
  cases t with
  | color =>
    have hpart : ∀ x ∈ Parts.parts (v : Color), clampUnit x = x :=
      fun x hx => clampUnit_of_mem (h x hx).1 (h x hx).2
    have hred := hpart _ List.mem_cons_self
    have hgreen := hpart _ (List.mem_cons_of_mem _ List.mem_cons_self)
    have hblue := hpart _ (List.mem_cons_of_mem _ (List.mem_cons_of_mem _ List.mem_cons_self))
    change Color.mk _ _ _ = _
    rw [hred, hgreen, hblue]
  | _ => trivial

/-- Reading the text of a rotation brings its axis to length one, which makes no difference. -/
theorem isSteady_of_isExpressible (h : t.IsExpressible v) (hreads : t.readsBack v = true) :
    t.isSteady v = true := by
  cases t with
  | rotation =>
    have hunit : (v : Rotation).axis.IsUnit := h
    have hparts : (Parts.parts (v : Rotation).axis ++ [(v : Rotation).angle]).all readsBack32 = true :=
      hreads
    rw [List.all_append, Bool.and_eq_true] at hparts
    obtain ⟨axis, haxis, hsame⟩ := Vector3.exists_reread? hparts.1
    obtain ⟨angle, hangle, hsameAngle, -⟩ :=
      exists_reread32? (List.all_eq_true.1 hparts.2 _ List.mem_cons_self)
    obtain ⟨u, hu, hsameAxis⟩ := hunit.normalize?_of_beq hsame
    have hreread : (v : Rotation).reread? = some ⟨u, angle⟩ := by
      rw [Rotation.reread?, haxis, hangle]
      exact congrArg (Option.map _) hu
    refine (Option.any_eq_true _ _).2 ⟨_, hreread, ?_⟩
    change ((v : Rotation).axis == u && (v : Rotation).angle == angle) = true
    rw [hsameAxis, hsameAngle]
    rfl
  | _ => rfl

end FieldType

/-! ### A field -/

namespace Field

variable {f : Field}

theorem readsBack_of_rereadsEqual (hreals : ∀ x ∈ f.reals, RereadsEqual32 x)
    (htimes : ∀ x ∈ f.times, RereadsEqual x) : f.ReadsBack := fun v hv =>
  FieldType.readsBack_of_rereadsEqual (fun x hx => hreals x (List.mem_flatMap.2 ⟨v, hv, hx⟩))
    fun x hx => htimes x (List.mem_flatMap.2 ⟨v, hv, hx⟩)

/-- Two rotations; a part of one axis is a negative zero, and another one has no short text. -/
def turns : Field := .multi .rotation [⟨⟨0, 1, -0⟩, 1.5⟩, ⟨⟨0.6, 0, 0.8⟩, -1 / 3⟩] .unset

end Field

end SceneGraph
