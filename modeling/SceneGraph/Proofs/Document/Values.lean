import SceneGraph.Proofs.Document.Running

/-!
# Values in texts

The text of a value is lexed into the tokens of the value (`FieldType.tokensOf_spell`), and these are
read as the value again (`FieldType.takes_value`), as long as its numbers are (`reread?`). Printing a
number and reading it back gives the same number, or zero for a negative zero; colors stay within the
unit interval, and a rotation is the same if bringing its axis to length one once more leaves it as it
is (`FieldType.exists_reread?`).
-/

namespace SceneGraph

open Numeral (startsWith Loose)

/-! ### Numbers that are read back -/

/-- The 32-bit number that the text of one is read as. -/
def reread32? (x : Float32) : Option Float32 := (numberOf? (Decimal.plain32 x)).map Decimal.narrow

/-- The text of a 32-bit number is read as the same number; a zero may lose its sign. -/
def readsBack32 (x : Float32) : Bool := (reread32? x).any fun y => x == y && (y = x || y = 0)

/-- The text of a 64-bit number is read as the same number; a zero may lose its sign. -/
def readsBack (x : Float) : Bool :=
  (numberOf? (Decimal.plain x)).any fun y => x == y && (y = x || y = 0)

def Vector2.reread? (v : Vector2) : Option Vector2 := do return ⟨← reread32? v.x, ← reread32? v.y⟩

def Vector3.reread? (v : Vector3) : Option Vector3 := do
  return ⟨← reread32? v.x, ← reread32? v.y, ← reread32? v.z⟩

def Vector4.reread? (v : Vector4) : Option Vector4 := do
  return ⟨← reread32? v.x, ← reread32? v.y, ← reread32? v.z, ← reread32? v.w⟩

/-- The rotation that the text of one is read as. -/
def Rotation.reread? (r : Rotation) : Option Rotation := do
  let axis ← r.axis.reread?
  let angle ← reread32? r.angle
  Rotation.ofAxisAngle? axis angle

/-- Bringing the axis to length one once more makes no difference. -/
def Rotation.isSteady (r : Rotation) : Bool := r.reread?.any (r == ·)

namespace FieldType

/-- The value that the text of a value is read as. -/
def reread? : (t : FieldType) → t.Carrier → Option t.Carrier
  | boolean, (b : Bool) => some b
  | int, (i : Int32) => some i
  | float, (x : Float32) => reread32? x
  | time, (x : Float) => numberOf? (Decimal.plain x)
  | string, (s : String) => some s
  | color, (c : Color) =>
    (Vector3.reread? ⟨c.red, c.green, c.blue⟩).map fun v => Color.clamped v.x v.y v.z
  | rotation, (r : Rotation) => r.reread?
  | vector2, (v : Vector2) => v.reread?
  | vector3, (v : Vector3) => v.reread?
  | vector4, (v : Vector4) => v.reread?
  | matrix3, (m : Matrix3) => do
    let rows : Matrix3 :=
      ⟨← m.transpose.c0.reread?, ← m.transpose.c1.reread?, ← m.transpose.c2.reread?⟩
    return rows.transpose
  | matrix4, (m : Matrix4) => do
    let rows : Matrix4 := ⟨← m.transpose.c0.reread?, ← m.transpose.c1.reread?,
      ← m.transpose.c2.reread?, ← m.transpose.c3.reread?⟩
    return rows.transpose
  | node, _ => none

/-- The numbers of a value are read back. -/
def readsBack : (t : FieldType) → t.Carrier → Bool
  | float, (x : Float32) => readsBack32 x
  | time, (x : Float) => SceneGraph.readsBack x
  | color, (c : Color) => (Parts.parts c).all readsBack32
  | rotation, (r : Rotation) => (Parts.parts r).all readsBack32
  | vector2, (v : Vector2) => (Parts.parts v).all readsBack32
  | vector3, (v : Vector3) => (Parts.parts v).all readsBack32
  | vector4, (v : Vector4) => (Parts.parts v).all readsBack32
  | matrix3, (m : Matrix3) => (Parts.parts m).all readsBack32
  | matrix4, (m : Matrix4) => (Parts.parts m).all readsBack32
  | _, _ => true

/-- A rotation has an axis that stays the same when it is brought to length one. -/
def isSteady : (t : FieldType) → t.Carrier → Bool
  | rotation, (r : Rotation) => r.isSteady
  | _, _ => true

/-- The parts of a color lie in the unit interval. -/
def IsClamped : (t : FieldType) → t.Carrier → Prop
  | color, (c : Color) => Color.clamped c.red c.green c.blue = c
  | _, _ => True

/-- The tokens of 32-bit numbers. -/
def realTokens (xs : List Float32) : List Token :=
  xs.map fun x => (numeralToken? (Decimal.plain32 x)).getD (.invalid "")

/-- The tokens of a value. -/
def tokens : (t : FieldType) → t.Carrier → List Token
  | boolean, (b : Bool) => [.keyword (.bool b)]
  | int, (i : Int32) => [.integer i]
  | float, (x : Float32) => realTokens [x]
  | time, (x : Float) => [(numeralToken? (Decimal.plain x)).getD (.invalid "")]
  | string, (s : String) => [.string s]
  | color, (c : Color) => realTokens (Parts.parts c)
  | rotation, (r : Rotation) => realTokens (Parts.parts r)
  | vector2, (v : Vector2) => realTokens (Parts.parts v)
  | vector3, (v : Vector3) => realTokens (Parts.parts v)
  | vector4, (v : Vector4) => realTokens (Parts.parts v)
  | matrix3, (m : Matrix3) => realTokens (Parts.parts m.transpose)
  | matrix4, (m : Matrix4) => realTokens (Parts.parts m.transpose)
  | node, _ => [.keyword .null]

end FieldType

/-! ### The same value again -/

theorem exists_reread32? {x : Float32} (h : readsBack32 x = true) :
    ∃ y, reread32? x = some y ∧ (x == y) = true ∧ (y = x ∨ y = 0) := by
  obtain ⟨y, hy, hsame⟩ := (Option.any_eq_true _ _).1 h
  simp only [Bool.and_eq_true, Bool.or_eq_true, decide_eq_true_eq] at hsame
  exact ⟨y, hy, hsame⟩

theorem Vector2.exists_reread? {v : Vector2} (h : (Parts.parts v).all readsBack32 = true) :
    ∃ w, v.reread? = some w ∧ (v == w) = true := by
  simp only [Parts.parts, List.all_cons, List.all_nil, Bool.and_true, Bool.and_eq_true] at h
  obtain ⟨x, hx, hxs, -⟩ := exists_reread32? h.1
  obtain ⟨y, hy, hys, -⟩ := exists_reread32? h.2
  refine ⟨⟨x, y⟩, by rw [reread?, hx, hy]; rfl, ?_⟩
  change (v.x == x && v.y == y) = true
  rw [hxs, hys]
  rfl

theorem Vector3.exists_reread? {v : Vector3} (h : (Parts.parts v).all readsBack32 = true) :
    ∃ w, v.reread? = some w ∧ (v == w) = true := by
  simp only [Parts.parts, List.all_cons, List.all_nil, Bool.and_true, Bool.and_eq_true] at h
  obtain ⟨x, hx, hxs, -⟩ := exists_reread32? h.1
  obtain ⟨y, hy, hys, -⟩ := exists_reread32? h.2.1
  obtain ⟨z, hz, hzs, -⟩ := exists_reread32? h.2.2
  refine ⟨⟨x, y, z⟩, by rw [reread?, hx, hy, hz]; rfl, ?_⟩
  change (v.x == x && (v.y == y && v.z == z)) = true
  rw [hxs, hys, hzs]
  rfl

theorem Vector4.exists_reread? {v : Vector4} (h : (Parts.parts v).all readsBack32 = true) :
    ∃ w, v.reread? = some w ∧ (v == w) = true := by
  simp only [Parts.parts, List.all_cons, List.all_nil, Bool.and_true, Bool.and_eq_true] at h
  obtain ⟨x, hx, hxs, -⟩ := exists_reread32? h.1
  obtain ⟨y, hy, hys, -⟩ := exists_reread32? h.2.1
  obtain ⟨z, hz, hzs, -⟩ := exists_reread32? h.2.2.1
  obtain ⟨w, hw, hws, -⟩ := exists_reread32? h.2.2.2
  refine ⟨⟨x, y, z, w⟩, by rw [reread?, hx, hy, hz, hw]; rfl, ?_⟩
  change (v.x == x && (v.y == y && (v.z == z && v.w == w))) = true
  rw [hxs, hys, hzs, hws]
  rfl

theorem clampUnit_zero : clampUnit 0 = 0 := by decide +kernel

theorem clampUnit_clampUnit (x : Float32) : clampUnit (clampUnit x) = clampUnit x := by
  by_cases hlow : x < 0
  · have h : clampUnit x = 0 := if_pos hlow
    rw [h, clampUnit_zero]
  · by_cases hhigh : x > 1
    · have h : clampUnit x = 1 := (if_neg hlow).trans (if_pos hhigh)
      rw [h]
      decide +kernel
    · have h : clampUnit x = x := (if_neg hlow).trans (if_neg hhigh)
      rw [h, h]

theorem Color.clamped_clamped (r g b : Float32) :
    FieldType.IsClamped .color (Color.clamped r g b) := by
  change Color.clamped (clampUnit r) (clampUnit g) (clampUnit b) = Color.clamped r g b
  rw [clamped, clampUnit_clampUnit, clampUnit_clampUnit, clampUnit_clampUnit]
  rfl

/-- A part of a color is read back, and stays within the unit interval. -/
theorem exists_reread_part {x : Float32} (h : readsBack32 x = true) (hx : clampUnit x = x) :
    ∃ y, reread32? x = some y ∧ (x == y) = true ∧ clampUnit y = y := by
  obtain ⟨y, hy, hsame, rfl | rfl⟩ := exists_reread32? h
  · exact ⟨y, hy, hsame, hx⟩
  · exact ⟨0, hy, hsame, clampUnit_zero⟩

theorem Color.exists_reread? {c : Color} (h : (Parts.parts c).all readsBack32 = true)
    (hc : FieldType.IsClamped .color c) :
    ∃ d, FieldType.reread? .color c = some d ∧ (c == d) = true := by
  simp only [Parts.parts, List.all_cons, List.all_nil, Bool.and_true, Bool.and_eq_true] at h
  have hc : Color.clamped c.red c.green c.blue = c := hc
  obtain ⟨r, hr, hrs, hrc⟩ := exists_reread_part h.1 (congrArg Color.red hc)
  obtain ⟨g, hg, hgs, hgc⟩ := exists_reread_part h.2.1 (congrArg Color.green hc)
  obtain ⟨b, hb, hbs, hbc⟩ := exists_reread_part h.2.2 (congrArg Color.blue hc)
  refine ⟨⟨r, g, b⟩, ?_, ?_⟩
  · simp only [FieldType.reread?, Vector3.reread?, hr, hg, hb]
    change some (Color.mk (clampUnit r) (clampUnit g) (clampUnit b)) = _
    rw [hrc, hgc, hbc]
  · change (c.red == r && (c.green == g && c.blue == b)) = true
    rw [hrs, hgs, hbs]
    rfl

theorem Matrix3.exists_reread? {m : Matrix3} (h : (Parts.parts m).all readsBack32 = true) :
    ∃ k, FieldType.reread? .matrix3 m = some k ∧ (m == k) = true := by
  simp only [Parts.parts, List.flatMap_cons, List.flatMap_nil, List.all_append, List.all_cons,
    List.all_nil, Bool.and_true, Bool.and_eq_true] at h
  obtain ⟨⟨h00, h01, h02⟩, ⟨h10, h11, h12⟩, h20, h21, h22⟩ := h
  obtain ⟨a, ha, has, -⟩ := exists_reread32? h00
  obtain ⟨b, hb, hbs, -⟩ := exists_reread32? h01
  obtain ⟨c, hc, hcs, -⟩ := exists_reread32? h02
  obtain ⟨d, hd, hds, -⟩ := exists_reread32? h10
  obtain ⟨e, he, hes, -⟩ := exists_reread32? h11
  obtain ⟨f, hf, hfs, -⟩ := exists_reread32? h12
  obtain ⟨g, hg, hgs, -⟩ := exists_reread32? h20
  obtain ⟨i, hi, his, -⟩ := exists_reread32? h21
  obtain ⟨j, hj, hjs, -⟩ := exists_reread32? h22
  refine ⟨⟨⟨a, b, c⟩, ⟨d, e, f⟩, ⟨g, i, j⟩⟩, ?_, ?_⟩
  · simp only [FieldType.reread?, Vector3.reread?, transpose, ha, hb, hc, hd, he, hf, hg, hi, hj]
    rfl
  · change ((m.c0.x == a && (m.c0.y == b && m.c0.z == c)) &&
      ((m.c1.x == d && (m.c1.y == e && m.c1.z == f)) &&
        (m.c2.x == g && (m.c2.y == i && m.c2.z == j)))) = true
    rw [has, hbs, hcs, hds, hes, hfs, hgs, his, hjs]
    rfl

theorem Matrix4.exists_reread? {m : Matrix4} (h : (Parts.parts m).all readsBack32 = true) :
    ∃ k, FieldType.reread? .matrix4 m = some k ∧ (m == k) = true := by
  simp only [Parts.parts, List.flatMap_cons, List.flatMap_nil, List.all_append, List.all_cons,
    List.all_nil, Bool.and_true, Bool.and_eq_true] at h
  obtain ⟨⟨h00, h01, h02, h03⟩, ⟨h10, h11, h12, h13⟩, ⟨h20, h21, h22, h23⟩, h30, h31, h32, h33⟩ := h
  obtain ⟨a, ha, has, -⟩ := exists_reread32? h00
  obtain ⟨b, hb, hbs, -⟩ := exists_reread32? h01
  obtain ⟨c, hc, hcs, -⟩ := exists_reread32? h02
  obtain ⟨d, hd, hds, -⟩ := exists_reread32? h03
  obtain ⟨e, he, hes, -⟩ := exists_reread32? h10
  obtain ⟨f, hf, hfs, -⟩ := exists_reread32? h11
  obtain ⟨g, hg, hgs, -⟩ := exists_reread32? h12
  obtain ⟨i, hi, his, -⟩ := exists_reread32? h13
  obtain ⟨j, hj, hjs, -⟩ := exists_reread32? h20
  obtain ⟨k, hk, hks, -⟩ := exists_reread32? h21
  obtain ⟨l, hl, hls, -⟩ := exists_reread32? h22
  obtain ⟨n, hn, hns, -⟩ := exists_reread32? h23
  obtain ⟨o, ho, hos, -⟩ := exists_reread32? h30
  obtain ⟨p, hp, hps, -⟩ := exists_reread32? h31
  obtain ⟨q, hq, hqs, -⟩ := exists_reread32? h32
  obtain ⟨r, hr, hrs, -⟩ := exists_reread32? h33
  refine ⟨⟨⟨a, b, c, d⟩, ⟨e, f, g, i⟩, ⟨j, k, l, n⟩, ⟨o, p, q, r⟩⟩, ?_, ?_⟩
  · simp only [FieldType.reread?, Vector4.reread?, transpose, ha, hb, hc, hd, he, hf, hg, hi, hj, hk,
      hl, hn, ho, hp, hq, hr]
    rfl
  · change ((m.c0.x == a && (m.c0.y == b && (m.c0.z == c && m.c0.w == d))) &&
      ((m.c1.x == e && (m.c1.y == f && (m.c1.z == g && m.c1.w == i))) &&
        ((m.c2.x == j && (m.c2.y == k && (m.c2.z == l && m.c2.w == n))) &&
          (m.c3.x == o && (m.c3.y == p && (m.c3.z == q && m.c3.w == r)))))) = true
    rw [has, hbs, hcs, hds, hes, hfs, hgs, his, hjs, hks, hls, hns, hos, hps, hqs, hrs]
    rfl

/-- **The text of a value is read as the same value.** -/
theorem FieldType.exists_reread? {t : FieldType} {v : t.Carrier} (ht : t ≠ .node)
    (h : t.readsBack v = true) (hsteady : t.isSteady v = true) (hclamped : t.IsClamped v) :
    ∃ v', t.reread? v = some v' ∧ t.sameValue v v' = true := by
  cases t with
  | boolean => exact ⟨v, rfl, beq_self_eq_true (α := Bool) v⟩
  | int => exact ⟨v, rfl, beq_self_eq_true (α := Int32) v⟩
  | string => exact ⟨v, rfl, beq_self_eq_true (α := String) v⟩
  | node => exact absurd rfl ht
  | float =>
    obtain ⟨y, hy, hsame, -⟩ := exists_reread32? h
    exact ⟨y, hy, hsame⟩
  | time =>
    obtain ⟨y, hy, hsame⟩ := (Option.any_eq_true _ _).1 h
    exact ⟨y, hy, (Bool.and_eq_true _ _ ▸ hsame).1⟩
  | color => exact Color.exists_reread? h hclamped
  | rotation => exact (Option.any_eq_true _ _).1 hsteady
  | vector2 => exact Vector2.exists_reread? h
  | vector3 => exact Vector3.exists_reread? h
  | vector4 => exact Vector4.exists_reread? h
  | matrix3 => exact Matrix3.exists_reread? h
  | matrix4 => exact Matrix4.exists_reread? h

/-! ### The tokens of a value -/

variable {header : Option Header} {rest : List Char}

/-- A blank or a sign that follows a value does not belong to it. -/
theorem Numeral.Loose.of_ne {c : Char} {r : List Char} (h : (isWordPart c || c == '.') = false) :
    Loose (c :: r) := h

theorem exists_of_reread32? {x y : Float32} (h : reread32? x = some y) :
    ∃ t z, numeralToken? (Decimal.plain32 x) = some t ∧ t.number? = some z ∧ Decimal.narrow z = y := by
  obtain ⟨z, hz, rfl⟩ := Option.map_eq_some_iff.1 h
  obtain ⟨t, ht, hz⟩ := Option.bind_eq_some_iff.1 hz
  exact ⟨t, z, ht, hz, rfl⟩

theorem tokensOf_reals (header : Option Header) {xs : List Float32} (hne : xs ≠ []) (h : ∀ x ∈ xs, readsBack32 x = true)
    (hrest : Loose rest) :
    tokensOf header ((" ".intercalate (xs.map Decimal.plain32)).toList ++ rest) =
      FieldType.realTokens xs ++ tokensOf header rest := by
  induction xs with
  | nil => exact absurd rfl hne
  | cons x xs ih =>
    obtain ⟨y, hy, -⟩ := exists_reread32? (h x List.mem_cons_self)
    obtain ⟨t, -, ht, -⟩ := exists_of_reread32? hy
    have htoken : FieldType.realTokens (x :: xs) = t :: FieldType.realTokens xs := by
      rw [FieldType.realTokens, List.map_cons, ht]
      rfl
    rw [htoken, List.map_cons]
    cases xs with
    | nil =>
      rw [List.map_nil, String.intercalate_singleton, tokensOf_number ht hrest]
      rfl
    | cons x' xs =>
      have ih := ih (List.cons_ne_nil _ _) fun z hz => h z (List.mem_cons_of_mem _ hz)
      rw [List.map_cons] at ih ⊢
      have hblank : " ".toList = [' '] := rfl
      rw [String.intercalate_cons_cons, String.toList_append, String.toList_append, hblank,
        List.append_assoc, List.append_assoc, List.singleton_append,
        tokensOf_number ht (.of_ne (by decide))]
      exact congrArg (t :: ·) ((tokensOf_separator (by decide) _).trans ih)

theorem Matrix3.all_transpose {m : Matrix3} {p : Float32 → Bool} (h : (Parts.parts m).all p = true) :
    (Parts.parts m.transpose).all p = true := by
  simp only [Parts.parts, List.flatMap_cons, List.flatMap_nil, List.all_append, List.all_cons,
    List.all_nil, Bool.and_true, Bool.and_eq_true, transpose] at h ⊢
  obtain ⟨⟨h00, h01, h02⟩, ⟨h10, h11, h12⟩, h20, h21, h22⟩ := h
  exact ⟨⟨h00, h10, h20⟩, ⟨h01, h11, h21⟩, h02, h12, h22⟩

theorem Matrix4.all_transpose {m : Matrix4} {p : Float32 → Bool} (h : (Parts.parts m).all p = true) :
    (Parts.parts m.transpose).all p = true := by
  simp only [Parts.parts, List.flatMap_cons, List.flatMap_nil, List.all_append, List.all_cons,
    List.all_nil, Bool.and_true, Bool.and_eq_true, transpose] at h ⊢
  obtain ⟨⟨h00, h01, h02, h03⟩, ⟨h10, h11, h12, h13⟩, ⟨h20, h21, h22, h23⟩, h30, h31, h32, h33⟩ := h
  exact ⟨⟨h00, h10, h20, h30⟩, ⟨h01, h11, h21, h31⟩, ⟨h02, h12, h22, h32⟩, h03, h13, h23, h33⟩

theorem tokensOf_spellParts {α : Type} [Parts α] {a : α} (hne : Parts.parts a ≠ [])
    (h : (Parts.parts a).all readsBack32 = true) (hrest : Loose rest) :
    tokensOf header ((spellParts a).toList ++ rest) =
      FieldType.realTokens (Parts.parts a) ++ tokensOf header rest :=
  tokensOf_reals header hne (List.all_eq_true.1 h) hrest

/-- **The text of a value is lexed into its tokens.** -/
theorem FieldType.tokensOf_spell {t : FieldType} {v : t.Carrier} (ht : t ≠ .node)
    (h : t.readsBack v = true) (hrest : Loose rest) :
    tokensOf header ((t.spell v).toList ++ rest) = t.tokens v ++ tokensOf header rest := by
  have hword : ∀ k : Keyword, (∀ h, k.isEnabled h = true) →
      tokensOf header (k.word.toList ++ rest) = .keyword k :: tokensOf header rest :=
    fun k hk => tokensOf_keyword (hk header) hrest.wordPart
  cases t with
  | node => exact absurd rfl ht
  | boolean =>
    cases v with
    | true => exact hword (.bool true) fun _ => rfl
    | false => exact hword (.bool false) fun _ => rfl
  | int =>
    change tokensOf header ((toString (Int32.toInt v)).toList ++ rest) = .integer v :: _
    exact tokensOf_number (numeralToken?_int v) hrest
  | float =>
    have hreal := tokensOf_reals header (List.cons_ne_nil v [])
      (by simpa [FieldType.readsBack] using h) hrest
    rw [List.map_singleton, String.intercalate_singleton] at hreal
    exact hreal
  | time =>
    obtain ⟨y, hy, -⟩ := (Option.any_eq_true _ _).1 h
    obtain ⟨t, ht, -⟩ := Option.bind_eq_some_iff.1 hy
    have htoken : FieldType.tokens .time v = [t] := by rw [tokens, ht]; rfl
    rw [htoken]
    exact tokensOf_number ht hrest
  | string => exact tokensOf_string v rest
  | color => exact tokensOf_spellParts (List.cons_ne_nil _ _) h hrest
  | rotation => exact tokensOf_spellParts (List.cons_ne_nil _ _) h hrest
  | vector2 => exact tokensOf_spellParts (List.cons_ne_nil _ _) h hrest
  | vector3 => exact tokensOf_spellParts (List.cons_ne_nil _ _) h hrest
  | vector4 => exact tokensOf_spellParts (List.cons_ne_nil _ _) h hrest
  | matrix3 =>
    exact tokensOf_spellParts (a := Matrix3.transpose v) (List.cons_ne_nil _ _)
      (Matrix3.all_transpose h) hrest
  | matrix4 =>
    exact tokensOf_spellParts (a := Matrix4.transpose v) (List.cons_ne_nil _ _)
      (Matrix4.all_transpose h) hrest

/-! ### Reading a value -/

namespace Reader

variable {ctx : DocumentContext} {node : Reader (Option NodeId)}

theorem takes_number {t : Token} {x : Float} (h : t.number? = some x) : Takes (number ctx) [t] x :=
  Takes.token (by cases t <;> exact h)

theorem takes_float {x y : Float32} (h : reread32? x = some y) :
    Takes (float ctx) (FieldType.realTokens [x]) y := by
  obtain ⟨t, z, ht, hz, rfl⟩ := exists_of_reread32? h
  have htoken : FieldType.realTokens [x] = [t] := by
    rw [FieldType.realTokens, List.map_singleton, ht]
    rfl
  rw [htoken]
  exact (takes_number hz).map Decimal.narrow

theorem takes_vector2 {v w : Vector2} (h : v.reread? = some w) :
    Takes (vector2 ctx) (FieldType.realTokens (Parts.parts v)) w := by
  simp only [Vector2.reread?, Option.bind_eq_bind, Option.bind_eq_some_iff, Option.pure_def,
    Option.some.injEq] at h
  obtain ⟨x, hx, y, hy, rfl⟩ := h
  exact (takes_float hx).bind ((takes_float hy).bind (.pure _))

theorem takes_vector3 {v w : Vector3} (h : v.reread? = some w) :
    Takes (vector3 ctx) (FieldType.realTokens (Parts.parts v)) w := by
  simp only [Vector3.reread?, Option.bind_eq_bind, Option.bind_eq_some_iff, Option.pure_def,
    Option.some.injEq] at h
  obtain ⟨x, hx, y, hy, z, hz, rfl⟩ := h
  exact (takes_float hx).bind ((takes_float hy).bind ((takes_float hz).bind (.pure _)))

theorem takes_vector4 {v w : Vector4} (h : v.reread? = some w) :
    Takes (vector4 ctx) (FieldType.realTokens (Parts.parts v)) w := by
  simp only [Vector4.reread?, Option.bind_eq_bind, Option.bind_eq_some_iff, Option.pure_def,
    Option.some.injEq] at h
  obtain ⟨x, hx, y, hy, z, hz, w, hw, rfl⟩ := h
  exact (takes_float hx).bind ((takes_float hy).bind ((takes_float hz).bind ((takes_float hw).bind
    (.pure _))))

theorem takes_rotation {r q : Rotation} (h : r.reread? = some q) :
    Takes (rotation ctx) (FieldType.realTokens (Parts.parts r)) q := by
  simp only [Rotation.reread?, Option.bind_eq_bind, Option.bind_eq_some_iff] at h
  obtain ⟨axis, haxis, angle, hangle, hq⟩ := h
  refine (takes_vector3 haxis).bind ?_
  change Takes _ (FieldType.realTokens [r.angle] ++ []) q
  refine (takes_float hangle).bind ?_
  rw [hq]
  exact .pure q

/-- **A value is read off its tokens.** -/
theorem takes_value {t : FieldType} {v v' : t.Carrier} (h : t.reread? v = some v') :
    Takes (value ctx node t) (t.tokens v) v' := by
  cases t with
  | boolean =>
    obtain rfl := Option.some.inj h
    exact .token rfl
  | int =>
    obtain rfl := Option.some.inj h
    exact .token rfl
  | string =>
    obtain rfl := Option.some.inj h
    exact .token rfl
  | node => cases h
  | float => exact takes_float h
  | time =>
    obtain ⟨t, ht, hv⟩ := Option.bind_eq_some_iff.1 h
    have htoken : FieldType.tokens .time v = [t] := by rw [FieldType.tokens, ht]; rfl
    rw [htoken]
    exact takes_number hv
  | color =>
    obtain ⟨w, hw, rfl⟩ := Option.map_eq_some_iff.1 h
    exact (takes_vector3 hw).bind (.pure _)
  | rotation => exact takes_rotation h
  | vector2 => exact takes_vector2 h
  | vector3 => exact takes_vector3 h
  | vector4 => exact takes_vector4 h
  | matrix3 =>
    simp only [FieldType.reread?, Option.bind_eq_bind, Option.bind_eq_some_iff, Option.pure_def,
      Option.some.injEq] at h
    obtain ⟨a, ha, b, hb, c, hc, rfl⟩ := h
    exact (takes_vector3 ha).bind ((takes_vector3 hb).bind ((takes_vector3 hc).bind (.pure _)))
  | matrix4 =>
    simp only [FieldType.reread?, Option.bind_eq_bind, Option.bind_eq_some_iff, Option.pure_def,
      Option.some.injEq] at h
    obtain ⟨a, ha, b, hb, c, hc, d, hd, rfl⟩ := h
    exact (takes_vector4 ha).bind ((takes_vector4 hb).bind ((takes_vector4 hc).bind
      ((takes_vector4 hd).bind (.pure _))))

end Reader

end SceneGraph
