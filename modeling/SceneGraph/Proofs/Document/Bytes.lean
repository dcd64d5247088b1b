import SceneGraph.Proofs.Document.Lexing

/-!
# Texts as bytes

The scanner of a program that holds its text in UTF-8 goes by bytes, and takes slices of the text from
one byte to another. What the scanner asks of a character is the same for all characters beyond ASCII, and
for all their bytes. So scanning the bytes of a text (`units`) takes the bytes of the same characters as
scanning the text, and every slice begins and ends between two characters.

* `Lexed.SameBytes.first`: the lexeme at the front of the bytes of a text.
* `map_stop_byteTokens`: scanning a text by bytes finds its lexemes.
* `isSlice_of_mem_slices`: no slice begins or ends inside a character.
-/

namespace SceneGraph

open Numeral (startsWith)

/-- The bytes of a character, each as the character of its number. -/
def unit (c : Char) : List Char := (String.utf8EncodeChar c).map Char.ofUInt8

/-- The bytes of a text, each as the character of its number. -/
def units (cs : List Char) : List Char := cs.flatMap unit

/-- All characters beyond ASCII are alike. -/
def IsUniform (p : Char → Bool) : Prop := ∀ c d : Char, 128 ≤ c.toNat → 128 ≤ d.toNat → p c = p d

variable {p : Char → Bool} {c : Char} {cs r : List Char}

/-! ### The bytes of characters -/

theorem toNat_ofUInt8 (b : UInt8) : (Char.ofUInt8 b).toNat = b.toNat := rfl

theorem length_unit (c : Char) : (unit c).length = c.utf8Size := by
  rw [unit, List.length_map, String.length_utf8EncodeChar]

theorem unit_of_lt (h : c.toNat < 128) : unit c = [c] := by
  have hle : c.val.toNat ≤ 127 := Nat.le_of_lt_succ h
  have hunit : unit c = [Char.ofUInt8 (UInt8.ofNat c.val.toNat)] := by
    rw [unit, String.utf8EncodeChar, if_pos hle]
    rfl
  have hsame : (Char.ofUInt8 (UInt8.ofNat c.val.toNat)).toNat = c.toNat := by
    rw [toNat_ofUInt8, UInt8.toNat_ofNat']
    exact Nat.mod_eq_of_lt (Nat.lt_of_le_of_lt hle (by decide))
  rw [hunit, Char.toNat_inj.1 hsame]

/-- The bytes of a character beyond ASCII are all beyond ASCII. -/
theorem le_of_mem_unit (h : 128 ≤ c.toNat) {d : Char} (hd : d ∈ unit c) : 128 ≤ d.toNat := by
  obtain ⟨b, hb, rfl⟩ := List.mem_map.1 hd
  rw [toNat_ofUInt8]
  have hv : ¬ c.val.toNat ≤ 127 := Nat.not_le.2 h
  unfold String.utf8EncodeChar at hb
  rw [if_neg hv] at hb
  split at hb
  · simp only [List.mem_cons, List.not_mem_nil, or_false] at hb
    rcases hb with rfl | rfl <;> rw [UInt8.toNat_ofNat'] <;> omega
  split at hb
  · simp only [List.mem_cons, List.not_mem_nil, or_false] at hb
    rcases hb with rfl | rfl | rfl <;> rw [UInt8.toNat_ofNat'] <;> omega
  · simp only [List.mem_cons, List.not_mem_nil, or_false] at hb
    rcases hb with rfl | rfl | rfl | rfl <;> rw [UInt8.toNat_ofNat'] <;> omega

theorem unit_ne_nil (c : Char) : unit c ≠ [] := by
  rw [← List.length_pos_iff, length_unit]
  exact c.utf8Size_pos

@[simp] theorem units_nil : units [] = [] := rfl

theorem units_cons (c : Char) (cs : List Char) : units (c :: cs) = unit c ++ units cs := List.flatMap_cons

theorem units_append (cs r : List Char) : units (cs ++ r) = units cs ++ units r := List.flatMap_append

theorem units_eq_nil_iff : units cs = [] ↔ cs = [] := by
  cases cs with
  | nil => exact ⟨fun _ => rfl, fun _ => rfl⟩
  | cons c cs => simp [units_cons, unit_ne_nil]

theorem byteLength_cons (c : Char) (cs : List Char) : byteLength (c :: cs) = c.utf8Size + byteLength cs := by
  have hfold : ∀ (cs : List Char) (n : Nat), cs.foldl (fun n c => n + c.utf8Size) n = n + byteLength cs := by
    intro cs
    induction cs with
    | nil => exact fun _ => rfl
    | cons c cs ih =>
      intro n
      rw [byteLength, List.foldl_cons, List.foldl_cons, ih, ih (0 + c.utf8Size), Nat.zero_add, Nat.add_assoc]
  rw [byteLength, List.foldl_cons, hfold, Nat.zero_add]

theorem length_units (cs : List Char) : (units cs).length = byteLength cs := by
  induction cs with
  | nil => rfl
  | cons c cs ih => rw [units_cons, List.length_append, length_unit, ih, byteLength_cons]

theorem length_le_byteLength (cs : List Char) : cs.length ≤ byteLength cs := by
  induction cs with
  | nil => exact Nat.le_refl _
  | cons c cs ih =>
    have hpos := c.utf8Size_pos
    rw [List.length_cons, byteLength_cons]
    omega

theorem units_of_lt (h : ∀ c ∈ cs, c.toNat < 128) : units cs = cs := by
  induction cs with
  | nil => rfl
  | cons c cs ih =>
    rw [units_cons, unit_of_lt (h c List.mem_cons_self), ih fun d hd => h d (List.mem_cons_of_mem _ hd)]
    rfl

/-- A character is one byte of its own, or all its bytes are beyond ASCII. -/
theorem unit_cases (c : Char) : (c.toNat < 128 ∧ unit c = [c]) ∨
    128 ≤ c.toNat ∧ ∃ d ds, unit c = d :: ds ∧ 128 ≤ d.toNat ∧ ∀ e ∈ ds, 128 ≤ e.toNat := by
  by_cases h : c.toNat < 128
  · exact .inl ⟨h, unit_of_lt h⟩
  · obtain ⟨d, ds, hds⟩ := List.exists_cons_of_ne_nil (unit_ne_nil c)
    have hall : ∀ e ∈ d :: ds, 128 ≤ e.toNat := fun e he => le_of_mem_unit (Nat.not_lt.1 h) (hds ▸ he)
    exact .inr ⟨Nat.not_lt.1 h, d, ds, hds, hall d List.mem_cons_self,
      fun e he => hall e (List.mem_cons_of_mem _ he)⟩

/-! ### Runs of characters -/

theorem IsUniform.of_mem_unit (h : IsUniform p) {d : Char} (hd : d ∈ unit c) : p d = p c := by
  rcases Nat.lt_or_ge c.toNat 128 with hc | hc
  · rw [unit_of_lt hc] at hd
    rw [List.mem_singleton.1 hd]
  · exact h d c (le_of_mem_unit hc hd) hc

theorem startsWith_units (h : IsUniform p) (cs : List Char) : startsWith p (units cs) = startsWith p cs := by
  cases cs with
  | nil => rfl
  | cons c cs =>
    obtain ⟨d, ds, hds⟩ := List.exists_cons_of_ne_nil (unit_ne_nil c)
    rw [units_cons, hds]
    exact h.of_mem_unit (c := c) (hds ▸ List.mem_cons_self)

theorem span_units (h : IsUniform p) (cs : List Char) :
    (units cs).span p = (units (cs.span p).1, units (cs.span p).2) := by
  rw [List.span_eq_takeWhile_dropWhile, List.span_eq_takeWhile_dropWhile]
  induction cs with
  | nil => rfl
  | cons c cs ih =>
    obtain ⟨htake, hdrop⟩ := Prod.mk.inj ih
    by_cases hc : p c = true
    · have hall : ∀ d ∈ unit c, p d = true := fun d hd => (h.of_mem_unit hd).trans hc
      rw [units_cons, List.takeWhile_append_of_pos hall, List.dropWhile_append_of_pos hall, htake, hdrop,
        List.takeWhile_cons_of_pos hc, List.dropWhile_cons_of_pos hc, units_cons]
    · obtain ⟨d, ds, hds⟩ := List.exists_cons_of_ne_nil (unit_ne_nil c)
      have hd : ¬ p d = true := by rwa [h.of_mem_unit (c := c) (hds ▸ List.mem_cons_self)]
      rw [units_cons, hds, List.cons_append, List.takeWhile_cons_of_neg hd, List.dropWhile_cons_of_neg hd,
        List.takeWhile_cons_of_neg hc, List.dropWhile_cons_of_neg hc, units_cons, hds]
      rfl

/-- Characters of which none beyond ASCII has the property. -/
theorem IsUniform.of_lt (h : ∀ c, p c = true → c.toNat < 128) : IsUniform p := by
  have hfalse : ∀ c : Char, 128 ≤ c.toNat → p c = false := fun c hc => by
    by_contra hp
    exact absurd (h c (by simpa using hp)) (Nat.not_lt.2 hc)
  exact fun c d hc hd => (hfalse c hc).trans (hfalse d hd).symm

theorem lt_of_isDigit (h : c.isDigit = true) : c.toNat < 128 := by
  simp only [Char.isDigit, Bool.and_eq_true, decide_eq_true_eq] at h
  exact Nat.lt_of_le_of_lt (UInt32.le_iff_toNat_le.1 h.2) (by decide)

theorem isUniform_isDigit : IsUniform Char.isDigit := .of_lt fun _ => lt_of_isDigit

theorem lt_of_isHexDigit (h : isHexDigit c = true) : c.toNat < 128 := by
  simp only [isHexDigit, Bool.or_eq_true, Bool.and_eq_true, decide_eq_true_eq] at h
  rcases h with (h | h) | h
  · exact lt_of_isDigit h
  · exact Nat.lt_of_le_of_lt (UInt32.le_iff_toNat_le.1 h.2) (by decide)
  · exact Nat.lt_of_le_of_lt (UInt32.le_iff_toNat_le.1 h.2) (by decide)

theorem isWordStart_of_le (h : 128 ≤ c.toNat) : isWordStart c = true := by
  simp [isWordStart, h]

theorem isUniform_isWordPart : IsUniform isWordPart := fun c d hc hd => by
  rw [isWordPart, isWordPart, isWordStart_of_le hc, isWordStart_of_le hd]
  rfl

theorem ne_of_le (h : 128 ≤ c.toNat) {d : Char} (hd : d.toNat < 128) : (c == d) = false := by
  rw [beq_eq_false_iff_ne]
  rintro rfl
  omega

theorem endsInvalid_of_le (h : 128 ≤ c.toNat) : endsInvalid c = false := by
  simp [endsInvalid, ne_of_le h]

theorem isUniform_endsInvalid : IsUniform (!endsInvalid ·) := fun c d hc hd => by
  simp only [endsInvalid_of_le hc, endsInvalid_of_le hd]

/-! ### Lexemes -/

/-- A comment takes the bytes of its characters. -/
theorem splitBlanks_append {hs : List Char} (h : ∀ d ∈ hs, 128 ≤ d.toNat) (r : List Char) :
    splitBlanks true (hs ++ r) = (hs ++ (splitBlanks true r).1, (splitBlanks true r).2) := by
  induction hs with
  | nil => rfl
  | cons d ds ih =>
    have hd : (d != '\n') = true := by simp [bne, ne_of_le (h d List.mem_cons_self)]
    rw [List.cons_append, splitBlanks, hd, ih fun e he => h e (List.mem_cons_of_mem _ he)]
    rfl

theorem splitBlanks_units (comment : Bool) (cs : List Char) : splitBlanks comment (units cs) =
    (units (splitBlanks comment cs).1, units (splitBlanks comment cs).2) := by
  induction cs generalizing comment with
  | nil => cases comment <;> rfl
  | cons c cs ih =>
    rcases unit_cases c with ⟨-, hunit⟩ | ⟨hc, d, ds, hunit, hd, hds⟩
    · -- one byte
      have hcons : ∀ cs, units (c :: cs) = c :: units cs := fun cs => by rw [units_cons, hunit]; rfl
      rw [hcons]
      cases comment with
      | true => rw [splitBlanks, splitBlanks, ih]; simp [hcons]
      | false =>
        rw [splitBlanks, splitBlanks]
        split
        · rw [ih]; simp [hcons]
        · split
          · rw [ih]; simp [hcons]
          · rw [hcons]; rfl
    · -- bytes beyond ASCII
      have hall : ∀ e ∈ d :: ds, 128 ≤ e.toNat := List.forall_mem_cons.2 ⟨hd, hds⟩
      cases comment with
      | true =>
        have hline : (c != '\n') = true := by simp [bne, ne_of_le hc]
        rw [units_cons, hunit, splitBlanks_append hall, ih, splitBlanks, hline]
        simp [units_cons, hunit]
      | false =>
        have hblank : ∀ {e : Char}, 128 ≤ e.toNat → isSeparator e = false := fun he => by
          simp [isSeparator, ne_of_le he]
        rw [units_cons, hunit, List.cons_append, splitBlanks, splitBlanks, hblank hd, hblank hc,
          ne_of_le hd (by decide), ne_of_le hc (by decide)]
        simp [units_cons, hunit]

/-- A string takes the bytes of its characters. -/
theorem splitString?_append {hs : List Char} (h : ∀ d ∈ hs, 128 ≤ d.toNat) (r : List Char) :
    splitString? (hs ++ r) = (splitString? r).map fun (value, raw, rest) => (hs ++ value, hs ++ raw, rest) := by
  induction hs with
  | nil =>
    rw [List.nil_append]
    cases splitString? r <;> rfl
  | cons d ds ih =>
    have hd := h d List.mem_cons_self
    have ih := ih fun e he => h e (List.mem_cons_of_mem _ he)
    have hquote : (d == '"') = false := ne_of_le hd (by decide)
    have hescape : (d == '\\') = false := ne_of_le hd (by decide)
    rw [List.cons_append]
    cases htail : ds ++ r with
    | nil =>
      obtain ⟨rfl, rfl⟩ := List.append_eq_nil_iff.1 htail
      simp [splitString?, hquote]
    | cons e es =>
      rw [htail] at ih
      rw [splitString?, hquote, hescape, ih]
      cases splitString? r <;> rfl

theorem units_cons_of_lt (h : c.toNat < 128) (cs : List Char) : units (c :: cs) = c :: units cs := by
  rw [units_cons, unit_of_lt h]
  rfl

theorem lt_of_beq {d : Char} (h : (c == d) = true) (hd : d.toNat < 128) : c.toNat < 128 := beq_iff_eq.1 h ▸ hd

theorem splitString?_units (cs : List Char) : splitString? (units cs) =
    (splitString? cs).map fun (value, raw, rest) => (units value, units raw, units rest) := by
  fun_induction splitString? cs with
  | case1 => rfl
  | case2 c hc =>
    rw [units_cons_of_lt (lt_of_beq hc (by decide)), units_nil, splitString?, hc]
    simp [units_cons_of_lt (lt_of_beq hc (by decide))]
  | case3 c hc =>
    rcases unit_cases c with ⟨hlt, -⟩ | ⟨hle, -⟩
    · rw [units_cons_of_lt hlt, units_nil, splitString?, if_neg hc]
      rfl
    · rw [units_cons, splitString?_append fun d hd => le_of_mem_unit hle hd]
      rfl
  | case4 c d r hc =>
    have hlt := lt_of_beq hc (by decide)
    obtain ⟨e, es, hes⟩ := List.exists_cons_of_ne_nil (mt units_eq_nil_iff.1 (List.cons_ne_nil d r))
    rw [units_cons_of_lt hlt, hes, splitString?, if_pos hc, ← hes]
    simp [units_cons_of_lt hlt]
  | case5 c d r hc hescape ih =>
    have hand := Bool.and_eq_true_iff.1 hescape
    have hlt := lt_of_beq hand.1 (by decide)
    have hlt' : d.toNat < 128 :=
      (Bool.or_eq_true_iff.1 hand.2).elim (lt_of_beq · (by decide)) (lt_of_beq · (by decide))
    rw [units_cons_of_lt hlt, units_cons_of_lt hlt', splitString?, if_neg hc, if_pos hescape, ih]
    cases splitString? r <;> simp [units_cons_of_lt hlt, units_cons_of_lt hlt']
  | case6 c d r hc hescape ih =>
    rcases unit_cases c with ⟨hlt, -⟩ | ⟨hle, -⟩
    · -- the first byte of the next character is a quote or a backslash only if the character is
      obtain ⟨e, es, hes⟩ := List.exists_cons_of_ne_nil (unit_ne_nil d)
      have hnext : ∀ {x : Char}, x.toNat < 128 → (e == x) = (d == x) := fun {x} hx =>
        (IsUniform.of_lt (p := (· == x)) fun y hy => lt_of_beq hy hx).of_mem_unit (hes ▸ List.mem_cons_self)
      have hescape' : ¬ (c == '\\' && (e == '"' || e == '\\')) = true := by
        rwa [hnext (by decide), hnext (by decide)]
      have hcons : units (d :: r) = e :: (es ++ units r) := by rw [units_cons, hes]; rfl
      rw [units_cons_of_lt hlt, hcons, splitString?, if_neg hc, if_neg hescape', ← hcons, ih]
      cases splitString? (d :: r) <;> simp [units_cons_of_lt hlt]
    · rw [units_cons, splitString?_append fun d hd => le_of_mem_unit hle hd, ih]
      cases splitString? (d :: r) <;> simp [units_cons]

/-! ### Numerals -/

namespace Numeral

theorem splitSign_of_le (h : 128 ≤ c.toNat) (r : List Char) : splitSign (c :: r) = ([], c :: r) := by
  unfold splitSign
  split
  · rename_i heq
    obtain ⟨rfl, -⟩ := List.cons.inj heq
    exact absurd h (by decide)
  · rename_i heq
    obtain ⟨rfl, -⟩ := List.cons.inj heq
    exact absurd h (by decide)
  · rfl

theorem splitSign_units (cs : List Char) : splitSign (units cs) = ((splitSign cs).1, units (splitSign cs).2) := by
  cases cs with
  | nil => rfl
  | cons c cs =>
    rcases unit_cases c with ⟨hlt, -⟩ | ⟨hle, d, ds, hunit, hd, -⟩
    · rw [units_cons_of_lt hlt]
      unfold splitSign
      split <;> simp_all [units_cons_of_lt hlt]
    · rw [splitSign_of_le hle, units_cons, hunit, List.cons_append, splitSign_of_le hd]

theorem hexMark?_of_ne (h : c ≠ '0') (r : List Char) : hexMark? (c :: r) = none := by
  unfold hexMark?
  split
  · rename_i heq
    exact absurd (List.cons.inj heq).1 h
  · rfl

theorem ne_zero_of_le (h : 128 ≤ c.toNat) : c ≠ '0' := by
  rintro rfl
  exact absurd h (by decide)

theorem hexMark?_units (cs : List Char) :
    hexMark? (units cs) = (hexMark? cs).map fun (mark, r) => (mark, units r) := by
  rcases cs with _ | ⟨c, cs⟩
  · rfl
  rcases unit_cases c with ⟨hlt, -⟩ | ⟨hle, d, ds, hunit, hd, -⟩
  · rw [units_cons_of_lt hlt]
    by_cases hc : c = '0'
    · subst hc
      rcases cs with _ | ⟨x, cs⟩
      · rfl
      rcases unit_cases x with ⟨hx, -⟩ | ⟨hx, e, es, hunit, he, -⟩
      · rw [units_cons_of_lt hx, hexMark?, hexMark?]
        split <;> rfl
      · rw [units_cons, hunit, List.cons_append, hexMark?, hexMark?]
        simp [ne_of_le hx, ne_of_le he]
    · rw [hexMark?_of_ne hc, hexMark?_of_ne hc]
      rfl
  · rw [units_cons, hunit, List.cons_append, hexMark?_of_ne (ne_zero_of_le hd), hexMark?_of_ne (ne_zero_of_le hle)]
    rfl

theorem splitFraction_of_le (h : 128 ≤ c.toNat) (r : List Char) : splitFraction (c :: r) = ([], [], c :: r) := by
  unfold splitFraction
  split
  · rename_i heq
    obtain ⟨rfl, -⟩ := List.cons.inj heq
    exact absurd h (by decide)
  · rfl

/-- Digits are bytes. -/
theorem units_span_isDigit (cs : List Char) : units (cs.span Char.isDigit).1 = (cs.span Char.isDigit).1 := by
  rw [List.span_eq_takeWhile_dropWhile]
  exact units_of_lt fun d hd => lt_of_isDigit (List.mem_takeWhile_imp hd)

theorem splitFraction_units (cs : List Char) : splitFraction (units cs) =
    ((splitFraction cs).1, (splitFraction cs).2.1, units (splitFraction cs).2.2) := by
  rcases cs with _ | ⟨c, cs⟩
  · rfl
  rcases unit_cases c with ⟨hlt, -⟩ | ⟨hle, d, ds, hunit, hd, -⟩
  · rw [units_cons_of_lt hlt]
    by_cases hc : c = '.'
    · subst hc
      rw [splitFraction, splitFraction, span_units isUniform_isDigit, units_span_isDigit]
    · rw [splitFraction_of_ne hc, splitFraction_of_ne hc, units_cons_of_lt hlt]
  · rw [units_cons, hunit, List.cons_append, splitFraction_of_le hd, splitFraction_of_le hle, units_cons, hunit,
      List.cons_append]

theorem splitExponent?_units (cs : List Char) : splitExponent? (units cs) =
    (splitExponent? cs).map fun (mark, digits, rest) => (mark, digits, units rest) := by
  rcases cs with _ | ⟨c, cs⟩
  · rfl
  rcases unit_cases c with ⟨hlt, -⟩ | ⟨hle, d, ds, hunit, hd, -⟩
  · rw [units_cons_of_lt hlt, splitExponent?, splitExponent?]
    split
    · rw [splitSign_units]
      dsimp only
      rw [span_units isUniform_isDigit, units_span_isDigit]
      rcases hspan : (splitSign cs).2.span Char.isDigit with ⟨_ | ⟨e, es⟩, rest⟩ <;> rfl
    · rw [← units_cons_of_lt hlt]
      rfl
  · have hnone : ∀ {e : Char} {r : List Char}, 128 ≤ e.toNat → splitExponent? (e :: r) = some ([], [], e :: r) :=
      fun he => by simp [splitExponent?, ne_of_le he]
    rw [units_cons, hunit, List.cons_append, hnone hd, hnone hle, Option.map_some]
    dsimp only
    rw [units_cons, hunit, List.cons_append]

/-- **A numeral takes the bytes of its characters**, which are one each. -/
theorem split?_units (cs : List Char) : split? (units cs) =
    (split? cs).map fun (n, raw, rest) => (n, raw, units rest) := by
  unfold split?
  rw [splitSign_units]
  dsimp only
  rw [hexMark?_units]
  cases hmark : hexMark? (splitSign cs).2 with
  | some m =>
    obtain ⟨mark, r⟩ := m
    dsimp only [Option.map_some]
    have hdigits : units (r.span isHexDigit).1 = (r.span isHexDigit).1 := by
      rw [List.span_eq_takeWhile_dropWhile]
      exact units_of_lt fun d hd => lt_of_isHexDigit (List.mem_takeWhile_imp hd)
    rw [span_units (.of_lt fun _ => lt_of_isHexDigit), hdigits]
    rcases r.span isHexDigit with ⟨_ | ⟨d, ds⟩, rest⟩
    · rfl
    · dsimp only
      rw [startsWith_units isUniform_isWordPart]
      split <;> rfl
  | none =>
    dsimp only [Option.map_none]
    rw [span_units isUniform_isDigit, units_span_isDigit]
    dsimp only
    rw [splitFraction_units]
    dsimp only
    split
    · rfl
    · rw [splitExponent?_units]
      cases splitExponent? (splitFraction ((splitSign cs).2.span Char.isDigit).2).2.2 with
      | none => rfl
      | some e =>
        obtain ⟨mark, exponent, rest⟩ := e
        have hpoint : ∀ {c : Char}, 128 ≤ c.toNat → (c == '.') = false := fun hc => ne_of_le hc (by decide)
        have hends : IsUniform fun c => isWordPart c || c == '.' := fun c d hc hd => by
          simp only [isUniform_isWordPart c d hc hd, hpoint hc, hpoint hd]
        dsimp only [Option.map_some]
        rw [startsWith_units hends]
        split <;> rfl

/-- The characters of a numeral are bytes. -/
theorem units_of_split? {n : Numeral} {raw rest : List Char} (h : split? cs = some (n, raw, rest)) :
    units raw = raw := by
  have hbytes := split?_units cs
  rw [h, Option.map_some] at hbytes
  have hraw : raw ++ units rest = units cs := (split?_spec hbytes).1
  rw [← (split?_spec h).1, units_append] at hraw
  exact (List.append_cancel_right hraw).symm

/-- The digits of a hexadecimal numeral are its last characters. -/
theorem exists_of_hexadecimal {negative : Bool} {digits raw rest : List Char}
    (h : split? cs = some (hexadecimal negative digits, raw, rest)) : ∃ mark, raw = mark ++ digits := by
  unfold split? at h
  dsimp only at h
  split at h
  · split at h
    · cases h
    · split at h
      · cases h
      · simp only [Option.some.injEq, Prod.mk.injEq, hexadecimal.injEq] at h
        obtain ⟨⟨-, rfl⟩, rfl, -⟩ := h
        exact ⟨_, rfl⟩
  · split at h
    · cases h
    · split at h
      · cases h
      · split at h <;> simp at h

end Numeral

/-! ### The first lexeme -/

namespace Lexed

variable {header : Option Header}

/-- The second one takes the bytes of what the first one takes. -/
structure SameBytes (a b : Lexed) : Prop where
  raw : b.raw = units a.raw
  rest : b.rest = units a.rest

theorem SameBytes.invalid (h : c.toNat < 128) (r : List Char) :
    (invalid c r).SameBytes (invalid c (units r)) := by
  unfold Lexed.invalid
  rw [span_units isUniform_endsInvalid]
  exact ⟨(units_cons_of_lt h _).symm, rfl⟩

theorem SameBytes.word (cs : List Char) : (word header cs).SameBytes (word header (units cs)) := by
  unfold Lexed.word
  rw [span_units isUniform_isWordPart]
  exact ⟨rfl, rfl⟩

theorem SameBytes.number (h : c.toNat < 128) (r : List Char) :
    (number c r).SameBytes (number c (units r)) := by
  unfold Lexed.number
  rw [← units_cons_of_lt h, Numeral.split?_units]
  cases hsplit : Numeral.split? (c :: r) with
  | none => exact .invalid h r
  | some n => exact ⟨(Numeral.units_of_split? hsplit).symm, rfl⟩

theorem SameBytes.string (r : List Char) : (string r).SameBytes (string (units r)) := by
  have hquote : ∀ cs, units ('"' :: cs) = '"' :: units cs := units_cons_of_lt (by decide)
  unfold Lexed.string
  rw [splitString?_units]
  cases splitString? r with
  | none => exact ⟨(hquote r).symm, rfl⟩
  | some s => exact ⟨(hquote _).symm, rfl⟩

theorem SameBytes.sign (s : Symbol) (r : List Char) : (sign s r).SameBytes (sign s (units r)) := by
  refine ⟨(units_of_lt fun d hd => ?_).symm, rfl⟩
  rw [List.mem_singleton.1 hd]
  cases s <;> decide

/-- **The lexeme at the front of the bytes of a text** takes the bytes of the lexeme of the text. -/
theorem SameBytes.first (header : Option Header) {d : Char} {ds : List Char} (h : units (c :: r) = d :: ds) :
    (first header c r).SameBytes (first header d ds) := by
  rcases unit_cases c with ⟨hlt, -⟩ | ⟨hle, e, es, hunit, he, -⟩
  · -- what decides about the lexeme is the same byte
    obtain ⟨rfl, rfl⟩ := List.cons.inj ((units_cons_of_lt hlt r).symm.trans h)
    unfold Lexed.first
    rw [startsWith_units isUniform_isDigit]
    split; · exact .sign _ r
    split; · exact .sign _ r
    split; · exact .sign _ r
    split; · exact .sign _ r
    split; · exact .sign _ r
    split; · exact .string r
    split; · exact .number hlt r
    split
    · rw [← h]
      exact .word (c :: r)
    · exact .invalid hlt r
  · -- a word begins
    have hd : 128 ≤ d.toNat := by
      rw [units_cons, hunit, List.cons_append] at h
      exact (List.cons.inj h).1 ▸ he
    rw [first_of_isWordStart (isWordStart_of_le hle), first_of_isWordStart (isWordStart_of_le hd), ← h]
    exact .word (c :: r)

end Lexed

/-! ### What the lexemes take -/

theorem splitBlanks_append_eq (comment : Bool) (cs : List Char) :
    (splitBlanks comment cs).1 ++ (splitBlanks comment cs).2 = cs := by
  induction cs generalizing comment with
  | nil => cases comment <;> rfl
  | cons c cs ih =>
    cases comment with
    | true => exact congrArg (c :: ·) (ih _)
    | false =>
      unfold splitBlanks
      split
      · exact congrArg (c :: ·) (ih _)
      · split
        · exact congrArg (c :: ·) (ih _)
        · rfl

theorem splitString?_append_eq {value raw rest : List Char} (h : splitString? cs = some (value, raw, rest)) :
    raw ++ rest = cs := by
  fun_induction splitString? cs generalizing value raw rest with
  | case1 => cases h
  | case2 c hc =>
    obtain ⟨-, rfl, rfl⟩ : [] = value ∧ [c] = raw ∧ [] = rest := by simpa using h
    rfl
  | case3 => cases h
  | case4 c d r hc =>
    obtain ⟨-, rfl, rfl⟩ : [] = value ∧ [c] = raw ∧ d :: r = rest := by simpa using h
    rfl
  | case5 c d r _ _ ih =>
    obtain ⟨⟨v, w, s⟩, hs, heq⟩ := Option.map_eq_some_iff.1 h
    obtain ⟨-, rfl, rfl⟩ : d :: v = value ∧ c :: d :: w = raw ∧ s = rest := by simpa using heq
    exact congrArg (c :: d :: ·) (ih hs)
  | case6 c d r _ _ ih =>
    obtain ⟨⟨v, w, s⟩, hs, heq⟩ := Option.map_eq_some_iff.1 h
    obtain ⟨-, rfl, rfl⟩ : c :: v = value ∧ c :: w = raw ∧ s = rest := by simpa using heq
    exact congrArg (c :: ·) (ih hs)

theorem span_append_eq (p : Char → Bool) (cs : List Char) : (cs.span p).1 ++ (cs.span p).2 = cs := by
  rw [List.span_eq_takeWhile_dropWhile]
  exact List.takeWhile_append_dropWhile

namespace Lexed

/-- A lexeme takes the front of the text. -/
theorem raw_append_rest (header : Option Header) (c : Char) (r : List Char) :
    (first header c r).raw ++ (first header c r).rest = c :: r := by
  have hinvalid : (invalid c r).raw ++ (invalid c r).rest = c :: r := congrArg (c :: ·) (span_append_eq _ r)
  have hsign : ∀ {d : Char}, (c == d) = true → d :: r = c :: r := fun h => by rw [beq_iff_eq.1 h]
  unfold first
  split; · exact hsign ‹_›
  split; · exact hsign ‹_›
  split; · exact hsign ‹_›
  split; · exact hsign ‹_›
  split; · exact hsign (Bool.and_eq_true_iff.1 ‹_›).1
  split
  · rename_i hquote
    rw [beq_iff_eq.1 hquote]
    unfold string
    split
    · exact congrArg ('"' :: ·) (splitString?_append_eq ‹_›)
    · exact List.append_nil _
  split
  · unfold number
    split
    · exact (Numeral.split?_spec ‹_›).1
    · exact hinvalid
  split
  · unfold word
    exact span_append_eq isWordPart (c :: r)
  · exact hinvalid

end Lexed

/-! ### Slices -/

/-- A slice of a text from one byte to another, both between two characters. -/
structure IsSlice (text : String) (start stop : Nat) : Prop where
  le : start ≤ stop
  start : String.Pos.Raw.IsValid text ⟨start⟩
  stop : String.Pos.Raw.IsValid text ⟨stop⟩

theorem byteLength_append (cs r : List Char) : byteLength (cs ++ r) = byteLength cs + byteLength r := by
  rw [← length_units, units_append, List.length_append, length_units, length_units]

theorem utf8ByteSize_ofList (cs : List Char) : (String.ofList cs).utf8ByteSize = byteLength cs := by
  rw [← length_units, units]
  simp [String.utf8ByteSize, List.utf8Encode, List.length_flatMap, length_unit]

theorem IsSlice.of_append {text : String} {before taken rest : List Char}
    (h : text.toList = before ++ (taken ++ rest)) :
    IsSlice text (byteLength before) (byteLength before + byteLength taken) := by
  have hvalid : ∀ cs r : List Char, text.toList = cs ++ r → String.Pos.Raw.IsValid text ⟨byteLength cs⟩ := by
    intro cs r hcs
    rw [String.Pos.Raw.isValid_iff_exists_append]
    refine ⟨String.ofList cs, String.ofList r, ?_, ?_⟩
    · rw [← String.ofList_append, ← hcs, String.ofList_toList]
    · rw [← utf8ByteSize_ofList]
      rfl
  refine ⟨Nat.le_add_right _ _, hvalid _ _ h, ?_⟩
  rw [← byteLength_append]
  exact hvalid _ rest (by rw [h, List.append_assoc])

/-! ### Places -/

/-- A place of a text between two characters. -/
def Cursor.IsIn (text : String) (c : Cursor) : Prop :=
  ∃ before, text.toList = before ++ c.rest ∧ c.offset = byteLength before

namespace Cursor

theorem isIn_ofText (text : String) : (ofText text).IsIn text := by
  unfold ofText
  split
  · rename_i rest h
    exact ⟨['\ufeff'], h, rfl⟩
  · exact ⟨[], rfl, rfl⟩

theorem IsIn.after {text : String} {c : Cursor} (h : c.IsIn text) {taken rest : List Char}
    (hrest : c.rest = taken ++ rest) : (c.after taken rest).IsIn text := by
  obtain ⟨before, htext, hoffset⟩ := h
  refine ⟨before ++ taken, ?_, ?_⟩
  · rw [htext, hrest, List.append_assoc]
    rfl
  · rw [byteLength_append, ← hoffset]
    rfl

/-- A line is taken off the front. -/
theorem exists_readLine (c : Cursor) : ∃ taken rest, c.rest = taken ++ rest ∧ c.readLine.2 = c.after taken rest := by
  have hspan := span_append_eq (· != '\n') c.rest
  unfold Cursor.readLine
  split
  · rename_i line rest heq
    rw [heq] at hspan
    exact ⟨_, rest, by rw [← hspan, List.append_assoc]; rfl, rfl⟩
  · rename_i line rest _ heq
    rw [heq] at hspan
    exact ⟨line, rest, hspan.symm, rfl⟩

theorem IsIn.readLine {text : String} {c : Cursor} (h : c.IsIn text) : c.readLine.2.IsIn text := by
  obtain ⟨taken, rest, hrest, heq⟩ := c.exists_readLine
  exact heq ▸ h.after hrest

theorem IsIn.skipBlanks {text : String} {c : Cursor} (h : c.IsIn text) : c.skipBlanks.IsIn text :=
  h.after (splitBlanks_append_eq false c.rest).symm

theorem IsIn.drop_units {text : String} {c : Cursor} (h : c.IsIn text) :
    (units text.toList).drop c.offset = units c.rest := by
  obtain ⟨before, htext, hoffset⟩ := h
  rw [htext, hoffset, units_append, ← length_units, List.drop_left]

theorem IsIn.length_rest_le {text : String} {c : Cursor} (h : c.IsIn text) : c.rest.length ≤ text.utf8ByteSize := by
  obtain ⟨before, htext, -⟩ := h
  have hle := length_le_byteLength text.toList
  rw [← utf8ByteSize_ofList, String.ofList_toList, htext, List.length_append] at hle
  omega

/-- A place and the end of the text are a slice. -/
theorem IsIn.isSlice {text : String} {c : Cursor} (h : c.IsIn text) : IsSlice text c.offset text.utf8ByteSize := by
  obtain ⟨before, htext, hoffset⟩ := h
  have hsize : text.utf8ByteSize = byteLength before + byteLength c.rest := by
    rw [← byteLength_append, ← htext, ← utf8ByteSize_ofList, String.ofList_toList]
  rw [hsize, hoffset]
  exact .of_append (by rw [htext, List.append_nil])

end Cursor

/-! ### Tokens by bytes -/

/-- A token found by bytes. -/
structure ByteToken where
  start : Nat
  stop : Nat
  /-- Where the digits of a hexadecimal numeral begin and end. -/
  digits : Option (Nat × Nat)

namespace ByteToken

/-- The slices that are taken for a token. -/
def slices (t : ByteToken) : List (Nat × Nat) := (t.start, t.stop) :: t.digits.toList

/-- Where the digits stand if a hexadecimal numeral begins at a byte. -/
def digits? (start : Nat) (bytes : List Char) : Option (Nat × Nat) :=
  match Numeral.split? bytes with
  | some (.hexadecimal _ digits, raw, _) => some (start + (raw.length - digits.length), start + raw.length)
  | _ => none

/-- The tokens of some bytes, at most so many, the first byte having a number. -/
def scan (header : Option Header) : Nat → Nat → List Char → List ByteToken
  | 0, _, _ => []
  | n + 1, place, bytes =>
    let (blank, rest) := splitBlanks false bytes
    let start := place + blank.length
    match rest with
    | [] => []
    | d :: ds =>
      let lexed := Lexed.first header d ds
      let stop := start + lexed.raw.length
      ⟨start, stop, digits? start (d :: ds)⟩ :: scan header n stop lexed.rest

theorem isSlice_of_mem_digits? {text : String} {before : List Char} (h : text.toList = before ++ cs) {s : Nat × Nat}
    (hs : s ∈ digits? (byteLength before) (units cs)) : IsSlice text s.1 s.2 := by
  unfold digits? at hs
  rw [Numeral.split?_units] at hs
  cases hsplit : Numeral.split? cs with
  | none => rw [hsplit] at hs; cases hs
  | some found =>
    obtain ⟨n, raw, rest⟩ := found
    rw [hsplit] at hs
    cases n with
    | decimal => cases hs
    | hexadecimal negative digits =>
      obtain ⟨mark, rfl⟩ := Numeral.exists_of_hexadecimal hsplit
      -- each of the characters is one byte
      have hbytes : byteLength (mark ++ digits) = (mark ++ digits).length := by
        rw [← length_units, Numeral.units_of_split? hsplit]
      rw [byteLength_append, List.length_append] at hbytes
      have hmark := length_le_byteLength mark
      have hdigits := length_le_byteLength digits
      obtain rfl : (byteLength before + ((mark ++ digits).length - digits.length),
          byteLength before + (mark ++ digits).length) = s := Option.some.inj hs
      have htext : text.toList = before ++ mark ++ (digits ++ rest) := by
        rw [h, ← (Numeral.split?_spec hsplit).1]
        simp only [List.append_assoc]
      have hslice := IsSlice.of_append htext
      rw [byteLength_append] at hslice
      have hstart : byteLength before + ((mark ++ digits).length - digits.length) =
          byteLength before + byteLength mark := by rw [List.length_append]; omega
      have hstop : byteLength before + (mark ++ digits).length =
          byteLength before + byteLength mark + byteLength digits := by rw [List.length_append]; omega
      rw [hstart, hstop]
      exact hslice

theorem scan_of_nil {header : Option Header} {c : Cursor} (h : c.skipBlanks.rest = []) (n : Nat) :
    scan header n c.offset (units c.rest) = [] := by
  have hrest : (splitBlanks false c.rest).2 = [] := h
  cases n with
  | zero => rfl
  | succ n =>
    rw [scan, splitBlanks_units, hrest]
    rfl

/-- A scan by bytes takes the bytes of the characters that the scan of the text takes. -/
theorem scan_of_cons {header : Option Header} {c : Cursor} {x : Char} {r : List Char}
    (h : c.skipBlanks.rest = x :: r) (n : Nat) :
    let next := c.skipBlanks.after (Lexed.first header x r).raw (Lexed.first header x r).rest
    scan header (n + 1) c.offset (units c.rest) =
      ⟨c.skipBlanks.offset, next.offset, digits? c.skipBlanks.offset (units (x :: r))⟩ ::
        scan header n next.offset (units next.rest) := by
  intro next
  have hrest : (splitBlanks false c.rest).2 = x :: r := h
  have hoffset : c.offset + (units (splitBlanks false c.rest).1).length = c.skipBlanks.offset := by
    rw [length_units]
    rfl
  obtain ⟨d, ds, hds⟩ := List.exists_cons_of_ne_nil (mt units_eq_nil_iff.1 (List.cons_ne_nil x r))
  have hsame := Lexed.SameBytes.first header hds
  have hstop : c.skipBlanks.offset + (Lexed.first header d ds).raw.length = next.offset := by
    rw [hsame.raw, length_units]
    rfl
  rw [scan, splitBlanks_units, hrest, hds]
  dsimp only
  rw [hoffset, hstop, hsame.rest]
  rfl

/-- **The tokens that are found by bytes end where the lexemes of the text do.** -/
theorem map_stop_scan (header : Option Header) (n : Nat) (c : Cursor) :
    (scan header n c.offset (units c.rest)).map (·.stop) = (c.lexemesUpTo header n).1.map (·.stop) := by
  induction n generalizing c with
  | zero => rfl
  | succ n ih =>
    rw [Cursor.lexemesUpTo]
    cases hrest : c.skipBlanks.rest with
    | nil => rw [scan_of_nil hrest]; rfl
    | cons x r =>
      rw [scan_of_cons hrest]
      exact congrArg _ (ih _)

/-- Every slice that is taken for a token begins and ends between characters. -/
theorem isSlice_of_mem_scan {text : String} {header : Option Header} {n : Nat} {c : Cursor} (h : c.IsIn text)
    {t : ByteToken} (ht : t ∈ scan header n c.offset (units c.rest)) {s : Nat × Nat} (hs : s ∈ t.slices) :
    IsSlice text s.1 s.2 := by
  induction n generalizing c with
  | zero => cases ht
  | succ n ih =>
    cases hrest : c.skipBlanks.rest with
    | nil => rw [scan_of_nil hrest] at ht; cases ht
    | cons x r =>
      have hlexed := hrest.trans (Lexed.raw_append_rest header x r).symm
      rw [scan_of_cons hrest] at ht
      rcases List.mem_cons.1 ht with rfl | ht
      · obtain ⟨before, htext, hoffset⟩ := h.skipBlanks
        rcases List.mem_cons.1 hs with rfl | hs
        · change IsSlice text c.skipBlanks.offset (c.skipBlanks.offset + byteLength (Lexed.first header x r).raw)
          rw [hoffset]
          exact .of_append (by rw [htext, hlexed])
        · rw [hoffset] at hs
          exact isSlice_of_mem_digits? (by rw [htext, hrest]) (Option.mem_toList.1 hs)
      · exact ih (h.skipBlanks.after hlexed) ht

end ByteToken

/-! ### The first line -/

/-- The slices that are taken for the first line of a text: all behind a byte order mark, and of that
the bytes in front of the first line break. -/
def lineSlices (text : String) : List (Nat × Nat) :=
  let start := (Cursor.ofText text).offset
  let line := ((units text.toList).drop start).takeWhile (· != '\n')
  [(start, text.utf8ByteSize), (start, start + line.length)]

/-- The tokens that a scanner by bytes finds behind the first line of a text. -/
def byteTokens (header : Option Header) (text : String) : List ByteToken :=
  let start := (Cursor.ofText text).readLine.2.offset
  ByteToken.scan header text.utf8ByteSize start ((units text.toList).drop start)

namespace Cursor

/-- There are no more lexemes than characters. -/
theorem lexemesUpTo_eq {header : Option Header} {c : Cursor} {n : Nat} (hn : c.rest.length ≤ n) :
    c.lexemesUpTo header n = c.lexemes header := by
  have hcongr : ∀ {n m : Nat} {c : Cursor}, c.rest.length ≤ n → n ≤ m →
      c.lexemesUpTo header m = c.lexemesUpTo header n := by
    intro n
    induction n with
    | zero =>
      intro m c hn _
      have hnil : c.rest = [] := List.length_eq_zero_iff.1 (Nat.le_zero.1 hn)
      have hskip : c.skipBlanks.rest = [] := by
        change (splitBlanks false c.rest).2 = []
        rw [hnil]
        rfl
      cases m with
      | zero => rfl
      | succ m =>
        rw [lexemesUpTo, lexemesUpTo]
        dsimp only
        rw [hskip]
    | succ n ih =>
      intro m c hn hm
      obtain ⟨m, rfl⟩ : ∃ k, m = k + 1 := ⟨m - 1, by omega⟩
      have hlength : c.skipBlanks.rest.length ≤ c.rest.length := length_splitBlanks_le false c.rest
      rw [lexemesUpTo, lexemesUpTo]
      dsimp only
      split
      · rfl
      · rename_i x r hx
        have hfirst := Lexed.length_rest_first_le header x r
        have hx' : c.skipBlanks.rest.length = r.length + 1 := by rw [hx]; rfl
        rw [ih (c := c.skipBlanks.after (Lexed.first header x r).raw (Lexed.first header x r).rest)
          (by change (Lexed.first header x r).rest.length ≤ n; omega) (by omega)]
  exact hcongr (Nat.le_refl _) hn

end Cursor

/-- **Scanning a text by bytes finds the lexemes of the text.** -/
theorem map_stop_byteTokens (header : Option Header) (text : String) :
    (byteTokens header text).map (·.stop) = ((Cursor.ofText text).readLine.2.lexemes header).1.map (·.stop) := by
  have hin := (Cursor.isIn_ofText text).readLine
  rw [byteTokens, hin.drop_units, ByteToken.map_stop_scan, Cursor.lexemesUpTo_eq hin.length_rest_le]

/-- **Every slice of a text that the scanner by bytes takes begins and ends between characters.** -/
theorem isSlice_of_mem_slices {header : Option Header} {text : String} {s : Nat × Nat}
    (hs : s ∈ lineSlices text ++ (byteTokens header text).flatMap (·.slices)) : IsSlice text s.1 s.2 := by
  rcases List.mem_append.1 hs with hs | hs
  · have hin := Cursor.isIn_ofText text
    have hline : IsUniform (· != '\n') := fun c d hc hd => by
      simp only [bne, ne_of_le hc (d := '\n') (by decide), ne_of_le hd (d := '\n') (by decide)]
    have htake : ((units text.toList).drop (Cursor.ofText text).offset).takeWhile (· != '\n') =
        units ((Cursor.ofText text).rest.span (· != '\n')).1 := by
      have hspan := span_units hline (Cursor.ofText text).rest
      rw [List.span_eq_takeWhile_dropWhile] at hspan
      rw [hin.drop_units]
      exact congrArg Prod.fst hspan
    unfold lineSlices at hs
    dsimp only at hs
    rw [htake, length_units] at hs
    simp only [List.mem_cons, List.not_mem_nil, or_false] at hs
    rcases hs with rfl | rfl
    · exact hin.isSlice
    · obtain ⟨before, htext, hoffset⟩ := hin
      rw [hoffset]
      exact .of_append (by rw [htext, span_append_eq])
  · obtain ⟨t, ht, hs⟩ := List.mem_flatMap.1 hs
    have hin := (Cursor.isIn_ofText text).readLine
    rw [byteTokens, hin.drop_units] at ht
    exact ByteToken.isSlice_of_mem_scan hin ht hs

end SceneGraph
