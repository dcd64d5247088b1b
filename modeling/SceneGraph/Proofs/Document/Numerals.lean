import Mathlib.Data.List.TakeDrop
import Mathlib.Data.List.TakeWhile
import SceneGraph.Document.Number

/-!
# Numerals in texts

A numeral is the same whatever follows it, as long as the next character does not belong to it
(`Numeral.split?_append`), and the digits of an integer read back as that integer
(`Numeral.split?_int`). `numberOf?` is the number that a whole text is read as.
-/

namespace SceneGraph

namespace Numeral

variable {cs r raw rest : List Char} {n : Numeral}

/-! ### Runs of characters -/

theorem takeWhile_append_of_ends {p : Char → Bool} (h : startsWith p rest = false) :
    (cs ++ rest).takeWhile p = cs.takeWhile p := by
  induction cs with
  | nil =>
    cases rest with
    | nil => rfl
    | cons c rest => exact List.takeWhile_cons_of_neg (by simpa [startsWith] using h)
  | cons c cs ih =>
    rw [List.cons_append, List.takeWhile_cons, List.takeWhile_cons, ih]

theorem dropWhile_append_of_ends {p : Char → Bool} (h : startsWith p rest = false) :
    (cs ++ rest).dropWhile p = cs.dropWhile p ++ rest := by
  induction cs with
  | nil =>
    cases rest with
    | nil => rfl
    | cons c rest => exact List.dropWhile_cons_of_neg (by simpa [startsWith] using h)
  | cons c cs ih =>
    rw [List.cons_append, List.dropWhile_cons, List.dropWhile_cons, ih]
    split <;> rfl

/-- A run of characters goes no further into what follows. -/
theorem span_append {p : Char → Bool} (h : startsWith p rest = false) :
    (cs ++ rest).span p = ((cs.span p).1, (cs.span p).2 ++ rest) := by
  rw [List.span_eq_takeWhile_dropWhile, List.span_eq_takeWhile_dropWhile, takeWhile_append_of_ends h,
    dropWhile_append_of_ends h]

theorem append_span (p : Char → Bool) (cs : List Char) : (cs.span p).1 ++ (cs.span p).2 = cs := by
  rw [List.span_eq_takeWhile_dropWhile, List.takeWhile_append_dropWhile]

theorem startsWith_mono {p q : Char → Bool} (h : startsWith q rest = false)
    (hpq : ∀ c, p c = true → q c = true) : startsWith p rest = false := by
  cases rest with
  | nil => rfl
  | cons c rest =>
    have hq : q c = false := h
    by_contra hp
    exact Bool.false_ne_true (hq.symm.trans (hpq c (by simpa [startsWith] using hp)))

/-! ### The parts of a numeral are the text -/

theorem append_splitSign (cs : List Char) : (splitSign cs).1 ++ (splitSign cs).2 = cs := by
  unfold splitSign; split <;> rfl

theorem append_hexMark? {mark : List Char} (h : hexMark? cs = some (mark, r)) : mark ++ r = cs := by
  unfold hexMark? at h
  split at h
  · split at h
    · obtain ⟨rfl, rfl⟩ := Prod.mk.inj (Option.some.inj h)
      rfl
    · cases h
  · cases h

theorem append_splitFraction (cs : List Char) :
    (splitFraction cs).1 ++ ((splitFraction cs).2.1 ++ (splitFraction cs).2.2) = cs := by
  unfold splitFraction
  split
  · exact congrArg ('.' :: ·) (append_span _ _)
  · rfl

theorem append_splitExponent? {mark digits : List Char}
    (h : splitExponent? cs = some (mark, digits, rest)) : mark ++ (digits ++ rest) = cs := by
  unfold splitExponent? at h
  split at h
  · rename_i c r
    split at h
    · dsimp only at h
      have hsplit := append_span Char.isDigit (splitSign r).2
      split at h
      · cases h
      · rename_i heq
        rw [heq] at hsplit
        simp only [Option.some.injEq, Prod.mk.injEq] at h
        obtain ⟨rfl, rfl, rfl⟩ := h
        rw [List.cons_append, hsplit, append_splitSign]
    · obtain ⟨rfl, rfl, rfl⟩ : [] = mark ∧ [] = digits ∧ c :: r = rest := by simpa using h
      rfl
  · obtain ⟨rfl, rfl, rfl⟩ : [] = mark ∧ [] = digits ∧ [] = rest := by simpa using h
    rfl

/-- A numeral takes its characters off the front of the text, at least one. -/
theorem split?_spec (h : split? cs = some (n, raw, rest)) : raw ++ rest = cs ∧ raw ≠ [] := by
  have hsign := append_splitSign cs
  unfold split? at h
  dsimp only at h
  split at h
  · rename_i mark r hmark
    have hr := append_hexMark? hmark
    have hspan := append_span isHexDigit r
    split at h
    · cases h
    · rename_i digits rest' hne heq
      rw [heq] at hspan
      split at h
      · cases h
      · simp only [Option.some.injEq, Prod.mk.injEq] at h
        obtain ⟨-, rfl, rfl⟩ := h
        refine ⟨?_, ?_⟩
        · rw [List.append_assoc, hspan, List.append_assoc, hr, hsign]
        · intro hnil
          exact hne (by simpa using (List.append_eq_nil_iff.1 hnil).2)
  -- a decimal: its parts follow one another
  · have hspan := append_span Char.isDigit (splitSign cs).2
    generalize hw : (splitSign cs).2.span Char.isDigit = w at h hspan
    obtain ⟨whole, r⟩ := w
    dsimp only at h hspan
    have hfraction := append_splitFraction r
    generalize splitFraction r = f at h hfraction
    obtain ⟨point, fraction, r'⟩ := f
    dsimp only at h hfraction
    split at h
    · cases h
    · rename_i hne
      split at h
      · cases h
      · rename_i mark exponent rest' hexponent
        have hexp := append_splitExponent? hexponent
        split at h
        · cases h
        · simp only [Option.some.injEq, Prod.mk.injEq] at h
          obtain ⟨-, rfl, rfl⟩ := h
          refine ⟨?_, ?_⟩
          · simp only [List.append_assoc]
            rw [hexp, hfraction, hspan, hsign]
          · intro hnil
            simp_all

/-! ### What follows a numeral -/

/-- A text may follow a word or a number: it does not go on with a character of theirs. -/
def Loose (rest : List Char) : Prop := startsWith (fun c => isWordPart c || c == '.') rest = false

theorem Loose.wordPart (h : Loose rest) : startsWith isWordPart rest = false :=
  startsWith_mono h fun c hc => by simp [hc]

theorem Loose.ne {c d : Char} (h : Loose (c :: rest)) (hd : isWordPart d = true) : c ≠ d := by
  rintro rfl
  exact Bool.false_ne_true (h.wordPart.symm.trans hd)

theorem Loose.digit (h : Loose rest) : startsWith Char.isDigit rest = false :=
  startsWith_mono h fun c hc => by simp [isWordPart, hc]

/-- The letters by their codes. -/
theorem isAlpha_eq (c : Char) :
    c.isAlpha = (decide (c.val ≥ 'A'.val ∧ c.val ≤ 'Z'.val) || (c.val ≥ 'a'.val && c.val ≤ 'z'.val)) := rfl

theorem isWordPart_of_isHexDigit {c : Char} (h : isHexDigit c = true) : isWordPart c = true := by
  simp only [isHexDigit, Bool.or_eq_true, Bool.and_eq_true, decide_eq_true_eq, Char.le_def,
    UInt32.le_iff_toNat_le] at h
  simp only [isWordPart, isWordStart, isAlpha_eq, Bool.or_eq_true,
    Bool.and_eq_true, decide_eq_true_eq, ge_iff_le, UInt32.le_iff_toNat_le]
  rcases h with (h | h) | h
  · exact .inr h
  · exact .inl (.inl (.inl (.inr ⟨h.1, Nat.le_trans h.2 (by decide)⟩)))
  · exact .inl (.inl (.inl (.inl ⟨h.1, Nat.le_trans h.2 (by decide)⟩)))

theorem Loose.hexDigit (h : Loose rest) : startsWith isHexDigit rest = false :=
  startsWith_mono h.wordPart fun _ => isWordPart_of_isHexDigit

theorem splitSign_append (hcs : cs ≠ []) :
    splitSign (cs ++ rest) = ((splitSign cs).1, (splitSign cs).2 ++ rest) := by
  obtain ⟨c, r, rfl⟩ := List.exists_cons_of_ne_nil hcs
  rw [List.cons_append]
  unfold splitSign
  split <;> split <;> simp_all

theorem hexMark?_cons (c x : Char) (r : List Char) :
    hexMark? (c :: x :: r) =
      if c = '0' ∧ (x == 'x' || x == 'X') = true then some (['0', x], r) else none := by
  by_cases hc : c = '0'
  · subst hc
    simp [hexMark?]
  · rw [if_neg fun h => hc h.1]
    unfold hexMark?
    split
    · exact absurd (List.cons.inj ‹_›).1 hc
    · rfl

theorem hexMark?_append (h : Loose rest) :
    hexMark? (cs ++ rest) = (hexMark? cs).map fun m => (m.1, m.2 ++ rest) := by
  match cs, rest with
  | [], [] => rfl
  | [], [c] => simp [hexMark?]
  | [], c :: x :: r =>
    have hc : c ≠ '0' := h.ne (by decide)
    rw [List.nil_append, hexMark?_cons, if_neg fun h => hc h.1]
    rfl
  | [c], [] => simp [hexMark?]
  | [c], x :: r =>
    have hx : (x == 'x' || x == 'X') = false := by
      rw [Bool.or_eq_false_iff, beq_eq_false_iff_ne, beq_eq_false_iff_ne]
      exact ⟨h.ne (by decide), h.ne (by decide)⟩
    rw [List.singleton_append, hexMark?_cons, hx]
    simp [hexMark?]
  | c :: x :: r, rest =>
    rw [List.cons_append, List.cons_append, hexMark?_cons, hexMark?_cons]
    split <;> rfl

theorem splitFraction_of_ne {c : Char} (hc : c ≠ '.') (cs : List Char) :
    splitFraction (c :: cs) = ([], [], c :: cs) := by
  unfold splitFraction
  split
  · exact absurd (List.cons.inj ‹_›).1 hc
  · rfl

theorem splitFraction_append (h : Loose rest) :
    splitFraction (cs ++ rest) =
      ((splitFraction cs).1, (splitFraction cs).2.1, (splitFraction cs).2.2 ++ rest) := by
  cases cs with
  | nil =>
    cases rest with
    | nil => rfl
    | cons c rest =>
      have hc : c ≠ '.' := by
        rintro rfl
        simp [Loose, startsWith] at h
      exact splitFraction_of_ne hc rest
  | cons c cs =>
    by_cases hc : c = '.'
    · subst hc
      simp only [List.cons_append, splitFraction, span_append h.digit]
    · rw [List.cons_append, splitFraction_of_ne hc, splitFraction_of_ne hc]
      rfl

theorem splitExponent?_append {mark digits : List Char}
    (h : splitExponent? cs = some (mark, digits, r)) (hrest : Loose rest) :
    splitExponent? (cs ++ rest) = some (mark, digits, r ++ rest) := by
  have hwhole := append_splitExponent? h
  cases cs with
  | nil =>
    obtain ⟨rfl, hr⟩ := List.append_eq_nil_iff.1 hwhole
    obtain ⟨rfl, rfl⟩ := List.append_eq_nil_iff.1 hr
    cases rest with
    | nil => rfl
    | cons c rest =>
      have he : (c == 'e' || c == 'E') = false := by
        rw [Bool.or_eq_false_iff, beq_eq_false_iff_ne, beq_eq_false_iff_ne]
        exact ⟨hrest.ne (by decide), hrest.ne (by decide)⟩
      simp [splitExponent?, he]
  | cons c cs =>
    rw [List.cons_append]
    unfold splitExponent? at h ⊢
    dsimp only at h ⊢
    split at h
    · rename_i hc
      rw [if_pos hc]
      -- there is a digit after the sign, so the sign is not the last character
      have hcs : cs ≠ [] := by
        rintro rfl
        simp [splitSign] at h
      rw [splitSign_append hcs]
      dsimp only
      rw [span_append hrest.digit]
      generalize (splitSign cs).2.span Char.isDigit = s at h
      obtain ⟨ds, r'⟩ := s
      cases ds with
      | nil => cases h
      | cons d ds =>
        simp only [Option.some.injEq, Prod.mk.injEq] at h
        obtain ⟨rfl, rfl, rfl⟩ := h
        rfl
    · rename_i hc
      rw [if_neg hc]
      simp only [Option.some.injEq, Prod.mk.injEq] at h
      obtain ⟨rfl, rfl, rfl⟩ := h
      rfl

/-- **A numeral is read off the front of a text whatever follows it**, unless the next character could
belong to it. -/
theorem split?_append (h : split? cs = some (n, raw, [])) (hrest : Loose rest) :
    split? (cs ++ rest) = some (n, raw, rest) := by
  have hcs : cs ≠ [] := by
    obtain ⟨hraw, hne⟩ := split?_spec h
    rw [List.append_nil] at hraw
    exact hraw ▸ hne
  unfold split? at h ⊢
  rw [splitSign_append hcs]
  dsimp only at h ⊢
  rw [hexMark?_append hrest]
  cases hmark : hexMark? (splitSign cs).2 with
  | some m =>
    obtain ⟨mark, r⟩ := m
    rw [hmark] at h
    dsimp only [Option.map_some] at h ⊢
    -- what follows is loose, so the digits end where they ended
    rw [span_append hrest.hexDigit]
    generalize r.span isHexDigit = s at h ⊢
    obtain ⟨_ | ⟨d, ds⟩, rest'⟩ := s
    · cases h
    · dsimp only at h ⊢
      split at h
      · cases h
      · simp only [Option.some.injEq, Prod.mk.injEq] at h
        obtain ⟨rfl, rfl, rfl⟩ := h
        rw [List.nil_append, hrest.wordPart]
        rfl
  | none =>
    rw [hmark] at h
    dsimp only [Option.map_none] at h ⊢
    rw [span_append hrest.digit]
    generalize (splitSign cs).2.span Char.isDigit = s at h ⊢
    obtain ⟨whole, r⟩ := s
    dsimp only at h ⊢
    rw [splitFraction_append hrest]
    generalize splitFraction r = f at h ⊢
    obtain ⟨point, fraction, r'⟩ := f
    dsimp only at h ⊢
    split at h
    · cases h
    · rename_i hdigits
      rw [if_neg hdigits]
      cases hexponent : splitExponent? r' with
      | none => rw [hexponent] at h; cases h
      | some e =>
        obtain ⟨mark, exponent, rest'⟩ := e
        rw [hexponent] at h
        rw [splitExponent?_append hexponent hrest]
        dsimp only at h ⊢
        split at h
        · cases h
        · simp only [Option.some.injEq, Prod.mk.injEq] at h
          obtain ⟨rfl, rfl, rfl⟩ := h
          rw [List.nil_append, if_neg (by rw [hrest]; exact Bool.false_ne_true)]

/-- A numeral is an integer or a number. -/
theorem eq_of_token? {t : Token} (h : n.token? = some t) :
    (∃ i, t = .integer i) ∨ ∃ x, t = .number x := by
  cases n with
  | hexadecimal =>
    simp only [token?] at h
    split at h
    · exact .inl ⟨_, (Option.some.inj h).symm⟩
    · cases h
  | decimal =>
    simp only [token?] at h
    repeat' split at h
    all_goals first
      | exact .inl ⟨_, (Option.some.inj h).symm⟩
      | exact .inr ⟨_, (Option.some.inj h).symm⟩

/-! ### Integers -/

/-- The parts of the decimal digits of an integer. -/
def ofInt (i : Int) : Numeral :=
  .decimal (decide (i < 0)) false false ⟨decide (i < 0), Nat.toDigits 10 i.natAbs, [], false, []⟩

theorem span_of_all {p : Char → Bool} (h : ∀ c ∈ cs, p c = true) : cs.span p = (cs, []) := by
  rw [List.span_eq_takeWhile_dropWhile, List.takeWhile_eq_self_iff.2 h, List.dropWhile_eq_nil_iff.2 h]

theorem hexMark?_of_isDigit (h : ∀ c ∈ cs, c.isDigit = true) : hexMark? cs = none := by
  match cs with
  | [] => rfl
  | [c] => simp [hexMark?]
  | c :: x :: r =>
    have hx : x.isDigit = true := h x (by simp)
    rw [hexMark?_cons, if_neg]
    rintro ⟨-, hmark⟩
    rcases (Bool.or_eq_true _ _).mp hmark with hx' | hx' <;>
    · rw [eq_of_beq hx'] at hx
      exact absurd hx (by decide)

theorem splitSign_of_isDigit {c : Char} (h : c.isDigit = true) (r : List Char) :
    splitSign (c :: r) = ([], c :: r) := by
  unfold splitSign
  split
  · rename_i heq
    rw [(List.cons.inj heq).1] at h
    exact absurd h (by decide)
  · rename_i heq
    rw [(List.cons.inj heq).1] at h
    exact absurd h (by decide)
  · rfl

theorem toList_int (i : Int) :
    (toString i).toList = (if i < 0 then ['-'] else []) ++ Nat.toDigits 10 i.natAbs := by
  cases i with
  | ofNat k => exact Nat.toList_repr
  | negSucc k =>
    have h : (toString (Int.negSucc k)).toList = ("-" ++ (k + 1).repr).toList := rfl
    rw [h, String.toList_append, Nat.toList_repr, if_pos (Int.negSucc_lt_zero k)]
    rfl

/-- **The digits of an integer are read as a numeral.** -/
theorem split?_int (i : Int) :
    split? (toString i).toList = some (ofInt i, (toString i).toList, []) := by
  have hdigits : ∀ c ∈ Nat.toDigits 10 i.natAbs, c.isDigit = true := fun c hc =>
    Nat.isDigit_of_mem_toDigits (by decide) (by decide) hc
  obtain ⟨d, ds, hds⟩ := List.exists_cons_of_ne_nil (Nat.toDigits_ne_nil (n := i.natAbs) (b := 10))
  have hsign : splitSign (toString i).toList =
      (if i < 0 then ['-'] else [], Nat.toDigits 10 i.natAbs) := by
    rw [toList_int]
    split
    · rfl
    · rw [List.nil_append, hds]
      exact splitSign_of_isDigit (hdigits d (by rw [hds]; exact List.mem_cons_self)) ds
  unfold split?
  rw [hsign]
  dsimp only
  rw [hexMark?_of_isDigit hdigits, span_of_all hdigits]
  have hne : ((Nat.toDigits 10 i.natAbs).isEmpty && ([] : List Char).isEmpty) = false := by
    rw [hds]; rfl
  simp only [splitFraction, splitExponent?, hne, startsWith, List.append_nil, toList_int,
    Bool.false_eq_true, if_false, ofInt]
  by_cases hi : i < 0 <;> simp [hi]

theorem natOfDigits_toDigits (k : Nat) : Decimal.natOfDigits (Nat.toDigits 10 k) = k := by
  rw [Decimal.natOfDigits, ← Nat.ofDigitChars_eq_foldl, Nat.ofDigitChars_ten_toDigits]

theorem token?_ofInt (i : Int32) : (ofInt i.toInt).token? = some (.integer i) := by
  have hlow := Int32.le_toInt i
  have hhigh := Int32.toInt_lt i
  have hvalue : (if decide (i.toInt < 0) = true then -(i.toInt.natAbs : Int) else i.toInt.natAbs) =
      i.toInt := by
    by_cases hi : i.toInt < 0
    · rw [if_pos (by simpa using hi)]
      omega
    · rw [if_neg (by simpa using hi)]
      omega
  simp only [ofInt, token?, natOfDigits_toDigits, hvalue, Bool.not_false, Bool.true_and]
  rw [if_pos, Int32.ofInt_toInt]
  simp only [Bool.and_eq_true, decide_eq_true_eq]
  omega

end Numeral

/-! ### Numbers -/

/-- The number that a token stands for where a number is expected. -/
def Token.number? : Token → Option Float
  | integer i => some (Float.ofInt i.toInt)
  | number x => some x
  | _ => none

/-- The token that a whole text is, if it is a number. -/
def numeralToken? (s : String) : Option Token :=
  match Numeral.split? s.toList with
  | some (n, _, []) => n.token?
  | _ => none

/-- The number that a whole text is read as. -/
def numberOf? (s : String) : Option Float := (numeralToken? s).bind Token.number?

theorem numeralToken?_int (i : Int32) : numeralToken? (toString i.toInt) = some (.integer i) := by
  unfold numeralToken?
  rw [Numeral.split?_int]
  exact Numeral.token?_ofInt i

/-- A number is read off the front of a text whatever follows it. -/
theorem Numeral.split?_of_numeralToken? {s : String} {t : Token} {rest : List Char}
    (h : numeralToken? s = some t) (hrest : Loose rest) :
    ∃ n, split? (s.toList ++ rest) = some (n, s.toList, rest) ∧ n.token? = some t := by
  unfold numeralToken? at h
  split at h
  · rename_i n raw hsplit
    obtain rfl : raw = s.toList := by simpa using (split?_spec hsplit).1
    exact ⟨n, split?_append hsplit hrest, h⟩
  · cases h

end SceneGraph
