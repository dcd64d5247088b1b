import SceneGraph.Proofs.Document.Scanning

/-!
# The grammar of numerals

How numerals are spelled (`Numeral.Spells`), apart from how they are read, and which texts may follow one
(`Numeral.Ends`). Reading finds the numerals of this grammar and nothing else.

* `Numeral.split?_eq_some_iff`: reading takes a numeral off the front of a text if one stands there.
* `Numeral.length_le_of_spells`: that numeral is as long as it can be.
* `Cursor.scan_numeral`: where a token may be a number, it is one if and only if a numeral of the grammar
  stands there that fits its word.
-/

namespace SceneGraph

namespace Numeral

variable {cs raw rest sign whole fraction digits mark : List Char} {negative point : Bool} {n : Numeral}

/-! ### Spellings -/

/-- A run of decimal digits, one at least. -/
structure IsDigits (cs : List Char) : Prop where
  ne_nil : cs ≠ []
  digit : ∀ c ∈ cs, c.isDigit = true

/-- An optional sign, and whether it is a minus. -/
inductive IsSign : Bool → List Char → Prop
  | absent : IsSign false []
  | plus : IsSign false ['+']
  | minus : IsSign true ['-']

/-- Digits with a point or without one: the digits in front of it, those behind it, whether it is there,
and the spelling. There is one digit at least. -/
inductive IsMantissa : List Char → List Char → Bool → List Char → Prop
  | integral {whole : List Char} (hwhole : IsDigits whole) : IsMantissa whole [] false whole
  | mixed {whole fraction : List Char} (hwhole : IsDigits whole) (hfraction : ∀ c ∈ fraction, c.isDigit = true) :
      IsMantissa whole fraction true (whole ++ '.' :: fraction)
  | fractional {fraction : List Char} (hfraction : IsDigits fraction) :
      IsMantissa [] fraction true ('.' :: fraction)

/-- An optional exponent: whether it is negative, its digits, whether it is there, and the spelling. -/
inductive IsExponent : Bool → List Char → Bool → List Char → Prop
  | absent : IsExponent false [] false []
  | present {e : Char} {negative : Bool} {sign digits : List Char} (he : e = 'e' ∨ e = 'E')
      (hsign : IsSign negative sign) (hdigits : IsDigits digits) :
      IsExponent negative digits true (e :: sign ++ digits)

/-- The spellings of the numerals. -/
inductive Spells : Numeral → List Char → Prop
  | hexadecimal {negative : Bool} {sign digits : List Char} {x : Char} (hsign : IsSign negative sign)
      (hx : x = 'x' ∨ x = 'X') (hne : digits ≠ []) (hdigits : ∀ c ∈ digits, isHexDigit c = true) :
      Spells (.hexadecimal negative digits) (sign ++ '0' :: x :: digits)
  | decimal {negative hasPoint exponentNegative hasExponent : Bool}
      {sign whole fraction mantissa digits exponent : List Char} (hsign : IsSign negative sign)
      (hmantissa : IsMantissa whole fraction hasPoint mantissa)
      (hexponent : IsExponent exponentNegative digits hasExponent exponent) :
      Spells (.decimal negative hasPoint hasExponent ⟨negative, whole, fraction, exponentNegative, digits⟩)
        (sign ++ mantissa ++ exponent)

/-- The texts that may follow a numeral: they do not go on with a letter or a digit and, if the numeral is
decimal, with no point either. -/
def Ends : Numeral → List Char → Prop
  | hexadecimal .., rest => startsWith isWordPart rest = false
  | decimal .., rest => Loose rest

/-! ### What is read is spelled so -/

theorem isSign_splitSign (cs : List Char) : IsSign ((splitSign cs).1 == ['-']) (splitSign cs).1 := by
  unfold splitSign
  split
  · exact .plus
  · exact .minus
  · exact .absent

theorem exists_of_hexMark? {r : List Char} (h : hexMark? cs = some (mark, r)) :
    ∃ x, (x = 'x' ∨ x = 'X') ∧ mark = ['0', x] := by
  unfold hexMark? at h
  split at h
  · rename_i x _
    split at h
    · rename_i hx
      obtain ⟨rfl, -⟩ := Prod.mk.inj (Option.some.inj h)
      exact ⟨x, by simpa using hx, rfl⟩
    · cases h
  · cases h

theorem of_mem_span {p : Char → Bool} {c : Char} (h : c ∈ (cs.span p).1) : p c = true := by
  rw [List.span_eq_takeWhile_dropWhile] at h
  exact List.mem_takeWhile_imp h

theorem startsWith_span (p : Char → Bool) (cs : List Char) : startsWith p (cs.span p).2 = false := by
  rw [List.span_eq_takeWhile_dropWhile]
  cases hrest : cs.dropWhile p with
  | nil => rfl
  | cons c r =>
    have hnot := List.head?_dropWhile_not p cs
    rw [hrest] at hnot
    have hc : p c = false := by simpa using hnot
    exact hc

theorem isMantissa_split (cs : List Char)
    (h : ((cs.span Char.isDigit).1.isEmpty && (splitFraction (cs.span Char.isDigit).2).2.1.isEmpty) = false) :
    IsMantissa (cs.span Char.isDigit).1 (splitFraction (cs.span Char.isDigit).2).2.1
      (!(splitFraction (cs.span Char.isDigit).2).1.isEmpty)
      ((cs.span Char.isDigit).1 ++ (splitFraction (cs.span Char.isDigit).2).1 ++
        (splitFraction (cs.span Char.isDigit).2).2.1) := by
  have hwhole : ∀ c ∈ (cs.span Char.isDigit).1, c.isDigit = true := fun c => of_mem_span
  generalize (cs.span Char.isDigit).1 = whole at h hwhole
  generalize (cs.span Char.isDigit).2 = r at h
  unfold splitFraction at h ⊢
  split at h
  · rename_i r
    have hfraction : ∀ c ∈ (r.span Char.isDigit).1, c.isDigit = true := fun c => of_mem_span
    dsimp only at h ⊢
    generalize (r.span Char.isDigit).1 = fraction at h hfraction
    rw [List.append_assoc, List.singleton_append]
    cases whole with
    | nil => exact .fractional ⟨by rintro rfl; exact Bool.noConfusion h, hfraction⟩
    | cons c cs => exact .mixed ⟨List.cons_ne_nil c cs, hwhole⟩ hfraction
  · dsimp only at h ⊢
    rw [List.append_nil, List.append_nil]
    exact .integral ⟨by rintro rfl; exact Bool.noConfusion h, hwhole⟩

theorem isExponent_of_splitExponent? (h : splitExponent? cs = some (mark, digits, rest)) :
    IsExponent (mark.contains '-') digits (!mark.isEmpty) (mark ++ digits) := by
  unfold splitExponent? at h
  split at h
  · rename_i e r
    split at h
    · rename_i he
      have hsign := isSign_splitSign r
      have hdigits : ∀ c ∈ ((splitSign r).2.span Char.isDigit).1, c.isDigit = true := fun c => of_mem_span
      dsimp only at h
      generalize (splitSign r).1 = sign at h hsign
      generalize (splitSign r).2.span Char.isDigit = s at h hdigits
      obtain ⟨_ | ⟨d, ds⟩, rest'⟩ := s
      · cases h
      · simp only [Option.some.injEq, Prod.mk.injEq] at h
        obtain ⟨rfl, rfl, rfl⟩ := h
        have he : e = 'e' ∨ e = 'E' := by simpa using he
        have hminus : ∀ {negative sign}, IsSign negative sign → (e :: sign).contains '-' = negative := by
          intro negative sign hsign
          rcases he with rfl | rfl <;> cases hsign <;> rfl
        rw [hminus hsign]
        exact .present he hsign ⟨List.cons_ne_nil d ds, hdigits⟩
    · obtain ⟨rfl, rfl, -⟩ : [] = mark ∧ [] = digits ∧ e :: r = rest := by simpa using h
      exact .absent
  · obtain ⟨rfl, rfl, -⟩ : [] = mark ∧ [] = digits ∧ [] = rest := by simpa using h
    exact .absent

theorem spells_of_split? (h : split? cs = some (n, raw, rest)) : Spells n raw ∧ n.Ends rest := by
  have hsign := isSign_splitSign cs
  unfold split? at h
  dsimp only at h
  split at h
  · rename_i mark r hmark
    obtain ⟨x, hx, rfl⟩ := exists_of_hexMark? hmark
    have hdigits : ∀ c ∈ (r.span isHexDigit).1, isHexDigit c = true := fun c => of_mem_span
    generalize r.span isHexDigit = s at h hdigits
    obtain ⟨_ | ⟨d, ds⟩, rest'⟩ := s
    · cases h
    · dsimp only at h
      split at h
      · cases h
      · rename_i hends
        simp only [Option.some.injEq, Prod.mk.injEq] at h
        obtain ⟨rfl, rfl, rfl⟩ := h
        rw [List.append_assoc]
        exact ⟨.hexadecimal hsign hx (List.cons_ne_nil d ds) hdigits, by simpa [Ends] using hends⟩
  · split at h
    · cases h
    · rename_i hdigits
      have hmantissa := isMantissa_split (splitSign cs).2 (by simpa using hdigits)
      split at h
      · cases h
      · rename_i mark exponent rest' hexponent
        have hexponent := isExponent_of_splitExponent? hexponent
        split at h
        · cases h
        · rename_i hends
          simp only [Option.some.injEq, Prod.mk.injEq] at h
          obtain ⟨rfl, rfl, rfl⟩ := h
          refine ⟨?_, by simpa [Ends, Loose] using hends⟩
          have hspells := Spells.decimal hsign hmantissa hexponent
          simp only [List.append_assoc] at hspells ⊢
          exact hspells

/-! ### What is spelled so is read -/

theorem ne_of_isDigit {c d : Char} (h : c.isDigit = true) (hd : d.isDigit = false) : c ≠ d := by
  rintro rfl
  exact Bool.false_ne_true (hd.symm.trans h)

theorem startsWith_append_of_ne {p : Char → Bool} (h : cs ≠ []) (r : List Char) :
    startsWith p (cs ++ r) = startsWith p cs := by
  obtain ⟨c, cs, rfl⟩ := List.exists_cons_of_ne_nil h
  rfl

theorem startsWith_of_forall {p : Char → Bool} (h : ∀ c ∈ cs, p c = false) : startsWith p cs = false := by
  cases cs with
  | nil => rfl
  | cons c cs => exact h c List.mem_cons_self

theorem span_append_of_all {p : Char → Bool} (h : ∀ c ∈ cs, p c = true) (hrest : startsWith p rest = false) :
    (cs ++ rest).span p = (cs, rest) := by
  rw [span_append hrest, span_of_all h]
  rfl

theorem IsSign.splitSign_append (h : IsSign negative sign)
    (hrest : startsWith (fun c => c == '+' || c == '-') rest = false) :
    splitSign (sign ++ rest) = (sign, rest) := by
  cases h with
  | plus => rfl
  | minus => rfl
  | absent =>
    rw [List.nil_append]
    unfold splitSign
    split
    · exact Bool.noConfusion hrest
    · exact Bool.noConfusion hrest
    · rfl

theorem IsSign.beq (h : IsSign negative sign) : (sign == ['-']) = negative := by
  cases h <;> rfl

theorem split?_of_hexadecimal {x : Char} (hsign : IsSign negative sign) (hx : x = 'x' ∨ x = 'X')
    (hne : digits ≠ []) (hdigits : ∀ c ∈ digits, isHexDigit c = true)
    (hrest : startsWith isWordPart rest = false) :
    split? (sign ++ '0' :: x :: digits ++ rest) =
      some (.hexadecimal negative digits, sign ++ '0' :: x :: digits, rest) := by
  have hx : (x == 'x' || x == 'X') = true := by simpa using hx
  have hends : startsWith isHexDigit rest = false := startsWith_mono hrest fun _ => isWordPart_of_isHexDigit
  have hmark : hexMark? ('0' :: x :: (digits ++ rest)) = some (['0', x], digits ++ rest) := by
    rw [hexMark?_cons, if_pos ⟨rfl, hx⟩]
  obtain ⟨d, ds, rfl⟩ := List.exists_cons_of_ne_nil hne
  unfold split?
  rw [List.append_assoc, List.cons_append, List.cons_append, hsign.splitSign_append rfl]
  dsimp only
  rw [hmark]
  dsimp only
  rw [span_append_of_all hdigits hends]
  dsimp only
  rw [hrest, if_neg Bool.false_ne_true, hsign.beq, List.append_assoc]
  rfl

/-- The characters of a decimal numeral behind its sign. -/
theorem IsMantissa.mem {mantissa : List Char} (h : IsMantissa whole fraction point mantissa) :
    ∀ c ∈ mantissa, c.isDigit = true ∨ c = '.' := by
  intro c hc
  cases h with
  | integral hwhole => exact .inl (hwhole.digit c hc)
  | mixed hwhole hfraction =>
    rcases List.mem_append.1 hc with hc | hc
    · exact .inl (hwhole.digit c hc)
    · exact (List.mem_cons.1 hc).symm.imp_left (hfraction c)
  | fractional hfraction => exact (List.mem_cons.1 hc).symm.imp_left (hfraction.digit c)

/-- The characters of an exponent. -/
theorem IsExponent.mem {exponentNegative hasExponent : Bool} {exponent : List Char}
    (h : IsExponent exponentNegative digits hasExponent exponent) :
    ∀ c ∈ exponent, c.isDigit = true ∨ c = 'e' ∨ c = 'E' ∨ c = '+' ∨ c = '-' := by
  intro c hc
  cases h with
  | absent => cases hc
  | present he hsign hdigits =>
    rcases List.mem_append.1 hc with hc | hc
    · rcases List.mem_cons.1 hc with rfl | hc
      · exact .inr (he.imp_right .inl)
      · cases hsign with
        | absent => cases hc
        | plus => exact .inr (.inr (.inr (.inl (List.mem_singleton.1 hc))))
        | minus => exact .inr (.inr (.inr (.inr (List.mem_singleton.1 hc))))
    · exact .inl (hdigits.digit c hc)

theorem IsMantissa.ne_nil {mantissa : List Char} (h : IsMantissa whole fraction point mantissa) :
    mantissa ≠ [] := by
  cases h with
  | integral hwhole => exact hwhole.ne_nil
  | mixed => exact List.append_ne_nil_of_right_ne_nil _ (List.cons_ne_nil _ _)
  | fractional => exact List.cons_ne_nil _ _

theorem hexMark?_of_ne_mark (h : ∀ c ∈ cs, c ≠ 'x' ∧ c ≠ 'X') : hexMark? cs = none := by
  match cs with
  | [] => rfl
  | [c] => simp [hexMark?]
  | c :: x :: r =>
    have hx := h x (by simp)
    rw [hexMark?_cons, if_neg]
    rintro ⟨-, hmark⟩
    simp [hx] at hmark

/-- The parts of a mantissa are found in front of a text that does not go on with it. -/
theorem IsMantissa.exists_split {mantissa : List Char} (h : IsMantissa whole fraction point mantissa)
    (hrest : startsWith (fun c => c.isDigit || c == '.') rest = false) :
    ∃ mark r, (mantissa ++ rest).span Char.isDigit = (whole, r) ∧ splitFraction r = (mark, fraction, rest) ∧
      whole ++ mark ++ fraction = mantissa ∧ (!mark.isEmpty) = point ∧
      (whole.isEmpty && fraction.isEmpty) = false := by
  have hdigit : startsWith Char.isDigit rest = false := startsWith_mono hrest fun c hc => by simp [hc]
  have hne : ∀ {cs : List Char}, IsDigits cs → cs.isEmpty = false := fun hcs => by
    simpa using hcs.ne_nil
  cases h with
  | integral hwhole =>
    refine ⟨[], rest, span_append_of_all hwhole.digit hdigit, ?_, by simp, rfl, by simp [hne hwhole]⟩
    cases rest with
    | nil => rfl
    | cons c r =>
      refine splitFraction_of_ne ?_ r
      rintro rfl
      exact Bool.noConfusion hrest
  | mixed hwhole hfraction =>
    refine ⟨['.'], '.' :: (fraction ++ rest), ?_, ?_, by simp, rfl, by simp [hne hwhole]⟩
    · rw [List.append_assoc, List.cons_append]
      exact span_append_of_all hwhole.digit rfl
    · rw [splitFraction, span_append_of_all hfraction hdigit]
  | fractional hfraction =>
    refine ⟨['.'], '.' :: (fraction ++ rest), ?_, ?_, by simp, rfl, by simp [hne hfraction]⟩
    · exact span_append_of_all (List.forall_mem_nil _) rfl
    · rw [splitFraction, span_append_of_all hfraction.digit hdigit]

/-- The parts of an exponent are found in it. -/
theorem IsExponent.exists_split {exponentNegative hasExponent : Bool} {exponent : List Char}
    (h : IsExponent exponentNegative digits hasExponent exponent) :
    ∃ mark, splitExponent? exponent = some (mark, digits, []) ∧ mark ++ digits = exponent ∧
      mark.contains '-' = exponentNegative ∧ (!mark.isEmpty) = hasExponent := by
  cases h with
  | absent => exact ⟨[], rfl, rfl, rfl, rfl⟩
  | @present e negative sign digits he hsign hdigits =>
    obtain ⟨d, ds, rfl⟩ := List.exists_cons_of_ne_nil hdigits.ne_nil
    have hd : d.isDigit = true := hdigits.digit d List.mem_cons_self
    have hletter : (e == 'e' || e == 'E') = true := by simpa using he
    have hnosign : startsWith (fun c => c == '+' || c == '-') (d :: ds) = false := by
      simp [startsWith, ne_of_isDigit hd]
    refine ⟨e :: sign, ?_, rfl, ?_, rfl⟩
    · rw [List.cons_append, splitExponent?, if_pos hletter, hsign.splitSign_append hnosign]
      dsimp only
      rw [span_of_all hdigits.digit]
    · rcases he with rfl | rfl <;> cases hsign <;> rfl

theorem split?_of_decimal {hasPoint exponentNegative hasExponent : Bool} {mantissa exponent : List Char}
    (hsign : IsSign negative sign) (hmantissa : IsMantissa whole fraction hasPoint mantissa)
    (hexponent : IsExponent exponentNegative digits hasExponent exponent) :
    split? (sign ++ mantissa ++ exponent) =
      some (.decimal negative hasPoint hasExponent ⟨negative, whole, fraction, exponentNegative, digits⟩,
        sign ++ mantissa ++ exponent, []) := by
  -- the exponent goes on with its letter, the mantissa with a digit or a point
  have hletter : startsWith (fun c => c.isDigit || c == '.') exponent = false := by
    cases hexponent with
    | absent => rfl
    | present he => rcases he with rfl | rfl <;> rfl
  have hnosign : startsWith (fun c => c == '+' || c == '-') (mantissa ++ exponent) = false := by
    rw [startsWith_append_of_ne hmantissa.ne_nil]
    refine startsWith_of_forall fun c hc => ?_
    rcases hmantissa.mem c hc with hd | rfl
    · simp [ne_of_isDigit hd]
    · rfl
  have hmark : hexMark? (mantissa ++ exponent) = none := by
    refine hexMark?_of_ne_mark fun c hc => ?_
    rcases List.mem_append.1 hc with hc | hc
    · rcases hmantissa.mem c hc with hd | rfl
      · exact ⟨ne_of_isDigit hd (by decide), ne_of_isDigit hd (by decide)⟩
      · decide
    · rcases hexponent.mem c hc with hd | rfl | rfl | rfl | rfl
      · exact ⟨ne_of_isDigit hd (by decide), ne_of_isDigit hd (by decide)⟩
      all_goals decide
  obtain ⟨point, r, hspan, hfraction, hwhole, hpoint, hne⟩ := hmantissa.exists_split hletter
  obtain ⟨mark, hsplit, hmarkdigits, hminus, hhas⟩ := hexponent.exists_split
  unfold split?
  rw [List.append_assoc, hsign.splitSign_append hnosign]
  dsimp only
  rw [hmark]
  dsimp only
  rw [hspan]
  dsimp only
  rw [hfraction]
  dsimp only
  rw [if_neg (by rw [hne]; exact Bool.false_ne_true), hsplit]
  dsimp only
  rw [startsWith, if_neg Bool.false_ne_true, hsign.beq, hpoint, hminus, hhas]
  simp only [← hwhole, ← hmarkdigits, List.append_assoc]

/-- **Reading finds the numerals of the grammar.** -/
theorem split?_eq_some_iff :
    split? cs = some (n, raw, rest) ↔ raw ++ rest = cs ∧ Spells n raw ∧ n.Ends rest := by
  refine ⟨fun h => ⟨(split?_spec h).1, spells_of_split? h⟩, ?_⟩
  rintro ⟨rfl, hspells, hends⟩
  cases hspells with
  | hexadecimal hsign hx hne hdigits => exact split?_of_hexadecimal hsign hx hne hdigits hends
  | decimal hsign hmantissa hexponent =>
    exact split?_append (split?_of_decimal hsign hmantissa hexponent) hends

theorem Ends.of_append {r : List Char} (h : n.Ends (cs ++ r)) : n.Ends cs := by
  cases cs with
  | nil => cases n <;> rfl
  | cons c cs => cases n <;> exact h

/-- **The numeral that is read is as long as it can be.** -/
theorem length_le_of_spells (h : split? cs = some (n, raw, rest)) {m : Numeral} {longer : List Char}
    (hspells : Spells m longer) (hstands : longer <+: cs) : longer.length ≤ raw.length := by
  obtain ⟨rfl, hraw, hends⟩ := split?_eq_some_iff.1 h
  by_contra hlength
  obtain ⟨more, rfl⟩ : raw <+: longer :=
    List.prefix_of_prefix_length_le (List.prefix_append raw rest) hstands (by omega)
  obtain ⟨r, rfl⟩ := (List.prefix_append_right_inj raw).1 hstands
  -- the longer one would be read in two ways
  have hshort : split? (raw ++ more) = some (n, raw, more) :=
    split?_eq_some_iff.2 ⟨rfl, hraw, hends.of_append⟩
  have hlong : split? (raw ++ more) = some (m, raw ++ more, []) :=
    split?_eq_some_iff.2 ⟨List.append_nil _, hspells, by cases m <;> rfl⟩
  rw [hshort] at hlong
  have hmore : more = [] := congrArg (·.2.2) (Option.some.inj hlong)
  subst hmore
  simp at hlength

/-! ### What numerals stand for -/

/-- A hexadecimal numeral fits a word of 32 bits. A decimal one always has a number. -/
def Fits : Numeral → Prop
  | hexadecimal _ digits => natOfHex digits < 0x100000000
  | decimal .. => True

instance (n : Numeral) : Decidable n.Fits :=
  match n with
  | hexadecimal _ digits => inferInstanceAs (Decidable (natOfHex digits < 0x100000000))
  | decimal .. => .isTrue trivial

/-- An integer by its sign and its magnitude. -/
def signed (negative : Bool) (k : Nat) : Int := if negative then -k else k

/-- The token that a numeral stands for: the word of a hexadecimal one, negated in 32 bits if there is a
minus in front; the integer that a decimal one without point and exponent is, if it fits 32 bits; and in
all other cases the number nearest to its value. -/
inductive Denotes : Numeral → Token → Prop
  | word {negative : Bool} {digits : List Char} {i : Int32}
      (h : i.toInt = (signed negative (natOfHex digits)).bmod 0x100000000) :
      Denotes (.hexadecimal negative digits) (.integer i)
  | integer {negative : Bool} {parts : Decimal.DecimalText} {i : Int32}
      (h : i.toInt = signed negative (Decimal.natOfDigits parts.whole)) :
      Denotes (.decimal negative false false parts) (.integer i)
  | number {negative hasPoint hasExponent : Bool} {parts : Decimal.DecimalText}
      (h : hasPoint = false → hasExponent = false →
        ¬ (-0x80000000 ≤ signed negative (Decimal.natOfDigits parts.whole) ∧
          signed negative (Decimal.natOfDigits parts.whole) < 0x80000000)) :
      Denotes (.decimal negative hasPoint hasExponent parts) (.number parts.value)

theorem token?_of_not_fits (h : ¬ n.Fits) : n.token? = none := by
  cases n with
  | hexadecimal negative digits => exact if_neg h
  | decimal => exact absurd trivial h

theorem exists_token?_of_fits (h : n.Fits) : ∃ t, n.token? = some t ∧ n.Denotes t := by
  cases n with
  | hexadecimal negative digits =>
    refine ⟨_, if_pos h, .word ?_⟩
    have hword : (Int32.ofNat (natOfHex digits)).toInt = (natOfHex digits : Int).bmod 0x100000000 :=
      Int32.toInt_ofNat'
    cases negative with
    | false => exact hword
    | true =>
      rw [if_pos rfl, Int32.toInt_neg, hword, Int.bmod_neg_bmod]
      rfl
  | decimal negative hasPoint hasExponent parts =>
    have htoken : (decimal negative hasPoint hasExponent parts).token? =
        if !hasPoint && !hasExponent && -0x80000000 ≤ signed negative (Decimal.natOfDigits parts.whole) &&
            signed negative (Decimal.natOfDigits parts.whole) < 0x80000000 then
          some (.integer (Int32.ofInt (signed negative (Decimal.natOfDigits parts.whole))))
        else some (.number parts.value) := rfl
    rw [htoken]
    split
    · rename_i hfits
      simp only [Bool.and_eq_true, Bool.not_eq_true', decide_eq_true_eq] at hfits
      obtain ⟨⟨⟨rfl, rfl⟩, hlow⟩, hhigh⟩ := hfits
      exact ⟨_, rfl, .integer (Int32.toInt_ofInt_of_le hlow hhigh)⟩
    · rename_i hfits
      refine ⟨_, rfl, .number fun hpoint hexponent hrange => hfits ?_⟩
      rw [hpoint, hexponent]
      simpa using hrange

theorem Denotes.integer_or_number {t : Token} (h : n.Denotes t) : (∃ i, t = .integer i) ∨ ∃ x, t = .number x := by
  cases h with
  | word => exact .inl ⟨_, rfl⟩
  | integer => exact .inl ⟨_, rfl⟩
  | number => exact .inr ⟨_, rfl⟩

/-! ### Numerals at the front of a text -/

/-- A text begins as a numeral does: with a digit, a sign, or a point and a digit. -/
def startsNumeral : List Char → Bool
  | [] => false
  | c :: r => c.isDigit || c == '+' || c == '-' || (c == '.' && startsWith Char.isDigit r)

/-- A numeral stands at the front of a text. -/
structure IsFront (n : Numeral) (raw rest cs : List Char) : Prop where
  append : raw ++ rest = cs
  spells : Spells n raw
  ends : n.Ends rest

theorem IsFront.splits (h : n.IsFront raw rest cs) : split? cs = some (n, raw, rest) :=
  split?_eq_some_iff.2 ⟨h.append, h.spells, h.ends⟩

theorem isFront_of_split? (h : split? cs = some (n, raw, rest)) : n.IsFront raw rest cs :=
  let ⟨happend, hspells, hends⟩ := split?_eq_some_iff.1 h
  ⟨happend, hspells, hends⟩

end Numeral

open Numeral (startsNumeral startsWith IsFront)

namespace Lexed

variable {header : Option Header} {c : Char} {r : List Char}

theorem first_of_startsNumeral (h : startsNumeral (c :: r) = true) : first header c r = number c r := by
  have hdot : (c == '.' && !startsWith Char.isDigit r) = false := by
    by_cases hc : c = '.'
    · subst hc
      have hdigit : startsWith Char.isDigit r = true := h
      rw [hdigit]
      rfl
    · rw [beq_eq_false_iff_ne.2 hc, Bool.false_and]
  have hstart : (c.isDigit || c == '+' || c == '-' || c == '.') = true := by
    simp only [startsNumeral, Bool.or_eq_true, Bool.and_eq_true] at h ⊢
    exact h.imp_right And.left
  have hother : ∀ d, (d.isDigit || d == '+' || d == '-' || d == '.') = false → (c == d) = false := by
    intro d hd
    rw [beq_eq_false_iff_ne]
    rintro rfl
    exact Bool.false_ne_true (hd.symm.trans hstart)
  unfold first
  simp only [hother '\x7b' (by decide), hother '\x7d' (by decide), hother '[' (by decide),
    hother ']' (by decide), hother '"' (by decide), hdot, hstart, Bool.false_eq_true, if_false, if_true]

/-- A sign is a token of its own, a point unless a digit follows. -/
theorem first_sign (s : Symbol) (h : s = .dot → startsWith Char.isDigit r = false) :
    first header s.char r = sign s r := by
  cases s with
  | dot => simp [first, Symbol.char, h rfl]
  | _ => rfl

/-- What the first characters of a token tell. -/
theorem start_cases (c : Char) (r : List Char) :
    (∃ s : Symbol, c = s.char ∧ (s = .dot → startsWith Char.isDigit r = false)) ∨ c = '"' ∨
      startsNumeral (c :: r) = true ∨ isWordStart c = true ∨ ∀ header r', first header c r' = invalid c r' := by
  by_cases hnumeral : startsNumeral (c :: r) = true
  · exact .inr (.inr (.inl hnumeral))
  by_cases hword : isWordStart c = true
  · exact .inr (.inr (.inr (.inl hword)))
  by_cases hquote : c = '"'
  · exact .inr (.inl hquote)
  by_cases hsign : ∃ s : Symbol, c = s.char
  · obtain ⟨s, rfl⟩ := hsign
    refine .inl ⟨s, rfl, ?_⟩
    rintro rfl
    simpa [startsNumeral, Symbol.char] using hnumeral
  · refine .inr (.inr (.inr (.inr fun header r' => ?_)))
    have hother : ∀ s : Symbol, (c == s.char) = false := fun s => beq_eq_false_iff_ne.2 fun hc => hsign ⟨s, hc⟩
    have hnodeBegin : (c == '\x7b') = false := hother .nodeBegin
    have hnodeEnd : (c == '\x7d') = false := hother .nodeEnd
    have hlistBegin : (c == '[') = false := hother .listBegin
    have hlistEnd : (c == ']') = false := hother .listEnd
    have hdot : (c == '.') = false := hother .dot
    simp only [startsNumeral, Bool.or_eq_true, not_or, Bool.not_eq_true] at hnumeral
    unfold first
    simp only [hnodeBegin, hnodeEnd, hlistBegin, hlistEnd, hdot, beq_eq_false_iff_ne.2 hquote, hnumeral, hword,
      Bool.false_and, Bool.or_false, Bool.false_eq_true, if_false]

end Lexed

namespace Cursor

variable {header : Option Header} {c : Cursor} {cs : List Char}

/-- Where a token begins as a numeral does, a number is looked for. -/
theorem scan_of_startsNumeral {x : Char} {r : List Char} (h : c.skipBlanks.rest = x :: r)
    (hstart : startsNumeral (x :: r) = true) :
    c.scan header = ((some (Lexed.number x r).token, c.skipBlanks.position),
      c.skipBlanks.after (Lexed.number x r).raw (Lexed.number x r).rest) := by
  rw [scan_of_cons h, Lexed.first_of_startsNumeral hstart]

/-- A numeral that fits its word is scanned as what it stands for. -/
theorem scan_of_isFront (header : Option Header) {n : Numeral} {raw rest : List Char} (h : c.skipBlanks.rest = cs)
    (hstart : startsNumeral cs = true) (hfront : n.IsFront raw rest cs) (hfits : n.Fits) :
    (∃ t, (c.scan header).1.1 = some t ∧ n.Denotes t) ∧ (c.scan header).2 = c.skipBlanks.after raw rest := by
  obtain ⟨x, r, rfl⟩ := List.exists_cons_of_ne_nil (l := cs) (by rintro rfl; exact Bool.noConfusion hstart)
  obtain ⟨t, htoken, hdenotes⟩ := Numeral.exists_token?_of_fits hfits
  have hnumber : Lexed.number x r = ⟨t, raw, rest⟩ := by
    rw [Lexed.number, hfront.splits]
    dsimp only
    rw [htoken]
    rfl
  rw [scan_of_startsNumeral h hstart, hnumber]
  exact ⟨⟨t, rfl, hdenotes⟩, rfl⟩

/-- Without such a numeral the token is an invalid one. -/
theorem scan_of_not_isFront (header : Option Header) (h : c.skipBlanks.rest = cs) (hstart : startsNumeral cs = true)
    (hnone : ¬ ∃ (n : Numeral) (raw rest : List Char), n.IsFront raw rest cs ∧ n.Fits) :
    ∃ s, (c.scan header).1.1 = some (.invalid s) := by
  obtain ⟨x, r, rfl⟩ := List.exists_cons_of_ne_nil (l := cs) (by rintro rfl; exact Bool.noConfusion hstart)
  rw [scan_of_startsNumeral h hstart, Lexed.number]
  cases hsplit : Numeral.split? (x :: r) with
  | none => exact ⟨_, rfl⟩
  | some found =>
    obtain ⟨n, raw, rest⟩ := found
    have hfits : ¬ n.Fits := fun hfits => hnone ⟨n, raw, rest, Numeral.isFront_of_split? hsplit, hfits⟩
    dsimp only
    rw [Numeral.token?_of_not_fits hfits]
    exact ⟨_, rfl⟩

/-- **Numbers are the numerals of the grammar.** Where a token begins as a numeral does, it is an integer or a
number if and only if a numeral of the grammar stands there, without a letter, a digit or a point behind it,
that fits its word. Then the token is what the numeral stands for, and exactly the numeral is taken, the
longest one that stands there. Everything else is an invalid token. -/
theorem scan_numeral (header : Option Header) (h : c.skipBlanks.rest = cs) (hstart : startsNumeral cs = true) :
    ((∃ i, (c.scan header).1.1 = some (.integer i)) ∨ (∃ x, (c.scan header).1.1 = some (.number x)) ↔
      ∃ (n : Numeral) (raw rest : List Char), n.IsFront raw rest cs ∧ n.Fits) ∧
    (∀ (n : Numeral) (raw rest : List Char), n.IsFront raw rest cs → n.Fits →
      (∃ t, (c.scan header).1.1 = some t ∧ n.Denotes t) ∧
      (c.scan header).2 = c.skipBlanks.after raw rest ∧
      ∀ (m : Numeral) (longer : List Char), Numeral.Spells m longer → longer <+: cs → longer.length ≤ raw.length) ∧
    ((¬ ∃ (n : Numeral) (raw rest : List Char), n.IsFront raw rest cs ∧ n.Fits) →
      ∃ s, (c.scan header).1.1 = some (.invalid s)) := by
  refine ⟨⟨fun hnumber => ?_, ?_⟩, fun n raw rest hfront hfits => ?_, scan_of_not_isFront header h hstart⟩
  · by_contra hnone
    obtain ⟨s, hs⟩ := scan_of_not_isFront header h hstart hnone
    rcases hnumber with ⟨i, hi⟩ | ⟨x, hx⟩
    · rw [hs] at hi
      cases hi
    · rw [hs] at hx
      cases hx
  · rintro ⟨n, raw, rest, hfront, hfits⟩
    obtain ⟨⟨t, ht, hdenotes⟩, -⟩ := scan_of_isFront header h hstart hfront hfits
    rw [ht]
    rcases hdenotes.integer_or_number with ⟨i, rfl⟩ | ⟨x, rfl⟩
    · exact .inl ⟨i, rfl⟩
    · exact .inr ⟨x, rfl⟩
  · obtain ⟨htoken, hplace⟩ := scan_of_isFront header h hstart hfront hfits
    exact ⟨htoken, hplace, fun m longer => Numeral.length_le_of_spells hfront.splits⟩

/-- The negation of a word wraps around, and the bracket behind a numeral is no part of it. -/
theorem scan_numeral_negative :
    startsNumeral "-0X80000001]".toList = true ∧
      (∃ i : Int32, ((⟨", -0X80000001]".toList, 0, .start⟩ : Cursor).scan none).1.1 = some (.integer i) ∧
        i.toInt = 2147483647) ∧
      ((⟨", -0X80000001]".toList, 0, .start⟩ : Cursor).scan none).2.rest = [']'] := by
  have hfront : (Numeral.hexadecimal true "80000001".toList).IsFront "-0X80000001".toList [']']
      "-0X80000001]".toList := ⟨rfl, .hexadecimal .minus (.inr rfl) (by decide) (List.all_eq_true.1 (by decide)), rfl⟩
  obtain ⟨⟨t, ht, hdenotes⟩, hplace, -⟩ :=
    (scan_numeral (c := ⟨", -0X80000001]".toList, 0, .start⟩) none rfl (by decide)).2.1 _ _ _ hfront (by decide)
  refine ⟨by decide, ?_, by rw [hplace]; rfl⟩
  cases hdenotes with
  | word hi => exact ⟨_, ht, by rw [hi]; decide⟩

end Cursor

end SceneGraph
