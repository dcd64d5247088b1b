import SceneGraph.Document.Lexeme
import SceneGraph.Document.Spelling
import SceneGraph.Proofs.Document.Numerals

/-!
# The tokens of texts

`tokensOf` is the list of tokens of a text. It is computed piece by piece: blanks have no tokens, and a
bracket, a word, a number or a string is one token whatever follows it, as long as the next character
does not belong to it.

* `valid_lexemes`: the words of any text are identifiers or enabled keywords.
* `tokensOf_word`, `tokensOf_number`, `tokensOf_string`: a word, a number, a quoted string at the front.
-/

namespace SceneGraph

open Numeral (startsWith Loose)

variable {header : Option Header} {cs r raw rest : List Char} {c : Char}

/-! ### One lexeme after the other -/

theorem length_splitBlanks_le (comment : Bool) (cs : List Char) :
    (splitBlanks comment cs).2.length ≤ cs.length := by
  induction cs generalizing comment with
  | nil => cases comment <;> exact Nat.le_refl _
  | cons c r ih =>
    have h := fun b => Nat.le_succ_of_le (ih b)
    cases comment with
    | true => exact h _
    | false =>
      unfold splitBlanks
      split
      · exact h _
      · split
        · exact h _
        · exact Nat.le_refl _

theorem length_rest_splitString? {value : List Char} (h : splitString? cs = some (value, raw, rest)) :
    rest.length ≤ cs.length := by
  fun_induction splitString? cs generalizing value raw rest with
  | case1 => cases h
  | case2 c hc =>
    obtain ⟨-, -, rfl⟩ : [] = value ∧ [c] = raw ∧ [] = rest := by simpa using h
    exact Nat.zero_le _
  | case3 => cases h
  | case4 c d r hc =>
    obtain ⟨-, -, rfl⟩ : [] = value ∧ [c] = raw ∧ d :: r = rest := by simpa using h
    exact Nat.le_succ _
  | case5 c d r _ _ ih =>
    obtain ⟨⟨v, w, s⟩, hs, heq⟩ := Option.map_eq_some_iff.1 h
    obtain ⟨-, -, rfl⟩ : d :: v = value ∧ c :: d :: w = raw ∧ s = rest := by simpa using heq
    exact Nat.le_succ_of_le (Nat.le_succ_of_le (ih hs))
  | case6 c d r _ _ ih =>
    obtain ⟨⟨v, w, s⟩, hs, heq⟩ := Option.map_eq_some_iff.1 h
    obtain ⟨-, -, rfl⟩ : c :: v = value ∧ c :: w = raw ∧ s = rest := by simpa using heq
    exact Nat.le_succ_of_le (ih hs)

theorem length_span_snd_le (p : Char → Bool) (cs : List Char) : (cs.span p).2.length ≤ cs.length := by
  rw [List.span_eq_takeWhile_dropWhile]
  exact (List.dropWhile_sublist p).length_le

/-- A lexeme takes at least one character. -/
theorem Lexed.length_rest_first_le (header : Option Header) (c : Char) (r : List Char) :
    (Lexed.first header c r).rest.length ≤ r.length := by
  have hinvalid : (Lexed.invalid c r).rest.length ≤ r.length := length_span_snd_le _ r
  unfold first
  split; · exact Nat.le_refl _
  split; · exact Nat.le_refl _
  split; · exact Nat.le_refl _
  split; · exact Nat.le_refl _
  split; · exact Nat.le_refl _
  split
  · unfold string
    split
    · exact length_rest_splitString? ‹_›
    · exact Nat.zero_le _
  split
  · unfold number
    split
    · rename_i n raw rest h
      obtain ⟨hraw, hne⟩ := Numeral.split?_spec h
      obtain ⟨d, ds, rfl⟩ := List.exists_cons_of_ne_nil hne
      rw [List.cons_append] at hraw
      rw [← (List.cons.inj hraw).2, List.length_append]
      exact Nat.le_add_left _ _
    · exact hinvalid
  split
  · rename_i hstart
    have hc : isWordPart c = true := by rw [isWordPart, hstart, Bool.true_or]
    unfold word
    rw [List.span_eq_takeWhile_dropWhile, List.dropWhile_cons_of_pos hc]
    exact (List.dropWhile_sublist _).length_le
  · exact hinvalid

namespace Cursor

/-- The tokens depend on the text alone, if there may be enough of them. -/
theorem tokens_congr {c c' : Cursor} {n m : Nat} (h : c.rest = c'.rest) (hn : c.rest.length ≤ n)
    (hm : c.rest.length ≤ m) :
    (lexemesUpTo header n c).1.map (·.token) = (lexemesUpTo header m c').1.map (·.token) := by
  induction n generalizing m c c' with
  | zero =>
    obtain hnil : c.rest = [] := List.length_eq_zero_iff.1 (Nat.le_zero.1 hn)
    have hskip : c'.skipBlanks.rest = [] := by
      have hrest : c'.skipBlanks.rest = (splitBlanks false c'.rest).2 := rfl
      rw [hrest, ← h, hnil]
      rfl
    cases m with
    | zero => rfl
    | succ m =>
      rw [lexemesUpTo, lexemesUpTo]
      dsimp only
      rw [hskip]
  | succ n ih =>
    have hskip : c'.skipBlanks.rest = c.skipBlanks.rest := congrArg (splitBlanks false · |>.2) h.symm
    have hlength : c.skipBlanks.rest.length ≤ c.rest.length := length_splitBlanks_le false c.rest
    cases m with
    | zero =>
      obtain hnil : c.skipBlanks.rest = [] := List.length_eq_zero_iff.1 (by omega)
      rw [lexemesUpTo, lexemesUpTo]
      dsimp only
      rw [hnil]
    | succ m =>
      rw [lexemesUpTo, lexemesUpTo]
      dsimp only
      rw [hskip]
      split
      · rfl
      · rename_i x r hx
        have hx' : c.skipBlanks.rest.length = r.length + 1 := by rw [hx]; rfl
        have hfirst := Lexed.length_rest_first_le header x r
        rw [List.map_cons, List.map_cons]
        refine congrArg (_ :: ·) (ih rfl ?_ ?_)
        · change (Lexed.first header x r).rest.length ≤ n
          omega
        · change (Lexed.first header x r).rest.length ≤ m
          omega

end Cursor

/-- The tokens of a text. -/
def tokensOf (header : Option Header) (cs : List Char) : List Token :=
  ((⟨cs, 0, .start⟩ : Cursor).lexemes header).1.map (·.token)

theorem tokens_lexemes (header : Option Header) (c : Cursor) :
    (c.lexemes header).1.map (·.token) = tokensOf header c.rest :=
  Cursor.tokens_congr rfl (Nat.le_refl _) (Nat.le_refl _)

theorem tokensOf_eq (header : Option Header) (cs : List Char) :
    tokensOf header cs =
      match (splitBlanks false cs).2 with
      | [] => []
      | c :: r => (Lexed.first header c r).token :: tokensOf header (Lexed.first header c r).rest := by
  have hle := length_splitBlanks_le false cs
  -- one more lexeme than there are characters does no harm
  have hone : tokensOf header cs =
      ((Cursor.lexemesUpTo header (cs.length + 1) ⟨cs, 0, .start⟩).1.map (·.token)) :=
    Cursor.tokens_congr rfl (Nat.le_refl _) (Nat.le_succ _)
  have hskip : (⟨cs, 0, .start⟩ : Cursor).skipBlanks.rest = (splitBlanks false cs).2 := rfl
  rw [hone, Cursor.lexemesUpTo]
  dsimp only
  rw [hskip]
  generalize (splitBlanks false cs).2 = blankless at hle
  cases blankless with
  | nil => rfl
  | cons x r =>
    have hfirst := Lexed.length_rest_first_le header x r
    have hlength : (Lexed.first header x r).rest.length ≤ cs.length := by
      rw [List.length_cons] at hle
      omega
    dsimp only
    rw [List.map_cons]
    refine congrArg (_ :: ·) (Cursor.tokens_congr ?_ ?_ (Nat.le_refl _))
    · rfl
    · exact hlength

@[simp] theorem tokensOf_nil (header : Option Header) : tokensOf header [] = [] := rfl

/-- Blanks have no tokens. -/
theorem tokensOf_separator (h : isSeparator c = true) (cs : List Char) :
    tokensOf header (c :: cs) = tokensOf header cs := by
  have hblank : (splitBlanks false (c :: cs)).2 = (splitBlanks false cs).2 := by
    rw [splitBlanks, if_pos h]
  rw [tokensOf_eq, tokensOf_eq header cs, hblank]

/-- A character that is no blank starts a lexeme. -/
theorem tokensOf_first (hblank : isSeparator c = false) (hcomment : c ≠ '#') (r : List Char) :
    tokensOf header (c :: r) =
      (Lexed.first header c r).token :: tokensOf header (Lexed.first header c r).rest := by
  have h : (splitBlanks false (c :: r)).2 = c :: r := by
    rw [splitBlanks, if_neg (by rw [hblank]; exact Bool.false_ne_true),
      if_neg (by simpa using hcomment)]
  rw [tokensOf_eq, h]

/-! ### Words -/

theorem not_of_isWordStart {d : Char} (h : isWordStart c = true) (hd : isWordStart d = false) :
    (c == d) = false := by
  rw [beq_eq_false_iff_ne]
  rintro rfl
  exact Bool.false_ne_true (hd.symm.trans h)

theorem isDigit_of_isWordStart (h : isWordStart c = true) : c.isDigit = false := by
  rw [← Bool.not_eq_true]
  intro hdigit
  simp only [Char.isDigit, Bool.and_eq_true, decide_eq_true_eq, ge_iff_le,
    UInt32.le_iff_toNat_le] at hdigit
  simp only [isWordStart, Numeral.isAlpha_eq, Bool.or_eq_true,
    Bool.and_eq_true, decide_eq_true_eq, ge_iff_le, UInt32.le_iff_toNat_le, beq_iff_eq,
    Char.toNat] at h
  have hnine : ('9' : Char).val.toNat = 57 := rfl
  rcases h with ((h | h) | rfl) | h
  · exact absurd (Nat.le_trans h.1 hdigit.2) (by decide)
  · exact absurd (Nat.le_trans h.1 hdigit.2) (by decide)
  · exact absurd hdigit.2 (by decide)
  · exact absurd (Nat.le_trans h hdigit.2) (by decide)

theorem first_of_isWordStart (h : isWordStart c = true) (r : List Char) :
    Lexed.first header c r = Lexed.word header (c :: r) := by
  unfold Lexed.first
  simp only [not_of_isWordStart h (d := '\x7b') (by decide), not_of_isWordStart h (d := '\x7d') (by decide),
    not_of_isWordStart h (d := '[') (by decide), not_of_isWordStart h (d := ']') (by decide),
    not_of_isWordStart h (d := '.') (by decide), not_of_isWordStart h (d := '"') (by decide),
    not_of_isWordStart h (d := '+') (by decide), not_of_isWordStart h (d := '-') (by decide),
    isDigit_of_isWordStart h, h, Bool.false_and, Bool.or_false, Bool.false_eq_true, if_false, if_true]

/-- What a word means under a header. -/
def wordToken (header : Option Header) (s : String) : Token :=
  (Keyword.ofWord? header s).elim (.identifier s) .keyword

/-- **A word is one token**, unless the next character could belong to it. -/
theorem tokensOf_word {s : String} (hstart : startsWith isWordStart s.toList = true)
    (hparts : ∀ c ∈ s.toList, isWordPart c = true) (hrest : startsWith isWordPart rest = false) :
    tokensOf header (s.toList ++ rest) = wordToken header s :: tokensOf header rest := by
  cases hs : s.toList with
  | nil => rw [hs] at hstart; cases hstart
  | cons c cs =>
    rw [hs] at hstart hparts
    have hstart : isWordStart c = true := hstart
    have hseparator : isSeparator c = false := by
      simp only [isSeparator, not_of_isWordStart hstart (d := ' ') (by decide),
        not_of_isWordStart hstart (d := '\t') (by decide), not_of_isWordStart hstart (d := '\r') (by decide),
        not_of_isWordStart hstart (d := ',') (by decide), not_of_isWordStart hstart (d := '\n') (by decide),
        Bool.or_false]
    have hcomment : c ≠ '#' := by
      rintro rfl
      exact absurd hstart (by decide)
    have hspan : (c :: cs ++ rest).span isWordPart = (c :: cs, rest) := by
      rw [Numeral.span_append hrest, Numeral.span_of_all hparts]
      rfl
    rw [List.cons_append, tokensOf_first hseparator hcomment, first_of_isWordStart hstart, ← List.cons_append]
    have hword : String.ofList (c :: cs) = s := by rw [← hs, String.ofList_toList]
    simp only [Lexed.word, hspan, hword, wordToken]

/-- A word that names something. -/
structure IsIdentifier (header : Option Header) (s : String) : Prop where
  start : startsWith isWordStart s.toList = true
  parts : s.toList.all isWordPart = true
  plain : Keyword.ofWord? header s = none

instance (header : Option Header) (s : String) : Decidable (IsIdentifier header s) :=
  decidable_of_iff
    (startsWith isWordStart s.toList = true ∧ s.toList.all isWordPart = true ∧
      Keyword.ofWord? header s = none)
    ⟨fun ⟨a, b, c⟩ => ⟨a, b, c⟩, fun h => ⟨h.start, h.parts, h.plain⟩⟩

theorem tokensOf_identifier {s : String} (h : IsIdentifier header s)
    (hrest : startsWith isWordPart rest = false) :
    tokensOf header (s.toList ++ rest) = .identifier s :: tokensOf header rest := by
  rw [tokensOf_word h.start (List.all_eq_true.1 h.parts) hrest, wordToken, h.plain]
  rfl

theorem Keyword.mem_all (k : Keyword) : k ∈ all := by
  have hkind : ∀ k : Kind, .kind k ∈ all := fun k =>
    List.mem_append_right _ (List.mem_map_of_mem (Kind.mem_all k))
  cases k with
  | bool b => cases b <;> simp [all]
  | kind k => exact hkind k
  | _ => simp [all]

/-- The keywords are words, and found by their spelling. -/
theorem Keyword.spelling (k : Keyword) :
    startsWith isWordStart k.word.toList = true ∧ (∀ c ∈ k.word.toList, isWordPart c = true) ∧
      ofSpelling? k.word = some k := by
  have h : ∀ k ∈ all, startsWith isWordStart k.word.toList = true ∧
      k.word.toList.all isWordPart = true ∧ ofSpelling? k.word = some k := by
    decide +kernel
  obtain ⟨hstart, hparts, hfind⟩ := h k (mem_all k)
  exact ⟨hstart, List.all_eq_true.1 hparts, hfind⟩

theorem Kind.eq_keyword_of_ofKeyword? {k : Kind} {s : String} (h : ofKeyword? s = some k) : s = k.keyword := by
  have hsuffix : ∀ {cs : List Char} {t : FieldType}, FieldType.ofSuffix? (String.ofList cs) = some t →
      cs = t.suffix.toList := by
    intro cs t ht
    have hfound := List.find?_some ht
    rw [beq_iff_eq.1 hfound, String.toList_ofList]
  have hsingle : Dimension.single.letters.toList = ['S', 'F'] := by decide
  have hmulti : Dimension.multi.letters.toList = ['M', 'F'] := by decide
  apply String.toList_inj.1
  rw [Kind.keyword, String.toList_append]
  unfold ofKeyword? at h
  split at h
  · rename_i suffix hs
    obtain ⟨t, ht, rfl⟩ := Option.map_eq_some_iff.1 h
    rw [hs, hsuffix ht, hsingle]
    rfl
  · rename_i suffix hs
    obtain ⟨t, ht, rfl⟩ := Option.map_eq_some_iff.1 h
    rw [hs, hsuffix ht, hmulti]
    rfl
  · cases h

theorem Keyword.eq_word_of_ofSpelling? {k : Keyword} {s : String} (h : ofSpelling? s = some k) : s = k.word := by
  unfold ofSpelling? at h
  split at h
  case h_10 =>
    obtain ⟨k, hk, rfl⟩ := Option.map_eq_some_iff.1 h
    exact Kind.eq_keyword_of_ofKeyword? hk
  all_goals
    obtain rfl := Option.some.inj h
    rfl

/-- A word is a keyword if and only if it is spelled as the keyword and the header enables it. -/
theorem Keyword.ofWord?_eq_some_iff {k : Keyword} {s : String} :
    ofWord? header s = some k ↔ s = k.word ∧ k.isEnabled header = true := by
  rw [ofWord?, Option.filter_eq_some_iff]
  refine and_congr_left fun _ => ⟨eq_word_of_ofSpelling?, ?_⟩
  rintro rfl
  exact k.spelling.2.2

theorem tokensOf_keyword {k : Keyword} (h : k.isEnabled header = true)
    (hrest : startsWith isWordPart rest = false) :
    tokensOf header (k.word.toList ++ rest) = .keyword k :: tokensOf header rest := by
  obtain ⟨hstart, hparts, hfind⟩ := k.spelling
  rw [tokensOf_word hstart hparts hrest, wordToken, Keyword.ofWord?, hfind, Option.filter_some, if_pos h]
  rfl

/-! ### Signs, numbers, strings -/

/-- **A sign is one token.** -/
theorem tokensOf_symbol (s : Symbol) (h : s = .dot → startsWith Char.isDigit rest = false) :
    tokensOf header (s.char :: rest) = .symbol s :: tokensOf header rest := by
  cases s with
  | dot =>
    rw [tokensOf_first (by decide) (by decide)]
    simp [Lexed.first, Symbol.char, Lexed.sign, h rfl]
  | _ =>
    rw [tokensOf_first (by decide) (by decide)]
    simp [Lexed.first, Symbol.char, Lexed.sign]

/-- A numeral starts with a digit, a sign, or a point with a digit behind it. -/
theorem Numeral.start_of_split? {n : Numeral} (h : split? (c :: r) = some (n, raw, rest)) :
    (c.isDigit || c == '+' || c == '-' || c == '.') = true ∧
      (c == '.' && !startsWith Char.isDigit r) = false := by
  by_cases hdigit : c.isDigit = true
  · refine ⟨by simp [hdigit], ?_⟩
    have hc : (c == '.') = false := by
      rw [beq_eq_false_iff_ne]
      rintro rfl
      exact absurd hdigit (by decide)
    rw [hc, Bool.false_and]
  by_cases hsign : c = '+' ∨ c = '-'
  · rcases hsign with rfl | rfl <;> exact ⟨by decide, rfl⟩
  rw [not_or] at hsign
  -- no sign, and no mark of a hexadecimal without a leading digit
  have hsplit : splitSign (c :: r) = ([], c :: r) := by
    unfold splitSign
    split
    · exact absurd (List.cons.inj ‹_›).1 hsign.1
    · exact absurd (List.cons.inj ‹_›).1 hsign.2
    · rfl
  have hmark : hexMark? (c :: r) = none := by
    cases r with
    | nil => simp [hexMark?]
    | cons x r =>
      rw [hexMark?_cons, if_neg]
      rintro ⟨rfl, -⟩
      exact hdigit (by decide)
  have hwhole : (c :: r).span Char.isDigit = ([], c :: r) := by
    rw [List.span_eq_takeWhile_dropWhile, List.takeWhile_cons_of_neg hdigit,
      List.dropWhile_cons_of_neg hdigit]
  unfold split? at h
  simp only [hsplit, hmark, hwhole] at h
  by_cases hpoint : c = '.'
  · subst hpoint
    refine ⟨rfl, ?_⟩
    cases r with
    | nil => simp [splitFraction, List.span_eq_takeWhile_dropWhile] at h
    | cons d r =>
      by_cases hd : d.isDigit = true
      · simp [startsWith, hd]
      · simp [splitFraction, List.span_eq_takeWhile_dropWhile, hd] at h
  · rw [splitFraction_of_ne hpoint] at h
    simp at h

/-- **A number is one token**, unless the next character could belong to it. -/
theorem tokensOf_number {s : String} {t : Token} (h : numeralToken? s = some t) (hrest : Loose rest) :
    tokensOf header (s.toList ++ rest) = t :: tokensOf header rest := by
  obtain ⟨n, hsplit, ht⟩ := Numeral.split?_of_numeralToken? h hrest
  obtain ⟨-, hne⟩ := Numeral.split?_spec hsplit
  obtain ⟨c, r, hs⟩ := List.exists_cons_of_ne_nil hne
  rw [hs, List.cons_append] at hsplit ⊢
  obtain ⟨hstart, hdot⟩ := Numeral.start_of_split? hsplit
  have hother : ∀ d, (d.isDigit || d == '+' || d == '-' || d == '.') = false → (c == d) = false := by
    intro d hd
    rw [beq_eq_false_iff_ne]
    rintro rfl
    exact Bool.false_ne_true (hd.symm.trans hstart)
  have hseparator : isSeparator c = false := by
    simp only [isSeparator, hother ' ' (by decide), hother '\t' (by decide), hother '\r' (by decide),
      hother ',' (by decide), hother '\n' (by decide), Bool.or_false]
  have hcomment : c ≠ '#' := beq_eq_false_iff_ne.1 (hother '#' (by decide))
  have hfirst : Lexed.first header c (r ++ rest) = Lexed.number c (r ++ rest) := by
    unfold Lexed.first
    simp only [hother '\x7b' (by decide), hother '\x7d' (by decide), hother '[' (by decide),
      hother ']' (by decide), hother '"' (by decide), hdot, hstart, Bool.false_eq_true, if_false, if_true]
  rw [tokensOf_first hseparator hcomment, hfirst]
  simp only [Lexed.number, hsplit, ht, Option.getD_some]

/-- Escaped characters are read back, up to the quote that ends them. -/
theorem splitString?_spell (cs rest : List Char) :
    splitString? (cs.flatMap spellChar ++ '"' :: rest) =
      some (cs, cs.flatMap spellChar ++ ['"'], rest) := by
  induction cs with
  | nil => cases rest <;> rfl
  | cons c cs ih =>
    rw [List.flatMap_cons, List.append_assoc, List.append_assoc]
    by_cases hc : c = '"' ∨ c = '\\'
    · have hspell : spellChar c = ['\\', c] := if_pos hc
      have hmark : (c == '"' || c == '\\') = true := by simpa using hc
      rw [hspell]
      simp only [List.cons_append, List.nil_append, splitString?, hmark, ih]
      rfl
    · have hspell : spellChar c = [c] := if_neg hc
      rw [not_or] at hc
      rw [hspell, List.singleton_append]
      -- there is a next character: at least the quote at the end
      generalize hnext : cs.flatMap spellChar ++ '"' :: rest = next at ih ⊢
      cases next with
      | nil => simp at hnext
      | cons d r =>
        rw [splitString?, if_neg (by simpa using hc.1), if_neg (by simp [hc.2]), ih]
        rfl

/-- **A quoted string is one token.** -/
theorem tokensOf_string (s : String) (rest : List Char) :
    tokensOf header ((spellString s).toList ++ rest) = .string s :: tokensOf header rest := by
  have hlist : (spellString s).toList ++ rest = '"' :: (s.toList.flatMap spellChar ++ '"' :: rest) := by
    rw [spellString, String.toList_ofList]
    simp
  rw [hlist, tokensOf_first (by decide) (by decide)]
  simp only [Lexed.first, Lexed.string, splitString?_spell, String.ofList_toList]
  rfl

/-! ### The words of any text -/

/-- The words among the tokens are identifiers or keywords that the header enables. -/
def Token.Valid (header : Option Header) : Token → Prop
  | identifier name => IsIdentifier header name
  | keyword k => k.isEnabled header = true
  | _ => True

theorem valid_invalid (header : Option Header) (c : Char) (r : List Char) :
    (Lexed.invalid c r).token.Valid header := trivial

theorem valid_number (header : Option Header) (c : Char) (r : List Char) :
    (Lexed.number c r).token.Valid header := by
  unfold Lexed.number
  split
  · rename_i n raw rest _
    dsimp only
    cases ht : n.token? with
    | none => trivial
    | some t => rcases Numeral.eq_of_token? ht with ⟨i, rfl⟩ | ⟨x, rfl⟩ <;> trivial
  · exact valid_invalid header c r

theorem valid_word (h : isWordStart c = true) (r : List Char) :
    (Lexed.word header (c :: r)).token.Valid header := by
  have hc : isWordPart c = true := by rw [isWordPart, h, Bool.true_or]
  have hspan : (c :: r).span isWordPart = (c :: r.takeWhile isWordPart, r.dropWhile isWordPart) := by
    rw [List.span_eq_takeWhile_dropWhile, List.takeWhile_cons_of_pos hc, List.dropWhile_cons_of_pos hc]
  unfold Lexed.word
  rw [hspan]
  dsimp only
  cases hword : Keyword.ofWord? header (String.ofList (c :: r.takeWhile isWordPart)) with
  | none =>
    refine ⟨?_, ?_, hword⟩
    · rw [String.toList_ofList]
      exact h
    · rw [String.toList_ofList, List.all_cons, hc, Bool.true_and, List.all_eq_true]
      exact fun d hd => List.mem_takeWhile_imp hd
  | some k => exact (Option.filter_eq_some_iff.1 hword).2

theorem valid_first (header : Option Header) (c : Char) (r : List Char) :
    (Lexed.first header c r).token.Valid header := by
  unfold Lexed.first
  repeat' split
  all_goals first
    | trivial
    | exact valid_number header c r
    | exact valid_word ‹_› r
    | skip
  unfold Lexed.string
  split <;> trivial

/-- **Whatever the text, its words are identifiers or enabled keywords.** -/
theorem valid_lexemes (header : Option Header) (c : Cursor) :
    ∀ l ∈ (c.lexemes header).1, l.token.Valid header := by
  have h : ∀ n (c : Cursor), ∀ l ∈ (Cursor.lexemesUpTo header n c).1, l.token.Valid header := by
    intro n
    induction n with
    | zero => intro c l hl; cases hl
    | succ n ih =>
      intro c l hl
      rw [Cursor.lexemesUpTo] at hl
      dsimp only at hl
      split at hl
      · cases hl
      · rcases List.mem_cons.1 hl with rfl | hl
        · exact valid_first header _ _
        · exact ih _ l hl
  exact h c.rest.length c

end SceneGraph
