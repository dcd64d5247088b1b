import Mathlib.Logic.Relation
import SceneGraph.Proofs.Document.Regions

/-!
# The layout of a text

Blanks and comments between tokens can be changed at will: what follows a token matters for it by its first
character only, and a blank or a comment never belongs to a token (`Lexed.first_congr`). So a text has the
tokens of its pieces in front of a blank and behind it (`tokensOf_append`), and the tokens stay the same
however the text is laid out (`tokens_relaid`).
-/

namespace SceneGraph

open Numeral (startsWith startsNumeral)

/-- The characters that blanks and comments begin with. -/
def isBreak (c : Char) : Bool := isSeparator c || c == '#'

variable {header : Option Header} {before run after cs r r' t rest rest' raw : List Char} {c x : Char}

/-! ### What follows a token -/

/-- A text may stand in the place of another behind a token: it is empty or begins with a blank or a comment,
or it begins with the same character. -/
inductive StandsFor : List Char → List Char → Prop
  | nil {rest : List Char} : StandsFor rest []
  | blank {rest r : List Char} {c : Char} (h : isBreak c = true) : StandsFor rest (c :: r)
  | same {r r' : List Char} {c : Char} : StandsFor (c :: r) (c :: r')

theorem StandsFor.startsWith (h : StandsFor rest rest') {p : Char → Bool} (hp : ∀ c, isBreak c = true → p c = false)
    (hrest : startsWith p rest = false) : startsWith p rest' = false := by
  cases h with
  | nil => rfl
  | blank hc => exact hp _ hc
  | same => exact hrest

theorem StandsFor.of_break (h : Numeral.startsWith (!isBreak ·) rest' = false) : StandsFor rest rest' := by
  cases rest' with
  | nil => exact .nil
  | cons c r => exact .blank (by simpa [Numeral.startsWith] using h)

/-- Behind some text there may be a blank or a comment instead of anything else. -/
theorem StandsFor.append (h : Numeral.startsWith (!isBreak ·) rest' = false) (front : List Char) :
    StandsFor (front ++ rest) (front ++ rest') := by
  cases front with
  | nil => exact .of_break h
  | cons c r => exact .same

theorem isBreak_cases (h : isBreak c = true) :
    c = ' ' ∨ c = '\t' ∨ c = '\r' ∨ c = ',' ∨ c = '\n' ∨ c = '#' := by
  simpa [isBreak, isSeparator, or_assoc] using h

theorem endsInvalid_of_isBreak (h : isBreak c = true) : endsInvalid c = true := by
  rcases isBreak_cases h with rfl | rfl | rfl | rfl | rfl | rfl <;> rfl

theorem isWordPart_of_isBreak (h : isBreak c = true) : isWordPart c = false := by
  by_contra hpart
  have hends := endsInvalid_of_isWordPart (eq_true_of_ne_false hpart)
  exact Bool.false_ne_true (hends.symm.trans (endsInvalid_of_isBreak h))

theorem StandsFor.ends {n : Numeral} (h : StandsFor rest rest') (hends : n.Ends rest) : n.Ends rest' := by
  cases n with
  | hexadecimal => exact h.startsWith (fun _ => isWordPart_of_isBreak) hends
  | decimal =>
    refine h.startsWith (fun c hc => ?_) hends
    rcases isBreak_cases hc with rfl | rfl | rfl | rfl | rfl | rfl <;> decide

/-- An invalid token still ends. -/
theorem StandsFor.stops (h : StandsFor rest rest') (hrest : Numeral.startsWith (!endsInvalid ·) rest = false) :
    Numeral.startsWith (!endsInvalid ·) rest' = false :=
  h.startsWith (fun _ hc => by rw [endsInvalid_of_isBreak hc]; rfl) hrest

theorem splitString?_congr {value : List Char} (h : splitString? cs = some (value, raw, rest)) (rest' : List Char) :
    splitString? (raw ++ rest') = some (value, raw, rest') := by
  fun_induction splitString? cs generalizing value raw rest with
  | case1 => cases h
  | case2 c hc =>
    obtain ⟨rfl, rfl, -⟩ : [] = value ∧ [c] = raw ∧ [] = rest := by simpa using h
    cases rest' <;> simp [splitString?, hc]
  | case3 => cases h
  | case4 c d r hc =>
    obtain ⟨rfl, rfl, -⟩ : [] = value ∧ [c] = raw ∧ d :: r = rest := by simpa using h
    cases rest' <;> simp [splitString?, hc]
  | case5 c d r hc hescape ih =>
    obtain ⟨⟨v, w, t⟩, hs, heq⟩ := Option.map_eq_some_iff.1 h
    obtain ⟨rfl, rfl, -⟩ : d :: v = value ∧ c :: d :: w = raw ∧ t = rest := by simpa using heq
    rw [List.cons_append, List.cons_append, splitString?, if_neg hc, if_pos hescape, ih hs]
    rfl
  | case6 c d r hc hescape ih =>
    obtain ⟨⟨v, w, t⟩, hs, heq⟩ := Option.map_eq_some_iff.1 h
    obtain ⟨rfl, rfl, -⟩ : c :: v = value ∧ c :: w = raw ∧ t = rest := by simpa using heq
    have hread := ih hs
    obtain ⟨e, w, rfl⟩ := List.exists_cons_of_ne_nil (splitString?_raw_ne_nil hs)
    obtain ⟨rfl, -⟩ := List.cons.inj (splitString?_append_eq hs)
    rw [List.cons_append, List.cons_append, splitString?, if_neg hc, if_neg hescape, ← List.cons_append, hread]
    rfl

theorem span_of_append_eq {p : Char → Bool} (h : ∀ c ∈ raw, p c = true) (hrest : startsWith p rest = false)
    (hcs : cs = raw ++ rest) : cs.span p = (raw, rest) := by
  rw [hcs, Numeral.span_append_of_all h hrest]

/-- What ends an invalid token ends a numeral. -/
theorem Numeral.ends_of_endsInvalid (n : Numeral) (h : startsWith (!endsInvalid ·) rest = false) : n.Ends rest := by
  cases n with
  | hexadecimal => exact startsWith_mono h fun c hc => by simp [endsInvalid_of_isWordPart hc]
  | decimal =>
    refine startsWith_mono h fun c hc => ?_
    rcases Bool.or_eq_true_iff.1 hc with hpart | hpoint
    · simp [endsInvalid_of_isWordPart hpart]
    · rw [beq_iff_eq.1 hpoint]
      rfl

/-- Where no numeral stands, none does if something else follows that ends an invalid token. -/
theorem Numeral.split?_eq_none_congr (h : split? (raw ++ rest) = none)
    (hrest : startsWith (!endsInvalid ·) rest = false) (hrest' : startsWith (!endsInvalid ·) rest' = false) :
    split? (raw ++ rest') = none := by
  cases hsplit : split? (raw ++ rest') with
  | none => rfl
  | some found =>
    obtain ⟨n, front, behind⟩ := found
    obtain ⟨happend, hspells, hends⟩ := split?_eq_some_iff.1 hsplit
    -- the numeral does not reach beyond what the two texts share
    obtain ⟨u, rfl, rfl⟩ : ∃ u, raw = front ++ u ∧ behind = u ++ rest' := by
      rcases List.append_eq_append_iff.1 happend with ⟨u, hraw, hbehind⟩ | ⟨u, hfront, hu⟩
      · exact ⟨u, hraw, hbehind⟩
      · cases u with
        | nil => exact ⟨[], by simpa using hfront.symm, by simpa using hu.symm⟩
        | cons d u =>
          have hd : endsInvalid d = false := hspells.endsInvalid d (by rw [hfront]; simp)
          rw [hu] at hrest'
          simp [startsWith, hd] at hrest'
    have hends' : n.Ends (u ++ rest) := by
      cases u with
      | nil => exact n.ends_of_endsInvalid hrest
      | cons d u => exact StandsFor.ends .same hends
    rw [List.append_assoc, split?_eq_some_iff.2 ⟨rfl, hspells, hends'⟩] at h
    cases h

namespace Lexed

theorem startsWith_rest_invalid (c : Char) (r : List Char) :
    startsWith (!endsInvalid ·) (invalid c r).rest = false := Numeral.startsWith_span _ r

theorem invalid_congr (h : startsWith (!endsInvalid ·) rest' = false) (hr' : c :: r' = (invalid c r).raw ++ rest') :
    invalid c r' = ⟨(invalid c r).token, (invalid c r).raw, rest'⟩ := by
  have hspan : r'.span (!endsInvalid ·) = ((r.span (!endsInvalid ·)).1, rest') :=
    span_of_append_eq (fun _ => Numeral.of_mem_span) h (List.cons.inj hr').2
  rw [invalid, hspan]
  rfl

theorem word_congr (h : startsWith isWordPart rest' = false) (hcs : cs = (word header r).raw ++ rest') :
    word header cs = ⟨(word header r).token, (word header r).raw, rest'⟩ := by
  have hspan : cs.span isWordPart = ((r.span isWordPart).1, rest') :=
    span_of_append_eq (fun _ => Numeral.of_mem_span) h hcs
  rw [word, hspan]
  rfl

theorem number_congr (h : StandsFor (number c r).rest rest') (hr' : c :: r' = (number c r).raw ++ rest') :
    number c r' = ⟨(number c r).token, (number c r).raw, rest'⟩ := by
  unfold number at h hr' ⊢
  cases hsplit : Numeral.split? (c :: r) with
  | some found =>
    obtain ⟨n, raw, rest⟩ := found
    rw [hsplit] at h hr'
    obtain ⟨-, hspells, hends⟩ := Numeral.split?_eq_some_iff.1 hsplit
    rw [Numeral.split?_eq_some_iff.2 ⟨hr'.symm, hspells, h.ends hends⟩]
  | none =>
    rw [hsplit] at h hr'
    dsimp only at h hr'
    have hrest := startsWith_rest_invalid c r
    have hrest' := h.stops hrest
    have hraw : (invalid c r).raw ++ (invalid c r).rest = c :: r := congrArg (c :: ·) (span_append_eq _ r)
    have hnone : Numeral.split? (c :: r') = none := by
      rw [hr']
      exact Numeral.split?_eq_none_congr (by rw [hraw, hsplit]) hrest hrest'
    rw [hnone]
    exact invalid_congr hrest' hr'

theorem exists_number (c : Char) (r : List Char) :
    ∃ tail, (number c r).raw = c :: tail ∧ tail ++ (number c r).rest = r ∧
      startsWith isWordPart (number c r).rest = false := by
  unfold number
  cases hsplit : Numeral.split? (c :: r) with
  | some found =>
    obtain ⟨n, raw, rest⟩ := found
    obtain ⟨happend, hne⟩ := Numeral.split?_spec hsplit
    obtain ⟨d, tail, rfl⟩ := List.exists_cons_of_ne_nil hne
    obtain ⟨rfl, htail⟩ := List.cons.inj happend
    have hends := (Numeral.spells_of_split? hsplit).2
    refine ⟨tail, rfl, htail, ?_⟩
    cases n with
    | hexadecimal => exact hends
    | decimal => exact hends.wordPart
  | none =>
    have hrest := startsWith_rest_invalid c r
    exact ⟨_, rfl, span_append_eq _ r,
      Numeral.startsWith_mono hrest fun d hd => by simp [endsInvalid_of_isWordPart hd]⟩

/-- A text goes on beginning as a numeral does: the digit behind a point belongs to the token. -/
theorem startsNumeral_congr (hstart : startsNumeral (c :: r) = true) (hr' : c :: r' = (number c r).raw ++ rest') :
    startsNumeral (c :: r') = true := by
  simp only [startsNumeral, Bool.or_eq_true, Bool.and_eq_true] at hstart ⊢
  refine hstart.imp_right fun hboth => ⟨hboth.1, ?_⟩
  have hdigit := hboth.2
  obtain ⟨tail, hraw, htail, hrest⟩ := exists_number c r
  rw [hraw] at hr'
  rw [(List.cons.inj hr').2]
  cases tail with
  | nil =>
    have hnone := Numeral.startsWith_mono hrest fun d => isWordPart_of_isDigit
    rw [← htail, List.nil_append, hnone] at hdigit
    cases hdigit
  | cons d tail =>
    rw [← htail] at hdigit
    exact hdigit

/-- **A token does not depend on what follows it**, but for the first character: another text may follow, if it
begins with the same character, with a blank or a comment, or is empty. A string has to be closed. -/
theorem first_congr (header : Option Header) (hclosed : c = '"' → (splitString? r).isSome = true)
    (h : StandsFor (first header c r).rest rest') (hr' : c :: r' = (first header c r).raw ++ rest') :
    first header c r' = ⟨(first header c r).token, (first header c r).raw, rest'⟩ := by
  rcases start_cases c r with ⟨s, rfl, hs⟩ | rfl | hnumeral | hword | hinvalid
  · -- only a point looks at what follows, and a blank is no digit
    rw [first_sign s hs] at h hr' ⊢
    have hr' : r' = rest' := (List.cons.inj hr').2
    subst hr'
    refine first_sign s fun hdot => h.startsWith (fun c hc => ?_) (hs hdot)
    rcases isBreak_cases hc with rfl | rfl | rfl | rfl | rfl | rfl <;> decide
  · -- a string ends with its closing quote, whatever follows
    have hquote : ∀ r, first header '"' r = string r := fun _ => rfl
    rw [hquote] at h hr' ⊢
    rw [hquote]
    obtain ⟨⟨value, raw, rest⟩, hsplit⟩ := Option.isSome_iff_exists.1 (hclosed rfl)
    unfold string at h hr' ⊢
    rw [hsplit] at h hr' ⊢
    have hr' : r' = raw ++ rest' := (List.cons.inj hr').2
    rw [hr', splitString?_congr hsplit]
  · rw [first_of_startsNumeral hnumeral] at h hr' ⊢
    rw [first_of_startsNumeral (startsNumeral_congr hnumeral hr')]
    exact number_congr h hr'
  · rw [first_of_isWordStart hword] at h hr' ⊢
    have hrest : startsWith isWordPart (word header (c :: r)).rest = false :=
      Numeral.startsWith_span isWordPart (c :: r)
    rw [first_of_isWordStart hword]
    exact word_congr (h.startsWith (fun _ => isWordPart_of_isBreak) hrest) hr'
  · rw [hinvalid] at h hr' ⊢
    rw [hinvalid]
    exact invalid_congr (h.stops (startsWith_rest_invalid c r)) hr'

/-- A string is closed if something is left behind it. -/
theorem isSome_of_rest (h : (string r).rest ≠ []) : (splitString? r).isSome = true := by
  unfold string at h
  cases hsplit : splitString? r with
  | some found => rfl
  | none => rw [hsplit] at h; exact absurd rfl h

end Lexed

/-! ### Regions of characters and of bytes -/

namespace Region

theorem next_of_le (s : Region) (h : 128 ≤ c.toNat) : s.next c = s := by
  cases s <;> simp [next, ne_of_le h]

theorem read_of_le {hs : List Char} (s : Region) (h : ∀ d ∈ hs, 128 ≤ d.toNat) (r : List Char) :
    (read s (hs ++ r)).2 = (read s r).2 := by
  induction hs with
  | nil => rfl
  | cons d ds ih =>
    have hd := h d List.mem_cons_self
    have hescape : d ≠ '\\' := by
      rintro rfl
      exact absurd hd (by decide)
    rw [List.cons_append, read_cons (fun _ => hescape), next_of_le s hd]
    exact ih fun e he => h e (List.mem_cons_of_mem _ he)

/-- The bytes of a text lead to the region that its characters lead to. -/
theorem read_units (s : Region) (cs : List Char) : (read s (units cs)).2 = (read s cs).2 := by
  fun_induction read s cs with
  | case1 => rfl
  | case2 s c =>
    rcases unit_cases c with ⟨hlt, -⟩ | ⟨hle, -⟩
    · rw [units_cons_of_lt hlt]
      rfl
    · rw [units_cons, read_of_le s fun d hd => le_of_mem_unit hle hd, next_of_le s hle]
      rfl
  | case3 s c d r hescape ih =>
    have hand := Bool.and_eq_true_iff.1 hescape
    have hlt := lt_of_beq (Bool.and_eq_true_iff.1 hand.1).2 (by decide)
    have hlt' : d.toNat < 128 :=
      (Bool.or_eq_true_iff.1 hand.2).elim (lt_of_beq · (by decide)) (lt_of_beq · (by decide))
    rw [units_cons_of_lt hlt, units_cons_of_lt hlt', read, if_pos hescape]
    exact ih
  | case4 s c d r hescape ih =>
    rcases unit_cases c with ⟨hlt, -⟩ | ⟨hle, -⟩
    · obtain ⟨e, es, hes⟩ := List.exists_cons_of_ne_nil (unit_ne_nil d)
      -- the first byte of the next character is a quote or a backslash only if the character is
      have hnext : ∀ {x : Char}, x.toNat < 128 → (e == x) = (d == x) := fun {x} hx =>
        (IsUniform.of_lt fun y hy => lt_of_beq hy hx : IsUniform (· == x)).of_mem_unit (hes ▸ List.mem_cons_self)
      have hescape' : ¬ (s == string && c == '\\' && (e == '"' || e == '\\')) = true := by
        rwa [hnext (by decide), hnext (by decide)]
      have hcons : units (d :: r) = e :: (es ++ units r) := by rw [units_cons, hes]; rfl
      rw [units_cons_of_lt hlt, hcons, read, if_neg hescape', ← hcons]
      exact ih
    · rw [next_of_le s hle] at ih ⊢
      rw [units_cons, read_of_le s fun d hd => le_of_mem_unit hle hd]
      exact ih

end Region

/-! ### Blanks in front of a token -/

/-- Whatever follows the first character of a token, the same is skipped in front of it. -/
theorem splitBlanks_congr {isComment : Bool} (h : (splitBlanks isComment cs).2 = x :: r) (r' : List Char) :
    (splitBlanks isComment ((splitBlanks isComment cs).1 ++ x :: r')).2 = x :: r' := by
  induction cs generalizing isComment with
  | nil => cases isComment <;> cases h
  | cons c cs ih =>
    cases isComment with
    | true => exact ih h
    | false =>
      rw [splitBlanks] at h ⊢
      split at h
      · rename_i hblank
        rw [if_pos hblank]
        dsimp only
        rw [List.cons_append, splitBlanks, if_pos hblank]
        exact ih h
      · rename_i hblank
        rw [if_neg hblank]
        split at h
        · rename_i hcomment
          rw [if_pos hcomment]
          dsimp only
          rw [List.cons_append, splitBlanks, if_neg hblank, if_pos hcomment]
          exact ih h
        · rename_i hcomment
          obtain ⟨rfl, -⟩ := List.cons.inj h
          rw [if_neg hcomment, List.nil_append, splitBlanks, if_neg hblank, if_neg hcomment]

/-- Behind blanks that leave no comment open a text goes on as it is. -/
theorem splitBlanks_append_of_code {isComment : Bool} (h : (splitBlanks isComment cs).2 = [])
    (hcode : (Region.read (.ofComment isComment) cs).2 = .code) (t : List Char) :
    (splitBlanks isComment (cs ++ t)).2 = (splitBlanks false t).2 := by
  induction cs generalizing isComment with
  | nil =>
    cases isComment with
    | true => cases hcode
    | false => rfl
  | cons c cs ih =>
    rw [Region.read_cons_of_ne (Region.ofComment_ne_string isComment)] at hcode
    cases isComment with
    | true =>
      rw [List.cons_append]
      refine ih h ?_
      rw [← Region.next_comment]
      exact hcode
    | false =>
      rw [List.cons_append, splitBlanks]
      rw [splitBlanks] at h
      split at h
      · rename_i hblank
        rw [if_pos hblank]
        have hnext : Region.next (.ofComment false) c = .ofComment false := Region.next_of_isSeparator hblank
        exact ih h (hnext ▸ hcode)
      · rename_i hblank
        rw [if_neg hblank]
        split at h
        · rename_i hcomment
          rw [if_pos hcomment]
          obtain rfl := beq_iff_eq.1 hcomment
          exact ih h hcode
        · cases h

/-! ### Texts in pieces -/

theorem tokensOf_of_nil (h : (splitBlanks false cs).2 = []) : tokensOf header cs = [] := by
  rw [tokensOf_eq, h]

theorem tokensOf_of_cons (h : (splitBlanks false cs).2 = x :: r) :
    tokensOf header cs = (Lexed.first header x r).token :: tokensOf header (Lexed.first header x r).rest := by
  rw [tokensOf_eq, h]

/-- In front of the first token code is read anew. -/
theorem read_of_splitBlanks (h : (splitBlanks false cs).2 = x :: r) :
    (Region.read .code (units cs)).2 = (Region.read .code (units (x :: r))).2 := by
  have hskipped := Region.isSkipped_skipBlanks ⟨cs, 0, .start⟩
  have hbytes := Region.units_skipBlanks ⟨cs, 0, .start⟩
  have hrest : (⟨cs, 0, .start⟩ : Cursor).skipBlanks.rest = x :: r := h
  rw [hrest] at hskipped hbytes
  rw [← hbytes, Region.read_append hskipped.ne_string,
    hskipped.eq_code (mt units_eq_nil_iff.1 (List.cons_ne_nil x r))]

/-- A text that ends in code has no open string at its front, and what is behind its first token ends in
code, too. -/
theorem read_first_of_code (header : Option Header) (hcomment : x ≠ '#')
    (hcode : (Region.read .code (units (x :: r))).2 = .code) :
    (x = '"' → (splitString? r).isSome = true) ∧
      (Region.read .code (units (Lexed.first header x r).rest)).2 = .code := by
  refine ⟨?_, ?_⟩
  · rintro rfl
    cases hsplit : splitString? r with
    | some found => rfl
    | none =>
      have hunits := splitString?_units r
      rw [hsplit] at hunits
      rw [Region.read_quote, Region.read_open hunits] at hcode
      cases hcode
  · cases Region.readsFirst header hcomment r with
    | closed htoken hlength hread => rwa [hread] at hcode
    | unclosed hbody htoken hrest hlength hread =>
      rw [hread] at hcode
      cases hcode

/-- The first token of a text, with another text behind it. -/
theorem tokensOf_lexed (h : (splitBlanks false cs).2 = x :: r)
    (hclosed : x = '"' → (splitString? r).isSome = true) (hrest : StandsFor (Lexed.first header x r).rest rest') :
    tokensOf header ((splitBlanks false cs).1 ++ ((Lexed.first header x r).raw ++ rest')) =
      (Lexed.first header x r).token :: tokensOf header rest' := by
  obtain ⟨tail, htail⟩ := Lexed.exists_raw header x r
  have hraw : x :: (tail ++ rest') = (Lexed.first header x r).raw ++ rest' := by rw [htail, List.cons_append]
  rw [← hraw, tokensOf_of_cons (splitBlanks_congr h (tail ++ rest')), Lexed.first_congr header hclosed hrest hraw]

theorem splitBlanks_append_first (header : Option Header) (h : (splitBlanks false cs).2 = x :: r) :
    cs = (splitBlanks false cs).1 ++ ((Lexed.first header x r).raw ++ (Lexed.first header x r).rest) := by
  rw [Lexed.raw_append_rest, ← h, splitBlanks_append_eq]

/-- **A text has the tokens of its pieces** in front of a blank or a comment and behind it, if the first piece
does not end in a string or a comment. -/
theorem tokensOf_append {before t : List Char} (hcode : (Region.read .code (units before)).2 = .code)
    (ht : startsWith (!isBreak ·) t = false) :
    tokensOf header (before ++ t) = tokensOf header before ++ tokensOf header t := by
  cases hrest : (splitBlanks false before).2 with
  | nil =>
    -- no comment is left open, so the blanks go on behind the piece
    rw [Region.read_units] at hcode
    have hblank : (splitBlanks false (before ++ t)).2 = (splitBlanks false t).2 :=
      splitBlanks_append_of_code hrest hcode t
    rw [tokensOf_of_nil hrest, tokensOf_eq, hblank, ← tokensOf_eq]
    rfl
  | cons x r =>
    have hlt : (Lexed.first header x r).rest.length < before.length := Lexed.length_rest_first_lt header hrest
    obtain ⟨hclosed, hcode⟩ := read_first_of_code header (Region.splitBlanks_of_cons hrest).2
      ((read_of_splitBlanks hrest).symm.trans hcode)
    have hstands : StandsFor ((Lexed.first header x r).rest ++ []) ((Lexed.first header x r).rest ++ t) := .append ht _
    rw [List.append_nil] at hstands
    calc tokensOf header (before ++ t)
        = tokensOf header ((splitBlanks false before).1 ++
            ((Lexed.first header x r).raw ++ ((Lexed.first header x r).rest ++ t))) := by
          rw [← List.append_assoc _ _ t, ← List.append_assoc _ _ t, ← splitBlanks_append_first header hrest]
      _ = (Lexed.first header x r).token :: tokensOf header ((Lexed.first header x r).rest ++ t) :=
          tokensOf_lexed hrest hclosed hstands
      _ = tokensOf header before ++ tokensOf header t := by
          rw [tokensOf_append hcode ht, tokensOf_of_cons hrest, List.cons_append]
termination_by before.length
decreasing_by exact hlt

/-! ### Runs of blanks and comments -/

/-- A run of blanks and comments in front of a text. The end of a line closes a comment, and only the last one
of a text may stay open. -/
inductive IsRun : List Char → List Char → Prop
  | nil {after : List Char} : IsRun [] after
  | blank {c : Char} {run after : List Char} (hc : isSeparator c = true) (h : IsRun run after) :
      IsRun (c :: run) after
  | comment {body run after : List Char} (hbody : '\n' ∉ body) (h : IsRun run after) :
      IsRun ('#' :: (body ++ '\n' :: run)) after
  | unclosed {body : List Char} (hbody : '\n' ∉ body) : IsRun ('#' :: body) []

variable {run run' : List Char}

theorem splitBlanks_comment {body : List Char} (hbody : '\n' ∉ body) (r : List Char) :
    (splitBlanks true (body ++ '\n' :: r)).2 = (splitBlanks false r).2 := by
  induction body with
  | nil => rfl
  | cons c body ih =>
    rw [List.mem_cons, not_or] at hbody
    have hline : (c != '\n') = true := by simpa using Ne.symm hbody.1
    rw [List.cons_append, splitBlanks, hline]
    exact ih hbody.2

theorem splitBlanks_unclosed {body : List Char} (hbody : '\n' ∉ body) : (splitBlanks true body).2 = [] := by
  induction body with
  | nil => rfl
  | cons c body ih =>
    rw [List.mem_cons, not_or] at hbody
    have hline : (c != '\n') = true := by simpa using Ne.symm hbody.1
    rw [splitBlanks, hline]
    exact ih hbody.2

/-- **A run has no tokens.** -/
theorem IsRun.tokensOf (h : IsRun run after) : tokensOf header (run ++ after) = tokensOf header after := by
  have hblank : (splitBlanks false (run ++ after)).2 = (splitBlanks false after).2 := by
    induction h with
    | nil => rfl
    | blank hc _ ih =>
      rw [List.cons_append, splitBlanks, if_pos hc]
      exact ih
    | comment hbody _ ih =>
      rw [List.cons_append, List.append_assoc, List.cons_append]
      exact (splitBlanks_comment hbody _).trans ih
    | unclosed hbody =>
      rw [List.append_nil]
      exact splitBlanks_unclosed hbody
  rw [tokensOf_eq, hblank, ← tokensOf_eq]

theorem IsRun.startsWith (h : IsRun run after) (hne : run ≠ []) :
    Numeral.startsWith (!isBreak ·) (run ++ after) = false := by
  cases h with
  | nil => exact absurd rfl hne
  | blank hc => simp [Numeral.startsWith, isBreak, hc]
  | comment => rfl
  | unclosed => rfl

/-- A run can take the place of another in code. -/
theorem tokensOf_replace (hcode : (Region.read .code (units before)).2 = .code) (h : IsRun run after) (hne : run ≠ []) :
    tokensOf header (before ++ (run ++ after)) = tokensOf header before ++ tokensOf header after := by
  rw [tokensOf_append hcode (h.startsWith hne), h.tokensOf]

/-! ### Between two tokens -/

namespace Cursor

/-- The first of some tokens is gone first. -/
theorem behindTokens_succ (header : Option Header) (c : Cursor) (k : Nat) :
    c.behindTokens header (k + 1) = (c.scan header).2.behindTokens header k := by
  induction k with
  | zero => rfl
  | succ k ih => rw [behindTokens, ih]; rfl

theorem exists_scan (header : Option Header) (c : Cursor) : ∃ front, c.rest = front ++ (c.scan header).2.rest := by
  have hblank := splitBlanks_append_eq false c.rest
  cases hrest : c.skipBlanks.rest with
  | nil => exact ⟨_, by rw [scan_of_nil hrest]; exact hblank.symm⟩
  | cons x r =>
    have hraw := Lexed.raw_append_rest header x r
    rw [← hrest] at hraw
    refine ⟨(splitBlanks false c.rest).1 ++ (Lexed.first header x r).raw, ?_⟩
    rw [scan_of_cons hrest, List.append_assoc]
    exact hblank.symm.trans (congrArg _ hraw.symm)

theorem exists_behindTokens (header : Option Header) (c : Cursor) (k : Nat) :
    ∃ front, c.rest = front ++ (c.behindTokens header k).rest := by
  induction k with
  | zero => exact ⟨[], rfl⟩
  | succ k ih =>
    obtain ⟨front, hfront⟩ := ih
    obtain ⟨next, hnext⟩ := exists_scan header (c.behindTokens header k)
    refine ⟨front ++ next, ?_⟩
    change c.rest = front ++ next ++ ((c.behindTokens header k).scan header).2.rest
    rw [List.append_assoc, ← hnext, hfront]

end Cursor

/-- A run can be inserted between two tokens. -/
theorem tokensOf_insert {c : Cursor} {before : List Char} {k : Nat} (hbefore : c.rest = before ++ after)
    (hafter : (c.behindTokens header k).rest = after) (hk : k < (c.lexemes header).1.length) (h : IsRun run after)
    (hne : run ≠ []) : tokensOf header (before ++ (run ++ after)) = tokensOf header (before ++ after) := by
  induction k generalizing c before with
  | zero =>
    obtain rfl : before = [] := by
      rw [Cursor.behindTokens, hbefore] at hafter
      simpa using hafter
    exact h.tokensOf
  | succ k ih =>
    cases hrest : c.skipBlanks.rest with
    | nil =>
      rw [Cursor.lexemes_of_nil hrest] at hk
      cases hk
    | cons x r =>
      have hblank : (splitBlanks false c.rest).2 = x :: r := hrest
      have hscan : (c.scan header).2.rest = (Lexed.first header x r).rest := by rw [Cursor.scan_of_cons hrest]; rfl
      rw [Cursor.lexemes_of_cons hrest] at hk
      replace hk : k < ((c.scan header).2.lexemes header).1.length := Nat.lt_of_succ_lt_succ hk
      rw [Cursor.behindTokens_succ] at hafter
      obtain ⟨front, hfront⟩ := Cursor.exists_behindTokens header (c.scan header).2 k
      rw [hafter] at hfront
      -- the first token is the same, and the run comes behind another one
      have hfirst : ∀ t,
          before ++ t = (splitBlanks false c.rest).1 ++ ((Lexed.first header x r).raw ++ (front ++ t)) := by
        have hcancel : before = (splitBlanks false c.rest).1 ++ ((Lexed.first header x r).raw ++ front) := by
          refine (List.append_left_inj after).1 ?_
          rw [← hbefore, List.append_assoc, List.append_assoc, ← hfront, hscan,
            ← splitBlanks_append_first header hblank]
        intro t
        rw [hcancel, List.append_assoc, List.append_assoc]
      have hstands : StandsFor (front ++ after) (front ++ (run ++ after)) := .append (h.startsWith hne) front
      rw [← hfront, hscan] at hstands
      have hclosed : x = '"' → (splitString? r).isSome = true := by
        -- behind an open string no token would be left
        rintro rfl
        refine Lexed.isSome_of_rest fun hnil => ?_
        have hend := Cursor.skipBlanks_of_nil (hscan.trans hnil)
        rw [Cursor.lexemes_of_nil (hend.symm ▸ hscan.trans hnil)] at hk
        exact Nat.not_lt_zero _ hk
      rw [hfirst, tokensOf_lexed hblank hclosed hstands, ih hfront hafter hk, ← hbefore, tokensOf_of_cons hblank,
        ← hscan, ← hfront]

/-! ### Layouts -/

/-- A place in a text right behind some of its tokens, with one more to come. -/
def IsBetween (header : Option Header) (before after : List Char) : Prop :=
  ∃ k < (tokensOf header (before ++ after)).length,
    ((⟨before ++ after, 0, .start⟩ : Cursor).behindTokens header k).rest = after

/-- A text is laid out in another way: a run of blanks and comments outside of strings takes the place of
another, or a run is inserted behind a token and in front of the next one. -/
inductive Relaid (header : Option Header) : List Char → List Char → Prop
  | replace {before run run' after : List Char} (hcode : (Region.read .code (units before)).2 = .code)
      (h : IsRun run after) (hne : run ≠ []) (h' : IsRun run' after) (hne' : run' ≠ []) :
      Relaid header (before ++ (run ++ after)) (before ++ (run' ++ after))
  | insert {before run after : List Char} (hbetween : IsBetween header before after)
      (h : IsRun run after) (hne : run ≠ []) :
      Relaid header (before ++ after) (before ++ (run ++ after))

theorem Relaid.tokensOf (h : Relaid header cs r) : tokensOf header r = tokensOf header cs := by
  cases h with
  | replace hcode h hne h' hne' => rw [tokensOf_replace hcode h hne, tokensOf_replace hcode h' hne']
  | insert hbetween h hne =>
    obtain ⟨k, hk, hafter⟩ := hbetween
    rw [← tokens_lexemes header ⟨_, 0, .start⟩, List.length_map] at hk
    exact tokensOf_insert rfl hafter hk h hne

/-- **Layout does not matter**: a text keeps its tokens, valid and invalid ones alike, however often the blanks
and comments in it are changed. -/
theorem tokens_relaid {c c' : Cursor} (h : Relation.ReflTransGen (Relaid header) c.rest c'.rest) :
    (c'.lexemes header).1.map (·.token) = (c.lexemes header).1.map (·.token) := by
  rw [tokens_lexemes, tokens_lexemes]
  generalize c'.rest = relaid at h
  induction h with
  | refl => rfl
  | tail _ hstep ih => rw [hstep.tokensOf, ih]

/-- A comment behind a malformed number, and a comma instead of another comment. -/
theorem tokens_relaid_comment :
    Relation.ReflTransGen (Relaid none) (Cursor.ofText "0xg[a #x\n b]").rest (Cursor.ofText "0xg#y\n[a,b]").rest ∧
      ((Cursor.ofText "0xg#y\n[a,b]").lexemes none).1.map (·.token) =
        ((Cursor.ofText "0xg[a #x\n b]").lexemes none).1.map (·.token) := by
  have hcomma : Relaid none ("0xg[a".toList ++ (" #x\n ".toList ++ "b]".toList))
      ("0xg[a".toList ++ (",".toList ++ "b]".toList)) :=
    .replace (by decide +kernel) (.blank rfl (.comment (List.mem_singleton.not.2 (by decide)) (.blank rfl .nil)))
      (by decide) (.blank rfl .nil) (by decide)
  have hcomment : Relaid none ("0xg".toList ++ "[a,b]".toList) ("0xg".toList ++ ("#y\n".toList ++ "[a,b]".toList)) :=
    .insert ⟨1, by decide +kernel, by decide +kernel⟩ (.comment (List.mem_singleton.not.2 (by decide)) .nil) (by decide)
  have h := (Relation.ReflTransGen.single hcomma).tail hcomment
  exact ⟨h, tokens_relaid h⟩

end SceneGraph
