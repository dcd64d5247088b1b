import SceneGraph.Proofs.Document.Grammar

/-!
# Code, comments and strings

A reader that knows nothing about tokens can tell code, comments and strings apart byte by byte: a comment
reaches from its sign to the end of the line, a string from a quote to the next one, and in a string a
backslash takes a quote or a backslash behind it along (`Region.read`). The scanner agrees with that reader,
whatever malformed words there are: `Region.Cuts` says how the tokens and the gaps between them cut the
bytes, and `Region.cuts_lexemes` that they do so for every text. So the brackets among the tokens are those
that the reader meets in code (`Region.bracket_lexemes`).
-/

namespace SceneGraph

/-- The brackets. -/
def isBracket (c : Char) : Bool := c == '\x7b' || c == '\x7d' || c == '[' || c == ']'

/-- The brackets, the quote and the sign of a comment. -/
def isMark (c : Char) : Bool := isBracket c || c == '"' || c == '#'

/-! ### The characters of tokens -/

section

variable {header : Option Header} {c d : Char} {r : List Char}

theorem isMark_of_endsInvalid (h : endsInvalid c = false) : isMark c = false := by
  simp only [endsInvalid, Bool.or_eq_false_iff] at h
  simp [isMark, isBracket, h]

theorem endsInvalid_of_isWordPart (h : isWordPart c = true) : endsInvalid c = false := by
  have hne : ∀ d, isWordPart d = false → (c == d) = false := by
    intro d hd
    rw [beq_eq_false_iff_ne]
    rintro rfl
    exact Bool.false_ne_true (hd.symm.trans h)
  simp only [endsInvalid, hne ' ' (by decide), hne '\t' (by decide), hne '\n' (by decide),
    hne '\x0c' (by decide), hne '\r' (by decide), hne ',' (by decide), hne '\x7b' (by decide),
    hne '\x7d' (by decide), hne '[' (by decide), hne ']' (by decide), hne '"' (by decide),
    hne '#' (by decide), Bool.or_false]

theorem isWordPart_of_isDigit (h : c.isDigit = true) : isWordPart c = true := by
  rw [isWordPart, h, Bool.or_true]

/-- A numeral has no character that an invalid token would end at. -/
theorem Numeral.Spells.endsInvalid {n : Numeral} {raw : List Char} (h : Spells n raw) :
    ∀ d ∈ raw, endsInvalid d = false := by
  have hdigit : ∀ {d : Char}, d.isDigit = true → SceneGraph.endsInvalid d = false := fun hd =>
    endsInvalid_of_isWordPart (isWordPart_of_isDigit hd)
  have hsign : ∀ {negative sign}, IsSign negative sign → ∀ d ∈ sign, SceneGraph.endsInvalid d = false := by
    intro negative sign hsign
    cases hsign with
    | absent => exact List.forall_mem_nil _
    | plus => exact List.forall_mem_singleton.2 rfl
    | minus => exact List.forall_mem_singleton.2 rfl
  intro d hd
  cases h with
  | hexadecimal hs hx hne hdigits =>
    rcases List.mem_append.1 hd with hd | hd
    · exact hsign hs d hd
    rcases List.mem_cons.1 hd with rfl | hd
    · decide
    rcases List.mem_cons.1 hd with rfl | hd
    · rcases hx with rfl | rfl <;> decide
    · exact endsInvalid_of_isWordPart (isWordPart_of_isHexDigit (hdigits d hd))
  | decimal hs hmantissa hexponent =>
    rcases List.mem_append.1 hd with hd | hd
    · rcases List.mem_append.1 hd with hd | hd
      · exact hsign hs d hd
      · rcases hmantissa.mem d hd with hd | rfl
        · exact hdigit hd
        · decide
    · rcases hexponent.mem d hd with hd | rfl | rfl | rfl | rfl
      · exact hdigit hd
      all_goals decide

theorem splitString?_raw_ne_nil {cs value raw rest : List Char} (h : splitString? cs = some (value, raw, rest)) :
    raw ≠ [] := by
  rintro rfl
  unfold splitString? at h
  split at h
  · cases h
  · split at h <;> simp at h
  · split at h
    · simp at h
    · split at h <;> simp at h

namespace Lexed

theorem exists_raw (header : Option Header) (c : Char) (r : List Char) :
    ∃ tail, (first header c r).raw = c :: tail := by
  have happend := raw_append_rest header c r
  cases hraw : (first header c r).raw with
  | nil =>
    have hle := length_rest_first_le header c r
    rw [hraw, List.nil_append] at happend
    rw [happend, List.length_cons] at hle
    omega
  | cons d tail =>
    rw [hraw] at happend
    exact ⟨tail, by rw [(List.cons.inj happend).1]⟩

/-- Behind the first token there is less text. -/
theorem length_rest_first_lt (header : Option Header) {cs : List Char} (h : (splitBlanks false cs).2 = c :: r) :
    (first header c r).rest.length < cs.length := by
  have hle := length_splitBlanks_le false cs
  have hfirst := length_rest_first_le header c r
  rw [h, List.length_cons] at hle
  omega

/-- A token is neither a sign nor a string, and has no mark among its characters. -/
structure IsPlain (l : Lexed) : Prop where
  symbol : ∀ s, l.token ≠ .symbol s
  string : ∀ v, l.token ≠ .string v
  raw : ∀ d ∈ l.raw, isMark d = false

theorem IsPlain.invalid (h : isMark c = false) (r : List Char) : (invalid c r).IsPlain := by
  refine ⟨nofun, nofun, List.forall_mem_cons.2 ⟨h, fun d hd => isMark_of_endsInvalid ?_⟩⟩
  simpa using Numeral.of_mem_span hd

theorem IsPlain.number (h : isMark c = false) (r : List Char) : (number c r).IsPlain := by
  unfold Lexed.number
  split
  · rename_i n raw rest hsplit
    have hraw : ∀ d ∈ raw, isMark d = false := fun d hd =>
      isMark_of_endsInvalid ((Numeral.spells_of_split? hsplit).1.endsInvalid d hd)
    cases htoken : n.token? with
    | none => exact ⟨nofun, nofun, hraw⟩
    | some t => rcases Numeral.eq_of_token? htoken with ⟨i, rfl⟩ | ⟨x, rfl⟩ <;> exact ⟨nofun, nofun, hraw⟩
  · exact .invalid h r

theorem IsPlain.word (header : Option Header) (cs : List Char) : (word header cs).IsPlain := by
  have hraw : ∀ d ∈ (cs.span isWordPart).1, isMark d = false := fun _ hd =>
    isMark_of_endsInvalid (endsInvalid_of_isWordPart (Numeral.of_mem_span hd))
  unfold Lexed.word
  dsimp only
  cases Keyword.ofWord? header (String.ofList (cs.span isWordPart).1) with
  | none => exact ⟨nofun, nofun, hraw⟩
  | some k => exact ⟨nofun, nofun, hraw⟩

/-- **A token is a sign, a string or plain.** Malformed words stop in front of brackets, quotes and
comments as well-formed ones do. -/
theorem first_cases (header : Option Header) (h : c ≠ '#') (r : List Char) :
    (∃ s : Symbol, c = s.char ∧ first header c r = sign s r) ∨
      (c = '"' ∧ first header c r = string r) ∨ (first header c r).IsPlain := by
  by_cases hmark : isMark c = true
  · simp only [isMark, isBracket, Bool.or_eq_true, beq_iff_eq] at hmark
    rcases hmark with ((((rfl | rfl) | rfl) | rfl) | rfl) | rfl
    · exact .inl ⟨.nodeBegin, rfl, rfl⟩
    · exact .inl ⟨.nodeEnd, rfl, rfl⟩
    · exact .inl ⟨.listBegin, rfl, rfl⟩
    · exact .inl ⟨.listEnd, rfl, rfl⟩
    · exact .inr (.inl ⟨rfl, rfl⟩)
    · exact absurd rfl h
  have hmark : isMark c = false := eq_false_of_ne_true hmark
  rcases start_cases c r with ⟨s, rfl, hs⟩ | rfl | hnumeral | hword | hinvalid
  · exact .inl ⟨s, rfl, first_sign s hs⟩
  · exact .inr (.inl ⟨rfl, rfl⟩)
  · rw [first_of_startsNumeral hnumeral]
    exact .inr (.inr (.number hmark r))
  · rw [first_of_isWordStart hword]
    exact .inr (.inr (.word header (c :: r)))
  · rw [hinvalid]
    exact .inr (.inr (.invalid hmark r))

end Lexed

end

/-- What a byte of a text is met in. -/
inductive Region where
  | code | comment | string
  deriving DecidableEq, Repr

namespace Region

/-- The region behind a byte. -/
def next : Region → Char → Region
  | code, c => if c == '"' then string else if c == '#' then comment else code
  | comment, c => if c == '\n' then code else comment
  | string, c => if c == '"' then code else string

/-- Reads bytes from a region on: each of them with the region that it is met in, and the region behind
them all. In a string a backslash and a quote or a backslash behind it are skipped. -/
def read : Region → List Char → List (Char × Region) × Region
  | s, [] => ([], s)
  | s, [c] => ([(c, s)], s.next c)
  | s, c :: d :: r =>
    if s == string && c == '\\' && (d == '"' || d == '\\') then
      ((c, s) :: (d, s) :: (read s r).1, (read s r).2)
    else ((c, s) :: (read (s.next c) (d :: r)).1, (read (s.next c) (d :: r)).2)

/-- The brackets that are met in code, with their places. -/
def brackets (place : Nat) (bytes : List (Char × Region)) : List (Nat × Char) :=
  (bytes.zipIdx place).filterMap fun ((b, s), n) => if s == code && isBracket b then some (n, b) else none

variable {s : Region} {a b bytes cs r raw rest : List Char} {c : Char}

/-! ### Reading piece by piece -/

/-- Unless a backslash stands in a string, bytes are read one by one. -/
theorem read_cons (h : s = string → c ≠ '\\') (r : List Char) :
    read s (c :: r) = ((c, s) :: (read (s.next c) r).1, (read (s.next c) r).2) := by
  cases r with
  | nil => rfl
  | cons d r =>
    rw [read, if_neg]
    intro hescape
    simp only [Bool.and_eq_true, beq_iff_eq] at hescape
    exact h hescape.1.1 hescape.1.2

theorem read_cons_of_ne (h : s ≠ string) (c : Char) (r : List Char) :
    read s (c :: r) = ((c, s) :: (read (s.next c) r).1, (read (s.next c) r).2) :=
  read_cons (fun hs => absurd hs h) r

/-- Behind a piece that does not end in a string, reading starts anew. -/
theorem read_append (h : (read s a).2 ≠ string) (b : List Char) :
    read s (a ++ b) = ((read s a).1 ++ (read (read s a).2 b).1, (read (read s a).2 b).2) := by
  fun_induction read s a with
  | case1 s => rfl
  | case2 s c => exact read_cons (by rintro rfl rfl; exact h rfl) b
  | case3 s c d r hescape ih =>
    rw [List.cons_append, List.cons_append, read, if_pos hescape, ih h]
    rfl
  | case4 s c d r hescape ih =>
    rw [List.cons_append, List.cons_append, read, if_neg hescape, ← List.cons_append, ih h]
    rfl

theorem read_code (h : ∀ d ∈ raw, isMark d = true → isBracket d = true) :
    read code raw = (raw.map (·, code), code) := by
  induction raw with
  | nil => rfl
  | cons c r ih =>
    have hc := h c List.mem_cons_self
    have hnext : next code c = code := by
      rw [next, if_neg, if_neg]
      · rintro hcomment
        obtain rfl := beq_iff_eq.1 hcomment
        exact absurd (hc rfl) (by decide)
      · rintro hquote
        obtain rfl := beq_iff_eq.1 hquote
        exact absurd (hc rfl) (by decide)
    rw [read_cons_of_ne (by decide), hnext, ih fun d hd => h d (List.mem_cons_of_mem _ hd)]
    rfl

/-- A string that is closed ends with its closing quote. -/
theorem read_string {value : List Char} (h : splitString? cs = some (value, raw, rest)) :
    read string raw = (raw.map (·, string), code) := by
  fun_induction splitString? cs generalizing value raw rest with
  | case1 => cases h
  | case2 c hc =>
    obtain ⟨-, rfl, -⟩ : [] = value ∧ [c] = raw ∧ [] = rest := by simpa using h
    rw [read, next, if_pos hc]
    rfl
  | case3 => cases h
  | case4 c d r hc =>
    obtain ⟨-, rfl, -⟩ : [] = value ∧ [c] = raw ∧ d :: r = rest := by simpa using h
    rw [read, next, if_pos hc]
    rfl
  | case5 c d r _ hescape ih =>
    obtain ⟨⟨v, w, t⟩, hs, heq⟩ := Option.map_eq_some_iff.1 h
    obtain ⟨-, rfl, -⟩ : d :: v = value ∧ c :: d :: w = raw ∧ t = rest := by simpa using heq
    rw [read, if_pos (by simpa using hescape), ih hs]
    rfl
  | case6 c d r hc hescape ih =>
    obtain ⟨⟨v, w, t⟩, hs, heq⟩ := Option.map_eq_some_iff.1 h
    obtain ⟨-, rfl, -⟩ : c :: v = value ∧ c :: w = raw ∧ t = rest := by simpa using heq
    have hread := ih hs
    -- the next character is taken too, so a backslash does not stand in front of the end
    obtain ⟨e, w, rfl⟩ := List.exists_cons_of_ne_nil (splitString?_raw_ne_nil hs)
    obtain ⟨rfl, -⟩ := List.cons.inj (splitString?_append_eq hs)
    rw [read, if_neg (by simpa using hescape), next, if_neg hc, hread]
    rfl

/-- A string that is not closed takes everything. -/
theorem read_open (h : splitString? cs = none) : read string cs = (cs.map (·, string), string) := by
  fun_induction splitString? cs with
  | case1 => rfl
  | case2 c hc => cases h
  | case3 c hc =>
    rw [read, next, if_neg hc]
    rfl
  | case4 c d r hc => cases h
  | case5 c d r _ hescape ih =>
    rw [read, if_pos (by simpa using hescape), ih (Option.map_eq_none_iff.1 h)]
    rfl
  | case6 c d r hc hescape ih =>
    rw [read, if_neg (by simpa using hescape), next, if_neg hc, ih (Option.map_eq_none_iff.1 h)]
    rfl

/-- A byte between two tokens: it stands between words, or it belongs to a comment. -/
def IsGap (b : Char × Region) : Prop :=
  b.2 = comment ∨ b.2 = code ∧ (isSeparator b.1 = true ∨ b.1 = '#')

/-- The region of a text that is read on with a comment open or not. -/
def ofComment (isComment : Bool) : Region := if isComment then comment else code

theorem ofComment_ne_string (isComment : Bool) : ofComment isComment ≠ string := by
  cases isComment <;> decide

theorem next_comment (c : Char) : next comment c = ofComment (c != '\n') := by
  rw [next, ofComment]
  cases hline : c == '\n' <;> simp [bne, hline]

theorem next_of_isSeparator (h : isSeparator c = true) : next code c = code := by
  simp only [isSeparator, Bool.or_eq_true, beq_iff_eq] at h
  rcases h with (((rfl | rfl) | rfl) | rfl) | rfl <;> rfl

/-- A piece that is skipped is made of blanks and comments, and code goes on if something is left. -/
structure IsSkipped (s : Region) (blank rest : List Char) : Prop where
  gap : ∀ b ∈ (read s blank).1, IsGap b
  ne_string : (read s blank).2 ≠ string
  eq_code : rest ≠ [] → (read s blank).2 = code

theorem IsSkipped.cons (hs : s ≠ string) (hgap : IsGap (c, s)) (h : IsSkipped (s.next c) raw rest) :
    IsSkipped s (c :: raw) rest := by
  have hread := read_cons_of_ne hs c raw
  exact ⟨hread ▸ List.forall_mem_cons.2 ⟨hgap, h.gap⟩, hread ▸ h.ne_string, hread ▸ h.eq_code⟩

theorem isSkipped_splitBlanks (isComment : Bool) (cs : List Char) :
    IsSkipped (ofComment isComment) (splitBlanks isComment cs).1 (splitBlanks isComment cs).2 := by
  have hnil : ∀ {rest}, IsSkipped code [] rest :=
    ⟨List.forall_mem_nil _, by decide, fun _ => rfl⟩
  induction cs generalizing isComment with
  | nil =>
    cases isComment with
    | true => exact ⟨List.forall_mem_nil _, by decide, fun h => absurd rfl h⟩
    | false => exact hnil
  | cons c r ih =>
    cases isComment with
    | true =>
      refine .cons (by decide) (.inl rfl) ?_
      change IsSkipped (next comment c) _ _
      rw [next_comment]
      exact ih (c != '\n')
    | false =>
      rw [splitBlanks]
      split
      · rename_i hblank
        refine .cons (by decide) (.inr ⟨rfl, .inl hblank⟩) ?_
        change IsSkipped (next code c) _ _
        rw [next_of_isSeparator hblank]
        exact ih false
      · split
        · rename_i hcomment
          obtain rfl := beq_iff_eq.1 hcomment
          exact .cons (by decide) (.inr ⟨rfl, .inr rfl⟩) (ih true)
        · exact hnil

theorem map_fst_read (s : Region) (bytes : List Char) : (read s bytes).1.map Prod.fst = bytes := by
  fun_induction read s bytes with
  | case1 => rfl
  | case2 => rfl
  | case3 s c d r _ ih => exact congrArg (c :: d :: ·) ih
  | case4 s c d r _ ih => exact congrArg (c :: ·) ih

theorem length_read (s : Region) (bytes : List Char) : (read s bytes).1.length = bytes.length := by
  rw [← List.length_map Prod.fst, map_fst_read]

/-! ### Cuts -/

/-- The bytes of a token: a sign is met in code, a string in code up to its first quote, and all bytes of the
other tokens in code, none of them a bracket, a quote or the sign of a comment. -/
inductive Spans : Token → List (Char × Region) → Prop
  | symbol (s : Symbol) : Spans (.symbol s) [(s.char, code)]
  | string (value : String) {body : List (Char × Region)} (hbody : ∀ b ∈ body, b.2 = string) :
      Spans (.string value) (('"', code) :: body)
  | plain {t : Token} {bytes : List (Char × Region)} (hsymbol : ∀ s, t ≠ .symbol s) (hstring : ∀ v, t ≠ .string v)
      (hbytes : ∀ b ∈ bytes, b.2 = code ∧ isMark b.1 = false) : Spans t bytes

/-- Tokens and the gaps between them cut bytes from a place on. A string that is not closed is an invalid
token, the last one, and has all the bytes that are left. -/
inductive Cuts : Nat → List (Char × Region) → List Lexeme → Prop
  | nil {place : Nat} {gap : List (Char × Region)} (hgap : ∀ b ∈ gap, IsGap b) : Cuts place gap []
  | cons {place : Nat} {gap token rest : List (Char × Region)} {l : Lexeme} {more : List Lexeme}
      (hgap : ∀ b ∈ gap, IsGap b) (htoken : Spans l.token token)
      (hstop : l.stop = place + gap.length + token.length) (hmore : Cuts l.stop rest more) :
      Cuts place (gap ++ (token ++ rest)) (l :: more)
  | unclosed {place : Nat} {gap body : List (Char × Region)} {l : Lexeme} {raw : String}
      (hgap : ∀ b ∈ gap, IsGap b) (hbody : ∀ b ∈ body, b.2 = string) (htoken : l.token = .invalid raw)
      (hstop : l.stop = place + gap.length + (body.length + 1)) :
      Cuts place (gap ++ ('"', code) :: body) [l]

variable {header : Option Header} {x : Char}

/-- How the bytes of a token are read, and the bytes behind it. -/
inductive ReadsFirst (bytes : List Char) (l : Lexed) : Prop
  | closed {token : List (Char × Region)} (htoken : Spans l.token token) (hlength : token.length = byteLength l.raw)
      (hread : read code bytes = (token ++ (read code (units l.rest)).1, (read code (units l.rest)).2))
  | unclosed {body : List (Char × Region)} {raw : String} (hbody : ∀ b ∈ body, b.2 = string)
      (htoken : l.token = .invalid raw) (hrest : l.rest = []) (hlength : body.length + 1 = byteLength l.raw)
      (hread : read code bytes = (('"', code) :: body, string))

theorem isUniform_isMark : IsUniform isMark := fun c d hc hd => by
  simp [isMark, isBracket, ne_of_le hc, ne_of_le hd]

theorem readsFirst_sign (s : Symbol) (r : List Char) : ReadsFirst (units (s.char :: r)) (.sign s r) := by
  have hunits : units (s.char :: r) = s.char :: units r := units_cons_of_lt (by cases s <;> decide) r
  have hnext : next code s.char = code := by cases s <;> rfl
  refine .closed (.symbol s) ?_ ?_
  · cases s <;> rfl
  · rw [hunits, read_cons_of_ne (by decide), hnext]
    rfl

theorem read_quote (r : List Char) :
    read code (units ('"' :: r)) = (('"', code) :: (read string (units r)).1, (read string (units r)).2) := by
  rw [units_cons_of_lt (by decide), read_cons_of_ne (by decide)]
  rfl

theorem readsFirst_string (r : List Char) : ReadsFirst (units ('"' :: r)) (.string r) := by
  have hread := read_quote r
  have hlength : ∀ cs, (units cs).length + 1 = byteLength ('"' :: cs) := fun cs => by
    rw [length_units, byteLength_cons, Nat.add_comm]
    rfl
  have hsplit := splitString?_units r
  unfold Lexed.string
  cases hr : splitString? r with
  | none =>
    rw [hr] at hsplit
    rw [read_open hsplit] at hread
    exact .unclosed (by simp) rfl rfl (by rw [List.length_map]; exact hlength r) hread
  | some found =>
    obtain ⟨value, raw, rest⟩ := found
    rw [hr] at hsplit
    have hraw := read_string hsplit
    have happend : units raw ++ units rest = units r := splitString?_append_eq hsplit
    have hspans : Spans (.string (String.ofList value)) (('"', code) :: (units raw).map (·, string)) :=
      .string _ (by simp)
    refine .closed hspans ?_ ?_
    · rw [List.length_cons, List.length_map]
      exact hlength raw
    · rw [hread, ← happend, read_append (by rw [hraw]; exact nofun), hraw]
      rfl

theorem readsFirst_plain {l : Lexed} (h : l.IsPlain) : ReadsFirst (units (l.raw ++ l.rest)) l := by
  have hmark : ∀ d ∈ units l.raw, isMark d = false := fun d hd => by
    obtain ⟨c, hc, hd⟩ := List.mem_flatMap.1 hd
    rw [isUniform_isMark.of_mem_unit hd, h.raw c hc]
  have hraw : read code (units l.raw) = ((units l.raw).map (·, code), code) :=
    read_code fun d hd hmarked => absurd (hmark d hd) (by simp [hmarked])
  have hbytes : ∀ b ∈ (units l.raw).map (·, code), b.2 = code ∧ isMark b.1 = false := by
    rintro _ hb
    obtain ⟨d, hd, rfl⟩ := List.mem_map.1 hb
    exact ⟨rfl, hmark d hd⟩
  refine .closed (.plain h.symbol h.string hbytes) ?_ ?_
  · rw [List.length_map, length_units]
  · rw [units_append, read_append (by rw [hraw]; exact nofun), hraw]

/-- **How a token is read by bytes.** -/
theorem readsFirst (header : Option Header) (hcomment : x ≠ '#') (r : List Char) :
    ReadsFirst (units (x :: r)) (Lexed.first header x r) := by
  rcases Lexed.first_cases header hcomment r with ⟨s, rfl, hfirst⟩ | ⟨rfl, hfirst⟩ | hplain
  · exact hfirst ▸ readsFirst_sign s r
  · exact hfirst ▸ readsFirst_string r
  · have h := readsFirst_plain hplain
    rwa [Lexed.raw_append_rest] at h

theorem splitBlanks_of_cons {isComment : Bool} (h : (splitBlanks isComment cs).2 = x :: r) :
    isSeparator x = false ∧ x ≠ '#' := by
  induction cs generalizing isComment with
  | nil => cases isComment <;> cases h
  | cons c cs ih =>
    cases isComment with
    | true => exact ih h
    | false =>
      rw [splitBlanks] at h
      split at h
      · exact ih h
      · rename_i hblank
        split at h
        · exact ih h
        · rename_i hcomment
          obtain ⟨rfl, -⟩ := List.cons.inj h
          exact ⟨by simpa using hblank, by simpa using hcomment⟩

/-- What is skipped by bytes in front of a token. -/
theorem isSkipped_skipBlanks (c : Cursor) :
    IsSkipped code (units (splitBlanks false c.rest).1) (units c.skipBlanks.rest) := by
  have hskipped := isSkipped_splitBlanks false (units c.rest)
  rw [splitBlanks_units] at hskipped
  exact hskipped

theorem units_skipBlanks (c : Cursor) :
    units (splitBlanks false c.rest).1 ++ units c.skipBlanks.rest = units c.rest := by
  rw [← units_append]
  exact congrArg units (splitBlanks_append_eq false c.rest)

theorem offset_skipBlanks (c : Cursor) :
    c.skipBlanks.offset = c.offset + (read code (units (splitBlanks false c.rest).1)).1.length := by
  rw [length_read, length_units]
  rfl

/-- **The tokens of a text cut its bytes.** -/
theorem cuts_lexemes (header : Option Header) (c : Cursor) :
    Cuts c.offset (read code (units c.rest)).1 (c.lexemes header).1 := by
  have hskipped := isSkipped_skipBlanks c
  have hbytes := units_skipBlanks c
  have hoffset := offset_skipBlanks c
  rw [← hbytes, read_append hskipped.ne_string]
  cases hrest : c.skipBlanks.rest with
  | nil =>
    rw [Cursor.lexemes_of_nil hrest, units_nil, read, List.append_nil]
    exact .nil hskipped.gap
  | cons x r =>
    have hcode : (read code (units (splitBlanks false c.rest).1)).2 = code :=
      hskipped.eq_code (by rw [hrest]; exact mt units_eq_nil_iff.1 (List.cons_ne_nil x r))
    have hlt : (Lexed.first header x r).rest.length < c.rest.length := Lexed.length_rest_first_lt header hrest
    rw [hcode, Cursor.lexemes_of_cons hrest, Cursor.scan_of_cons hrest]
    cases readsFirst header (splitBlanks_of_cons hrest).2 r with
    | closed htoken hlength hread =>
      rw [hread]
      refine .cons hskipped.gap htoken ?_ ?_
      · rw [← hoffset, hlength]
        rfl
      · exact cuts_lexemes header _
    | unclosed hbody htoken hclosed hlength hread =>
      -- nothing is left behind it
      have hmore : ((c.skipBlanks.after (Lexed.first header x r).raw (Lexed.first header x r).rest).lexemes
          header).1 = [] := by
        rw [Cursor.lexemes_of_nil]
        rw [Cursor.skipBlanks_of_nil hclosed]
        exact hclosed
      rw [hread, hmore]
      refine .unclosed hskipped.gap hbody htoken ?_
      rw [← hoffset, hlength]
      rfl
termination_by c.rest.length
decreasing_by exact hlt

/-! ### Brackets -/

end Region

/-- A bracket among the tokens, with its byte. -/
def Lexeme.bracket? (l : Lexeme) : Option (Nat × Char) :=
  match l.token with
  | .symbol s => if s = .dot then none else some (l.stop - 1, s.char)
  | _ => none

namespace Region

theorem brackets_append (place : Nat) (a b : List (Char × Region)) :
    brackets place (a ++ b) = brackets place a ++ brackets (place + a.length) b := by
  rw [brackets, List.zipIdx_append, List.filterMap_append]
  rfl

theorem brackets_eq_nil {bytes : List (Char × Region)} (h : ∀ b ∈ bytes, b.2 = code → isBracket b.1 = false)
    (place : Nat) : brackets place bytes = [] := by
  refine List.filterMap_eq_nil_iff.2 fun ((b, s), n) hb => if_neg fun hbracket => ?_
  simp only [Bool.and_eq_true, beq_iff_eq] at hbracket
  exact absurd (h (b, s) (List.fst_mem_of_mem_zipIdx hb) hbracket.1) (by simp [hbracket.2])

theorem isBracket_of_isSeparator (h : isSeparator c = true) : isBracket c = false := by
  simp only [isSeparator, Bool.or_eq_true, beq_iff_eq] at h
  rcases h with (((rfl | rfl) | rfl) | rfl) | rfl <;> rfl

theorem brackets_gap {gap : List (Char × Region)} (h : ∀ b ∈ gap, IsGap b) (place : Nat) :
    brackets place gap = [] := by
  refine brackets_eq_nil (fun b hb hcode => ?_) place
  rcases h b hb with hcomment | ⟨-, hblank | hsign⟩
  · rw [hcode] at hcomment
    cases hcomment
  · exact isBracket_of_isSeparator hblank
  · rw [hsign]
    rfl

theorem brackets_string {body : List (Char × Region)} (h : ∀ b ∈ body, b.2 = string) (place : Nat) :
    brackets place (('"', code) :: body) = [] := by
  refine brackets_eq_nil (List.forall_mem_cons.2 ⟨fun _ => rfl, fun b hb hcode => ?_⟩) place
  rw [h b hb] at hcode
  cases hcode

/-- The brackets of one token. -/
theorem Spans.brackets {l : Lexeme} {token : List (Char × Region)} (h : Spans l.token token) {place : Nat}
    (hstop : l.stop = place + token.length) : brackets place token = l.bracket?.toList := by
  unfold Lexeme.bracket?
  generalize l.token = t at h
  cases h with
  | symbol s =>
    have hplace : l.stop - 1 = place := by rw [hstop]; rfl
    rw [hplace]
    cases s <;> rfl
  | string value hbody => exact brackets_string hbody place
  | plain hsymbol hstring hbytes =>
    have hnone : Region.brackets place token = [] := by
      refine brackets_eq_nil (fun b hb _ => ?_) place
      have hmark := (hbytes b hb).2
      simp only [isMark, Bool.or_eq_false_iff] at hmark
      exact hmark.1.1
    cases t with
    | symbol s => exact absurd rfl (hsymbol s)
    | _ => exact hnone

theorem Cuts.brackets {place : Nat} {bytes : List (Char × Region)} {ls : List Lexeme} (h : Cuts place bytes ls) :
    ls.filterMap Lexeme.bracket? = brackets place bytes := by
  induction h with
  | nil hgap => rw [brackets_gap hgap, List.filterMap_nil]
  | @cons place gap token rest l more hgap htoken hstop _ ih =>
    rw [brackets_append, brackets_append, brackets_gap hgap, htoken.brackets hstop, ← hstop, ← ih,
      List.filterMap_cons]
    cases l.bracket? <;> rfl
  | unclosed hgap hbody htoken hstop =>
    rw [brackets_append, brackets_gap hgap, brackets_string hbody]
    simp [Lexeme.bracket?, htoken]

/-- A byte order mark has no bracket. -/
theorem brackets_ofText (text : String) :
    brackets 0 (read code (units text.toList)).1 =
      brackets (Cursor.ofText text).offset (read code (units (Cursor.ofText text).rest)).1 := by
  unfold Cursor.ofText
  split
  · rename_i rest htext
    have hmark : read code (unit '\ufeff') = ((unit '\ufeff').map (·, code), code) := by decide +kernel
    have hnone : brackets 0 ((unit '\ufeff').map (·, code)) = [] := by decide +kernel
    have hlength : 0 + ((unit '\ufeff').map (·, code)).length = 3 := by decide +kernel
    rw [htext, units_cons, read_append (by rw [hmark]; exact nofun), hmark, brackets_append, hnone, hlength]
    rfl
  · rfl

/-- **The brackets among the tokens are those of the code**, one for one: whatever malformed words, identifiers
and numbers stand in a text, a reader that only tells code, comments and strings apart meets the brackets
that the scanner finds, at the same bytes, and cuts the text as the scanner does. -/
theorem bracket_lexemes (text : String) (lines : Nat) (header : Option Header) :
    let c := Cursor.behindLines text lines
    let bytes := (read code ((units text.toList).drop c.offset)).1
    (c.lexemes header).1.filterMap Lexeme.bracket? = brackets c.offset bytes ∧
    Cuts c.offset bytes (c.lexemes header).1 ∧
    ((Cursor.ofText text).lexemes header).1.filterMap Lexeme.bracket? =
      brackets 0 (read code (units text.toList)).1 := by
  intro c bytes
  have hbytes : bytes = (read code (units c.rest)).1 := by
    rw [← (Cursor.isPlaced_behindLines text lines).isIn.drop_units]
  rw [hbytes, brackets_ofText]
  exact ⟨(cuts_lexemes header c).brackets, cuts_lexemes header c, (cuts_lexemes header (.ofText text)).brackets⟩

/-- Malformed words hide no bracket, a string and a comment do. -/
example : brackets 0 (read code "0x\x7b \"[\\\"[\"] # \x7d\n1e\x7d".toList).1 =
    [(2, '\x7b'), (10, ']'), (18, '\x7d')] := by
  decide

end Region

end SceneGraph
