import SceneGraph.Proofs.Document.Bytes
import SceneGraph.Proofs.Document.Running

/-!
# Scanning with a token looked ahead

A scanner holds a place of a text and at most one token that it has looked at. Whatever is asked of it,
it is behind some number of tokens, with the next one looked at or not: `Scanner.IsBehind`. So the tokens
that are popped are those of the text one after another, and the place moves from the end of one token
to the end of the next.

A place has a line and a column. They are counted along with the characters that are taken, and come to
what the bytes in front of the place say (`Position.ofByte`).

* `Cursor.IsPlaced`: a place between two characters, with the line and the column that its bytes give.
* `Cursor.IsPlaced.isFound_getElem`: the tokens of a text follow each other.
* `Scanner.IsBehind.run`: whatever is called, a scanner is behind some of the tokens.
* `Scanner.IsBehind.exec_readAll`: readers of a document take the same tokens off its list of lexemes.
* `Scanner.run_advances`: what is popped and where a scanner is, for every text and all calls.
-/

namespace SceneGraph

/-! ### Lines and columns by bytes -/

namespace Position

/-- The place behind some bytes: a line for every line break, and a column for every byte behind the
last one. -/
def behind (bytes : List Char) : Position :=
  ⟨1 + bytes.count '\n', 1 + (bytes.reverse.takeWhile (· != '\n')).length⟩

/-- The line and the column of a byte of a text; a byte order mark in front does not count. -/
def ofByte (text : String) (n : Nat) : Position :=
  behind (((units text.toList).take n).drop (Cursor.ofText text).offset)

theorem behind_append_unit (bytes : List Char) (c : Char) : behind (bytes ++ unit c) = (behind bytes).after c := by
  by_cases hc : c = '\n'
  · subst hc
    have hunit : unit '\n' = ['\n'] := unit_of_lt (by decide)
    simp [behind, after, hunit, Nat.add_assoc]
  · -- no byte of the character is a line break
    have hbytes : ∀ d ∈ unit c, (d != '\n') = true := fun d hd => by
      rcases unit_cases c with ⟨-, hunit⟩ | ⟨hle, -⟩
      · rw [hunit, List.mem_singleton] at hd
        simpa [hd] using hc
      · simp [bne, ne_of_le (le_of_mem_unit hle hd) (d := '\n') (by decide)]
    have hcount : (unit c).count '\n' = 0 :=
      List.count_eq_zero.2 fun hmem => by simpa using hbytes _ hmem
    have htake : ((bytes ++ unit c).reverse.takeWhile (· != '\n')).length =
        c.utf8Size + (bytes.reverse.takeWhile (· != '\n')).length := by
      rw [List.reverse_append, List.takeWhile_append_of_pos fun d hd => hbytes d (List.mem_reverse.1 hd),
        List.length_append, List.length_reverse, length_unit]
    rw [behind, htake, List.count_append, hcount, after, if_neg hc, behind, Nat.add_zero, Nat.add_assoc,
      Nat.add_comm c.utf8Size]

theorem behind_append_units (bytes cs : List Char) : behind (bytes ++ units cs) = (behind bytes).afterAll cs := by
  induction cs generalizing bytes with
  | nil => rw [units_nil, List.append_nil]; rfl
  | cons c cs ih => rw [units_cons, ← List.append_assoc, ih, behind_append_unit]; rfl

end Position

/-! ### Places -/

namespace Cursor

variable {text : String} {header : Option Header} {c : Cursor}

/-- A place between two characters of a text, with the line and the column that its bytes give. -/
structure IsPlaced (text : String) (c : Cursor) : Prop where
  isIn : c.IsIn text
  le : (ofText text).offset ≤ c.offset
  position : c.position = Position.ofByte text c.offset

theorem isPlaced_ofText (text : String) : (ofText text).IsPlaced text := by
  refine ⟨isIn_ofText text, Nat.le_refl _, ?_⟩
  have hstart : (ofText text).position = .start := by
    unfold ofText
    split <;> rfl
  rw [hstart, Position.ofByte, List.drop_take, Nat.sub_self]
  rfl

namespace IsPlaced

theorem after (h : c.IsPlaced text) {taken rest : List Char} (hrest : c.rest = taken ++ rest) :
    (c.after taken rest).IsPlaced text := by
  have hin := h.isIn.after hrest
  refine ⟨hin, Nat.le_trans h.le (Nat.le_add_right _ _), ?_⟩
  obtain ⟨before, htext, hoffset⟩ := h.isIn
  have hlength : (units before).length = c.offset := by rw [length_units, hoffset]
  have hbefore : (units text.toList).take c.offset = units before := by
    rw [htext, units_append, ← hlength, List.take_left]
  have hafter : (units text.toList).take (c.offset + byteLength taken) = units before ++ units taken := by
    rw [htext, hrest, units_append, units_append, ← hlength, ← length_units, ← List.length_append,
      ← List.append_assoc, List.take_left]
  change c.position.afterAll taken = Position.ofByte text (c.offset + byteLength taken)
  rw [Position.ofByte, hafter, List.drop_append_of_le_length (by rw [hlength]; exact h.le),
    Position.behind_append_units, h.position, Position.ofByte, hbefore]

theorem readLine (h : c.IsPlaced text) : c.readLine.2.IsPlaced text := by
  obtain ⟨taken, rest, hrest, heq⟩ := c.exists_readLine
  exact heq ▸ h.after hrest

theorem skipBlanks (h : c.IsPlaced text) : c.skipBlanks.IsPlaced text :=
  h.after (splitBlanks_append_eq false c.rest).symm

end IsPlaced

/-! ### One token after another -/

/-- A place behind some lines of a text. -/
def behindLines (text : String) : Nat → Cursor
  | 0 => ofText text
  | n + 1 => (behindLines text n).readLine.2

theorem isPlaced_behindLines (text : String) (n : Nat) : (behindLines text n).IsPlaced text := by
  induction n with
  | zero => exact isPlaced_ofText text
  | succ n ih => exact ih.readLine

/-- The next token and where it stands, or the end of the text; and the place behind it. -/
def scan (header : Option Header) (c : Cursor) : (Option Token × Position) × Cursor :=
  let here := c.skipBlanks
  match here.rest with
  | [] => ((none, here.position), here)
  | x :: r =>
    let lexed := Lexed.first header x r
    ((some lexed.token, here.position), here.after lexed.raw lexed.rest)

/-- The place behind some tokens. -/
def behindTokens (header : Option Header) (c : Cursor) : Nat → Cursor
  | 0 => c
  | n + 1 => ((behindTokens header c n).scan header).2

theorem scan_of_nil (h : c.skipBlanks.rest = []) :
    c.scan header = ((none, c.skipBlanks.position), c.skipBlanks) := by
  simp only [scan, h]

theorem scan_of_cons {x : Char} {r : List Char} (h : c.skipBlanks.rest = x :: r) :
    c.scan header = ((some (Lexed.first header x r).token, c.skipBlanks.position),
      c.skipBlanks.after (Lexed.first header x r).raw (Lexed.first header x r).rest) := by
  simp only [scan, h]

theorem lexemes_of_nil (h : c.skipBlanks.rest = []) : c.lexemes header = ([], c.skipBlanks) := by
  rw [← lexemesUpTo_eq (Nat.le_succ _), lexemesUpTo]
  simp only [h]

theorem lexemes_of_cons {x : Char} {r : List Char} (h : c.skipBlanks.rest = x :: r) :
    c.lexemes header =
      (⟨(Lexed.first header x r).token, c.skipBlanks.position, (c.scan header).2.offset⟩ ::
        ((c.scan header).2.lexemes header).1, ((c.scan header).2.lexemes header).2) := by
  have hlength : (Lexed.first header x r).rest.length ≤ c.rest.length := by
    have hskip : c.skipBlanks.rest.length ≤ c.rest.length := length_splitBlanks_le false c.rest
    rw [h, List.length_cons] at hskip
    have hfirst := Lexed.length_rest_first_le header x r
    omega
  rw [← lexemesUpTo_eq (Nat.le_succ _), lexemesUpTo, scan_of_cons h]
  simp only [h]
  rw [lexemesUpTo_eq hlength]

/-- At the end of a text there is nothing to skip. -/
theorem skipBlanks_of_nil (h : c.rest = []) : c.skipBlanks = c := by
  cases c
  subst h
  rfl

/-- Where a token stands among those behind a place, or the end of the text. -/
def placeOf (header : Option Header) (c : Cursor) (n : Nat) : Position :=
  ((c.lexemes header).1[n]?.map (·.position)).getD (c.lexemes header).2.position

/-- **Behind some tokens of a text the others are left.** -/
theorem lexemes_behindTokens (header : Option Header) (c : Cursor) (n : Nat) :
    (c.behindTokens header n).lexemes header = ((c.lexemes header).1.drop n, (c.lexemes header).2) := by
  induction n with
  | zero => rfl
  | succ n ih =>
    rw [behindTokens]
    generalize c.behindTokens header n = here at ih ⊢
    cases hrest : here.skipBlanks.rest with
    | nil =>
      -- the end of the text is found again and again
      rw [lexemes_of_nil hrest, Prod.mk.injEq] at ih
      have hskip := skipBlanks_of_nil hrest
      rw [scan_of_nil hrest, lexemes_of_nil (by rw [hskip, hrest]), hskip, ← ih.2, ← List.drop_drop, ← ih.1]
      rfl
    | cons x r =>
      rw [lexemes_of_cons hrest, Prod.mk.injEq] at ih
      rw [← List.drop_drop, ← ih.1, ← ih.2]
      rfl

/-- The scan finds the first of the lexemes, or the end of the text. -/
theorem scan_eq (header : Option Header) (c : Cursor) :
    (c.scan header).1 = ((c.lexemes header).1.head?.map (·.token),
      ((c.lexemes header).1.head?.map (·.position)).getD (c.lexemes header).2.position) ∧
    (c.scan header).2.offset = ((c.lexemes header).1.head?.map (·.stop)).getD (c.lexemes header).2.offset := by
  cases hrest : c.skipBlanks.rest with
  | nil => rw [lexemes_of_nil hrest, scan_of_nil hrest]; exact ⟨rfl, rfl⟩
  | cons x r => rw [lexemes_of_cons hrest]; exact ⟨by rw [scan_of_cons hrest]; rfl, rfl⟩

theorem IsPlaced.scan (h : c.IsPlaced text) : (c.scan header).2.IsPlaced text := by
  cases hrest : c.skipBlanks.rest with
  | nil => rw [scan_of_nil hrest]; exact h.skipBlanks
  | cons x r =>
    rw [scan_of_cons hrest]
    exact h.skipBlanks.after (hrest.trans (Lexed.raw_append_rest header x r).symm)

theorem IsPlaced.behindTokens (h : c.IsPlaced text) (n : Nat) : (c.behindTokens header n).IsPlaced text := by
  induction n with
  | zero => exact h
  | succ n ih => exact ih.scan

/-- The place behind the last blank. -/
theorem IsPlaced.lexemes (h : c.IsPlaced text) :
    (c.lexemes header).2.offset = text.utf8ByteSize ∧
      (c.lexemes header).2.position = Position.ofByte text text.utf8ByteSize := by
  -- behind all tokens there is nothing left but blanks
  have hlast := lexemes_behindTokens header c (c.lexemes header).1.length
  have hplaced : (c.behindTokens header (c.lexemes header).1.length).skipBlanks.IsPlaced text :=
    (h.behindTokens _).skipBlanks
  rw [List.drop_length] at hlast
  generalize c.behindTokens header (c.lexemes header).1.length = last at hlast hplaced
  cases hrest : last.skipBlanks.rest with
  | cons x r =>
    rw [lexemes_of_cons hrest] at hlast
    cases (Prod.mk.inj hlast).1
  | nil =>
    rw [lexemes_of_nil hrest] at hlast
    rw [← (Prod.mk.inj hlast).2, hplaced.position]
    obtain ⟨before, htext, hoffset⟩ := hplaced.isIn
    have hsize : last.skipBlanks.offset = text.utf8ByteSize := by
      rw [hoffset, ← String.ofList_toList (s := text), utf8ByteSize_ofList, htext, hrest, List.append_nil]
    exact ⟨hsize, by rw [hsize]⟩

/-- How many bytes of a text are gone with so many of the tokens behind a place: those up to the end of the
last one, or all of them if there are not so many tokens. -/
def consumed (text : String) (header : Option Header) (c : Cursor) : Nat → Nat
  | 0 => c.offset
  | n + 1 => ((c.lexemes header).1[n]?.map (·.stop)).getD text.utf8ByteSize

theorem consumed_of_lt {n : Nat} (h : (c.lexemes header).1.length < n) :
    c.consumed text header n = text.utf8ByteSize := by
  obtain ⟨n, rfl⟩ := Nat.exists_eq_succ_of_ne_zero (Nat.ne_of_gt (Nat.zero_lt_of_lt h))
  rw [consumed, List.getElem?_eq_none (Nat.le_of_lt_succ h)]
  rfl

theorem IsPlaced.offset_behindTokens (h : c.IsPlaced text) (n : Nat) :
    (c.behindTokens header n).offset = c.consumed text header n := by
  cases n with
  | zero => rfl
  | succ n =>
    change ((c.behindTokens header n).scan header).2.offset = _
    rw [(scan_eq header _).2, lexemes_behindTokens, List.head?_drop, h.lexemes.1]
    rfl

end Cursor

/-- A token that is found behind some bytes of a text: only blanks stand in front, it takes the bytes
of its characters, and its line and its column are those of its first byte. -/
def Lexeme.IsFound (text : String) (header : Option Header) (n : Nat) (l : Lexeme) : Prop :=
  ∃ before blanks x r, text.toList = before ++ (blanks ++ x :: r) ∧ byteLength before = n ∧
    splitBlanks false (blanks ++ x :: r) = (blanks, x :: r) ∧
    l.token = (Lexed.first header x r).token ∧
    l.position = Position.ofByte text (n + byteLength blanks) ∧
    l.stop = n + byteLength blanks + byteLength (Lexed.first header x r).raw

namespace Cursor

variable {text : String} {header : Option Header} {c : Cursor}

theorem IsPlaced.isFound (h : c.IsPlaced text) {l : Lexeme} (hl : (c.lexemes header).1.head? = some l) :
    l.IsFound text header c.offset := by
  cases hrest : c.skipBlanks.rest with
  | nil => rw [lexemes_of_nil hrest] at hl; cases hl
  | cons x r =>
    rw [lexemes_of_cons hrest] at hl
    obtain rfl := Option.some.inj hl
    obtain ⟨before, htext, hoffset⟩ := h.isIn
    have hsplit : splitBlanks false c.rest = ((splitBlanks false c.rest).1, x :: r) := by rw [← hrest]; rfl
    have happend : (splitBlanks false c.rest).1 ++ x :: r = c.rest := by
      rw [← hrest]
      exact splitBlanks_append_eq false c.rest
    refine ⟨before, (splitBlanks false c.rest).1, x, r, ?_, hoffset.symm, ?_, rfl, h.skipBlanks.position, ?_⟩
    · rw [happend, htext]
    · rw [happend, hsplit]
    · rw [scan_of_cons hrest]
      rfl

end Cursor

theorem Lexeme.IsFound.lt {text : String} {header : Option Header} {n : Nat} {l : Lexeme}
    (h : l.IsFound text header n) : n < l.stop := by
  obtain ⟨-, blanks, x, r, -, -, -, -, -, hstop⟩ := h
  have hraw := congrArg List.length (Lexed.raw_append_rest header x r)
  have hrest := Lexed.length_rest_first_le header x r
  have hbytes := length_le_byteLength (Lexed.first header x r).raw
  rw [List.length_append, List.length_cons] at hraw
  omega

namespace Cursor

variable {text : String} {header : Option Header} {c : Cursor}

/-- **A scan by bytes finds the tokens of a text**, and each stands where its first byte says. -/
theorem IsPlaced.forall₂_scan (h : c.IsPlaced text) (n : Nat) :
    List.Forall₂ (fun t l => l.stop = t.stop ∧ l.position = Position.ofByte text t.start)
      (ByteToken.scan header n c.offset (units c.rest)) (c.lexemesUpTo header n).1 := by
  induction n generalizing c with
  | zero => exact .nil
  | succ n ih =>
    rw [lexemesUpTo]
    cases hrest : c.skipBlanks.rest with
    | nil => rw [ByteToken.scan_of_nil hrest]; exact .nil
    | cons x r =>
      rw [ByteToken.scan_of_cons hrest]
      exact .cons ⟨rfl, h.skipBlanks.position⟩
        (ih (h.skipBlanks.after (hrest.trans (Lexed.raw_append_rest header x r).symm)))

/-- **The tokens of a text follow each other**, and each of them takes a byte at least. -/
theorem IsPlaced.isFound_getElem (h : c.IsPlaced text) {n : Nat} {l : Lexeme}
    (hl : (c.lexemes header).1[n]? = some l) :
    l.IsFound text header (c.consumed text header n) ∧
      c.consumed text header n < c.consumed text header (n + 1) := by
  have hfound : l.IsFound text header (c.consumed text header n) := by
    rw [← h.offset_behindTokens]
    exact (h.behindTokens n).isFound (by rw [lexemes_behindTokens, List.head?_drop, hl])
  refine ⟨hfound, ?_⟩
  have hstop : c.consumed text header (n + 1) = l.stop := by rw [consumed, hl]; rfl
  exact hstop ▸ hfound.lt

/-- There are no more tokens than bytes. -/
theorem IsPlaced.length_lexemes_le (h : c.IsPlaced text) :
    c.offset + (c.lexemes header).1.length ≤ text.utf8ByteSize := by
  have hle : ∀ n, n ≤ (c.lexemes header).1.length → c.offset + n ≤ c.consumed text header n := by
    intro n hn
    induction n with
    | zero => exact Nat.le_refl _
    | succ n ih =>
      have hlt := (h.isFound_getElem (List.getElem?_eq_getElem hn)).2
      have ih := ih (Nat.le_of_succ_le hn)
      omega
  refine Nat.le_trans (hle _ (Nat.le_refl _)) ?_
  rw [← h.offset_behindTokens]
  exact (h.behindTokens _).isIn.isSlice.le

end Cursor

/-! ### Scanners -/

/-- What accepts a token or the end of a text, or refuses it and gives it back. -/
structure Acceptor where
  accept : Option Token → Except (Option Token) Unit
  gives_back : ∀ {t u}, accept t = .error u → u = t

/-- A place of a text, and the token in front of it that has not been popped yet. -/
structure Scanner where
  cursor : Cursor
  /-- What comes next and where it stands, if it has been looked at. -/
  peeked : Option (Option Token × Position) := none
  /-- Where stands what was popped last. -/
  last : Position := .start

namespace Scanner

/-- What can be asked of a scanner. -/
inductive Call where
  | peek
  | position
  | pop
  | popWith (a : Acceptor)

variable (header : Option Header)

/-- What comes next with where it stands, and the place behind it. -/
def ahead (s : Scanner) : (Option Token × Position) × Cursor :=
  match s.peeked with
  | some next => (next, s.cursor)
  | none => s.cursor.scan header

/-- The next token, which is not taken. -/
def peek (s : Scanner) : Option Token × Scanner :=
  let (next, cursor) := s.ahead header
  (next.1, { s with cursor, peeked := some next })

/-- Where the next token stands. -/
def position (s : Scanner) : Position × Scanner :=
  let (next, cursor) := s.ahead header
  (next.2, { s with cursor, peeked := some next })

/-- Takes the next token. -/
def pop (s : Scanner) : Option Token × Scanner :=
  let (next, cursor) := s.ahead header
  (next.1, { cursor, last := next.2 })

/-- Takes the next token if it is accepted. What is refused stays next. -/
def popWith (a : Acceptor) (s : Scanner) : Option (Option Token) × Scanner :=
  let (next, cursor) := s.ahead header
  match a.accept next.1 with
  | .ok () => (some next.1, { cursor, last := next.2 })
  | .error t => (none, { s with cursor, peeked := some (t, next.2) })

/-- What a call pops, if it pops something. -/
def step : Call → Scanner → Option (Option Token) × Scanner
  | .peek, s => (none, (s.peek header).2)
  | .position, s => (none, (s.position header).2)
  | .pop, s => (some (s.pop header).1, (s.pop header).2)
  | .popWith a, s => s.popWith header a

/-- What some calls pop. -/
def run : List Call → Scanner → List (Option Token) × Scanner
  | [], s => ([], s)
  | call :: calls, s =>
    let (popped?, s) := s.step header call
    let (popped, s) := run calls s
    (popped?.toList ++ popped, s)

/-- As many tokens have been popped, and the next one has been looked at or not. -/
structure IsBehind (header : Option Header) (c : Cursor) (n : Nat) (s : Scanner) : Prop where
  peeked : s.peeked = none ∨ s.peeked = some ((c.behindTokens header n).scan header).1
  cursor : s.cursor = c.behindTokens header (n + if s.peeked.isSome then 1 else 0)
  last : ∀ k, n = k + 1 → s.last = c.placeOf header k

variable {header} {c : Cursor} {n : Nat} {s : Scanner}

namespace IsBehind

theorem ahead (h : IsBehind header c n s) : s.ahead header = (c.behindTokens header n).scan header := by
  have hcursor := h.cursor
  rcases h.peeked with hnone | hsome
  · rw [hnone] at hcursor
    rw [Scanner.ahead, hnone, hcursor]
    rfl
  · rw [hsome] at hcursor
    rw [Scanner.ahead, hsome, hcursor]
    rfl

theorem ahead_token (h : IsBehind header c n s) :
    (s.ahead header).1.1 = (c.lexemes header).1[n]?.map (·.token) := by
  rw [h.ahead, (Cursor.scan_eq header _).1, Cursor.lexemes_behindTokens, List.head?_drop]

theorem ahead_position (h : IsBehind header c n s) : (s.ahead header).1.2 = c.placeOf header n := by
  rw [h.ahead, (Cursor.scan_eq header _).1, Cursor.lexemes_behindTokens, List.head?_drop]
  rfl

/-- The next token has been looked at. -/
theorem look (h : IsBehind header c n s) :
    IsBehind header c n ⟨(s.ahead header).2, some (s.ahead header).1, s.last⟩ :=
  ⟨.inr (congrArg (some ·.1) h.ahead), congrArg Prod.snd h.ahead, h.last⟩

/-- The next token is gone. -/
theorem take (h : IsBehind header c n s) :
    IsBehind header c (n + 1) ⟨(s.ahead header).2, none, (s.ahead header).1.2⟩ :=
  ⟨.inl rfl, congrArg Prod.snd h.ahead, fun _ hk => Nat.succ.inj hk ▸ h.ahead_position⟩

/-- A call pops the next token or nothing. -/
theorem step (h : IsBehind header c n s) (call : Call) :
    IsBehind header c (n + (s.step header call).1.toList.length) (s.step header call).2 ∧
      ∀ t ∈ (s.step header call).1, t = (c.lexemes header).1[n]?.map (·.token) := by
  cases call with
  | peek => exact ⟨h.look, fun _ ht => by cases ht⟩
  | position => exact ⟨h.look, fun _ ht => by cases ht⟩
  | pop => exact ⟨h.take, fun t ht => (Option.some.inj ht).symm.trans h.ahead_token⟩
  | popWith a =>
    cases haccept : a.accept (s.ahead header).1.1 with
    | ok _ =>
      simp only [Scanner.step, popWith, haccept]
      exact ⟨h.take, fun t ht => (Option.some.inj ht).symm.trans h.ahead_token⟩
    | error t =>
      -- what is refused stays next, so that nothing changes
      obtain rfl := a.gives_back haccept
      simp only [Scanner.step, popWith, haccept]
      exact ⟨h.look, fun _ ht => by cases ht⟩

/-- Some calls pop the tokens that come next. -/
theorem run (h : IsBehind header c n s) (calls : List Call) :
    IsBehind header c (n + (run header calls s).1.length) (run header calls s).2 ∧
      (Scanner.run header calls s).1 = (List.range' n (Scanner.run header calls s).1.length).map fun i =>
        (c.lexemes header).1[i]?.map (·.token) := by
  induction calls generalizing n s with
  | nil => exact ⟨h, rfl⟩
  | cons call calls ih =>
    obtain ⟨hstep, htoken⟩ := h.step call
    obtain ⟨hrun, hpopped⟩ := ih hstep
    rw [Scanner.run]
    dsimp only
    rw [List.length_append, ← Nat.add_assoc]
    refine ⟨hrun, ?_⟩
    rw [← List.range'_append_1, List.map_append, ← hpopped]
    cases hpop : (s.step header call).1 with
    | none => rfl
    | some t => rw [htoken t hpop]; rfl

end IsBehind

/-! ### Readers -/

/-- What a reader of a document does for a call. -/
def Call.read (ctx : DocumentContext) : Call → Reader (List (Option Token))
  | .peek => do
    let _ ← Reader.peek?
    return []
  | .position => do
    let _ ← Reader.position ctx
    return []
  | .pop => do
    let t ← Reader.peek?
    Reader.pop ctx
    return [t]
  | .popWith a => do
    let t ← Reader.peek?
    match a.accept t with
    | .ok () =>
      Reader.pop ctx
      return [t]
    | .error _ => return []

/-- What a reader of a document does for some calls. -/
def readAll (ctx : DocumentContext) : List Call → Reader (List (Option Token))
  | [] => return []
  | call :: calls => do
    let popped ← call.read ctx
    return popped ++ (← readAll ctx calls)

open Reader (exec exec_bind_ok)

variable {ctx : DocumentContext}

theorem exec_pop_eq (ctx : DocumentContext) (r : ReaderState) : exec (Reader.pop ctx) r =
    (.ok ⟨⟩, { r with
      lexemes := r.lexemes.tail
      last := (r.lexemes.head?.map (·.position)).getD ctx.stop }) := by
  rw [Reader.pop, Reader.exec_modify]
  rcases r with ⟨_ | ⟨l, ls⟩⟩ <;> rfl

/-- A reader of a document pops what a scanner pops. -/
theorem IsBehind.exec_read (h : IsBehind header c n s) (hstop : ctx.stop = (c.lexemes header).2.position) (call : Call)
    {r : ReaderState} (hlexemes : r.lexemes = (c.lexemes header).1.drop n) (hlast : r.last = s.last) :
    exec (call.read ctx) r = (.ok (s.step header call).1.toList, { r with
      lexemes := (c.lexemes header).1.drop (n + (s.step header call).1.toList.length)
      last := (s.step header call).2.last }) := by
  have htoken : r.tokens.head? = (s.ahead header).1.1 := by
    rw [h.ahead_token, ReaderState.tokens, List.head?_map, hlexemes, List.head?_drop]
  -- nothing changes unless a token is popped
  have hsame : r = { r with lexemes := (c.lexemes header).1.drop n, last := s.last } := by rw [← hlexemes, ← hlast]
  have hpop : exec (do Reader.pop ctx; return [(s.ahead header).1.1]) r =
      (.ok [(s.ahead header).1.1], { r with
        lexemes := (c.lexemes header).1.drop (n + 1)
        last := (s.ahead header).1.2 }) := by
    rw [exec_bind_ok (exec_pop_eq ctx r), Reader.exec_pure, hlexemes, List.tail_drop, List.head?_drop, hstop,
      h.ahead_position]
    rfl
  cases call with
  | peek => exact congrArg (_, ·) hsame
  | position => exact congrArg (_, ·) hsame
  | pop =>
    rw [Call.read, exec_bind_ok (Reader.exec_peek? r), htoken]
    exact hpop
  | popWith a =>
    rw [Call.read, exec_bind_ok (Reader.exec_peek? r), htoken]
    cases haccept : a.accept (s.ahead header).1.1 with
    | ok _ =>
      simp only [Scanner.step, popWith, haccept]
      exact hpop
    | error _ =>
      simp only [Scanner.step, popWith, haccept]
      exact congrArg (_, ·) hsame

theorem IsBehind.exec_readAll (h : IsBehind header c n s) (hstop : ctx.stop = (c.lexemes header).2.position)
    (calls : List Call) {r : ReaderState} (hlexemes : r.lexemes = (c.lexemes header).1.drop n)
    (hlast : r.last = s.last) :
    exec (readAll ctx calls) r = (.ok (Scanner.run header calls s).1, { r with
      lexemes := (c.lexemes header).1.drop (n + (Scanner.run header calls s).1.length)
      last := (Scanner.run header calls s).2.last }) := by
  induction calls generalizing n s r with
  | nil =>
    rw [readAll, Reader.exec_pure]
    change (_, r) = (_, { r with lexemes := (c.lexemes header).1.drop n, last := s.last })
    rw [← hlexemes, ← hlast]
    rfl
  | cons call calls ih =>
    have hrest := ih (h.step call).1 (r := { r with
      lexemes := (c.lexemes header).1.drop (n + (s.step header call).1.toList.length)
      last := (s.step header call).2.last }) rfl rfl
    rw [readAll, exec_bind_ok (h.exec_read hstop call hlexemes hlast), exec_bind_ok hrest, Scanner.run,
      Reader.exec_pure]
    dsimp only
    rw [List.length_append, Nat.add_assoc]

/-! ### Whatever is called -/

/-- As many pops pop as many tokens. -/
theorem length_run_pop (header : Option Header) (n : Nat) (s : Scanner) :
    (Scanner.run header (.replicate n .pop) s).1.length = n := by
  induction n generalizing s with
  | zero => rfl
  | succ n ih => rw [List.replicate_succ, Scanner.run, List.length_append, ih, Nat.add_comm]; rfl

/-- Where a scanner of a text is that has been started at a place and has popped some tokens. -/
structure Advances (text : String) (header : Option Header) (c : Cursor) (popped : List (Option Token))
    (s : Scanner) : Prop where
  /-- The place is between two characters. -/
  isSlice : IsSlice text s.cursor.offset text.utf8ByteSize
  /-- The tokens are those of the text, one after another. -/
  tokens : popped = (List.range popped.length).map fun n => (c.lexemes header).1[n]?.map (·.token)
  /-- The tokens are gone, and the next one too if it has been looked at. -/
  offset : s.cursor.offset = c.consumed text header (popped.length + if s.peeked.isSome then 1 else 0)
  /-- All of the text is gone once its end has been popped. -/
  ended : none ∈ popped → s.cursor.offset = text.utf8ByteSize
  peek : (s.peek header).1 = (c.lexemes header).1[popped.length]?.map (·.token)
  position : (s.position header).1 = c.placeOf header popped.length
  last : ∀ n, popped.length = n + 1 → s.last = c.placeOf header n

theorem IsBehind.start (header : Option Header) (c : Cursor) : IsBehind header c 0 { cursor := c } :=
  ⟨.inl rfl, rfl, fun _ hk => by cases hk⟩

theorem IsBehind.advances {text : String} (hc : c.IsPlaced text) (calls : List Call) :
    Advances text header c (Scanner.run header calls { cursor := c }).1
      (Scanner.run header calls { cursor := c }).2 := by
  obtain ⟨hbehind, htokens⟩ := (IsBehind.start header c).run calls
  rw [Nat.zero_add] at hbehind
  rw [← List.range_eq_range'] at htokens
  generalize hrun : Scanner.run header calls { cursor := c } = r at hbehind htokens ⊢
  obtain ⟨popped, s⟩ := r
  have hplaced : s.cursor.IsPlaced text := hbehind.cursor ▸ hc.behindTokens _
  have hoffset : s.cursor.offset = c.consumed text header (popped.length + if s.peeked.isSome then 1 else 0) := by
    rw [hbehind.cursor, hc.offset_behindTokens]
  refine ⟨hplaced.isIn.isSlice, htokens, hoffset, fun hend => ?_, hbehind.ahead_token, hbehind.ahead_position,
    hbehind.last⟩
  -- one of the tokens popped was the end
  rw [htokens] at hend
  obtain ⟨n, hn, hnone⟩ := List.mem_map.1 hend
  have hlength : (c.lexemes header).1.length ≤ n := List.getElem?_eq_none_iff.1 (Option.map_eq_none_iff.1 hnone)
  have hn : n < popped.length := List.mem_range.1 hn
  rw [hoffset, Cursor.consumed_of_lt (by omega)]

/-- **A scanner goes through the tokens of a text one after another, whatever is asked of it.**
However many lines of a text are read first and whatever is called then, the scanner stays between two
characters; every token takes a byte at least, and stands at the line and the column of its first byte;
and what is popped is what the same number of pops give alone, and what readers of the document take. -/
theorem run_advances (text : String) (lines : Nat) (header : Option Header) (calls : List Call) :
    let c := Cursor.behindLines text lines
    let popped := (Scanner.run header calls { cursor := c }).1
    let s := (Scanner.run header calls { cursor := c }).2
    Advances text header c popped s ∧
    -- there are no more tokens than bytes, and each of them takes some
    c.offset + (c.lexemes header).1.length ≤ text.utf8ByteSize ∧
    (∀ n l, (c.lexemes header).1[n]? = some l → c.consumed text header n < c.consumed text header (n + 1)) ∧
    -- where the tokens stand, as a scan by bytes finds them, and where the text ends
    List.Forall₂ (fun t l => l.stop = t.stop ∧ l.position = Position.ofByte text t.start)
      (ByteToken.scan header text.utf8ByteSize c.offset ((units text.toList).drop c.offset)) (c.lexemes header).1 ∧
    (∀ n (l : Lexeme), (c.lexemes header).1[n]? = some l → l.IsFound text header (c.consumed text header n)) ∧
    (c.lexemes header).2.position = Position.ofByte text text.utf8ByteSize ∧
    -- only pops count
    popped = (Scanner.run header (.replicate popped.length .pop) { cursor := c }).1 ∧
    ∀ (ctx : DocumentContext) (r : ReaderState), exec (readAll { ctx with stop := (c.lexemes header).2.position } calls)
        { r with lexemes := (c.lexemes header).1, last := .start } =
      (.ok popped, { r with lexemes := (c.lexemes header).1.drop popped.length, last := s.last }) := by
  intro c popped s
  have hc : c.IsPlaced text := Cursor.isPlaced_behindLines text lines
  have hadvances : Advances text header c popped s := IsBehind.advances hc calls
  refine ⟨hadvances, hc.length_lexemes_le, fun n l hl => (hc.isFound_getElem hl).2,
    ?_, fun n l hl => (hc.isFound_getElem hl).1, hc.lexemes.2, ?_, fun ctx r => ?_⟩
  · rw [hc.isIn.drop_units, ← Cursor.lexemesUpTo_eq hc.isIn.length_rest_le]
    exact hc.forall₂_scan _
  · have hpops := ((IsBehind.start header c).run (.replicate popped.length .pop)).2
    rw [length_run_pop, ← List.range_eq_range', ← hadvances.tokens] at hpops
    exact hpops.symm
  · have hstop : { ctx with stop := (c.lexemes header).2.position }.stop = (c.lexemes header).2.position := rfl
    have hread := (IsBehind.start header c).exec_readAll hstop calls
      (r := { r with lexemes := (c.lexemes header).1, last := .start }) rfl rfl
    rw [Nat.zero_add] at hread
    exact hread

/-- The byte order mark takes no column, and the line that is read first counts as one. -/
example : (Scanner.position none { cursor := .behindLines "\ufeff#VRML V2.0 utf8\r\n\n  Group \x7b\n\x7d" 1 }).1 =
    ⟨3, 3⟩ := by
  decide +kernel

end Scanner

end SceneGraph
