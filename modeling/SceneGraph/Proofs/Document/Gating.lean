import SceneGraph.Proofs.Document.Regions

/-!
# What a header changes

A header makes keywords of some words (`gatedWords`) and changes nothing else: whatever the header, the same
characters form a token, and a token that is not one of these words is the same (`Lexed.Regated`). A word is a
keyword if it is spelled as that keyword and the header enables it (`Keyword.ofWord?_eq_some_iff`).

* `Cursor.behindTokens_congr`: the places behind the tokens are the same under any two headers.
* `Cursor.lexemes_regated`: the tokens correspond to each other, and words are what their spelling says.
-/

namespace SceneGraph

open Numeral (startsWith)

/-- The words that are keywords under some headers only. -/
def gatedWords : List String :=
  ["META", "PROFILE", "SFVec4f", "MFVec4f", "SFMatrix3f", "MFMatrix3f", "SFMatrix4f", "MFMatrix4f"]

variable {header header' : Option Header} {c : Char} {r : List Char} {s : String}

namespace Keyword

/-- What is not enabled by every header is a gated word. -/
theorem isEnabled_of_not_mem {k : Keyword} (h : k.word ∉ gatedWords) (header : Option Header) :
    k.isEnabled header = true := by
  cases k with
  | metadata => exact absurd (by decide) h
  | profile => exact absurd (by decide) h
  | kind k =>
    have hkind : ∀ k ∈ Kind.all, k.keyword ∉ gatedWords → k.type.isExtended = false := by decide +kernel
    rw [isEnabled, hkind k (Kind.mem_all k) h]
    rfl
  | _ => rfl

example : ofWord? (some .x3d) "META" = some .metadata ∧ ofWord? (some .x3d) "SFVec4f" = none ∧
    ofWord? none "SFVec3f" = some (.kind ⟨.vector3, .single⟩) := by
  decide +kernel

/-- What a keyword is scanned as under a header. -/
def tokenUnder (header : Option Header) (k : Keyword) : Token :=
  if k.isEnabled header then .keyword k else .identifier k.word

end Keyword

/-- Two tokens are equal, or they are what a gated word is under one header and under another. -/
inductive Token.Regated (header header' : Option Header) : Token → Token → Prop
  | same (t : Token) : Regated header header' t t
  | gated {k : Keyword} (hk : k.word ∈ gatedWords) : Regated header header' (k.tokenUnder header) (k.tokenUnder header')

theorem wordToken_word (k : Keyword) : wordToken header k.word = k.tokenUnder header := by
  rw [wordToken, Keyword.tokenUnder]
  split
  · rename_i henabled
    rw [Keyword.ofWord?_eq_some_iff.2 ⟨rfl, henabled⟩]
    rfl
  · rename_i hdisabled
    have hnone : Keyword.ofWord? header k.word = none := by
      rw [Keyword.ofWord?, k.spelling.2.2, Option.filter_some, if_neg hdisabled]
    rw [hnone]
    rfl

theorem wordToken_eq_keyword_iff {k : Keyword} :
    wordToken header s = .keyword k ↔ s = k.word ∧ k.isEnabled header = true := by
  rw [← Keyword.ofWord?_eq_some_iff, wordToken]
  cases Keyword.ofWord? header s with
  | none => simp
  | some l => exact ⟨fun h => congrArg some (Token.keyword.inj h), fun h => congrArg Token.keyword (Option.some.inj h)⟩

theorem wordToken_eq_identifier_iff {name : String} :
    wordToken header s = .identifier name ↔ s = name ∧ ∀ k : Keyword, k.word = name → k.isEnabled header = false := by
  have hnone : Keyword.ofWord? header s = none ↔ ∀ k : Keyword, k.word = s → k.isEnabled header = false := by
    simp only [Option.eq_none_iff_forall_ne_some, ne_eq, Keyword.ofWord?_eq_some_iff, not_and, Bool.not_eq_true,
      eq_comm (a := s)]
  rw [wordToken]
  cases hword : Keyword.ofWord? header s with
  | none =>
    refine ⟨fun h => ?_, fun h => congrArg Token.identifier h.1⟩
    obtain rfl := Token.identifier.inj h
    exact ⟨rfl, hnone.1 hword⟩
  | some l =>
    refine ⟨fun h => ?_, fun h => ?_⟩
    · cases h
    · obtain rfl := h.1
      rw [hnone.2 h.2] at hword
      cases hword

theorem wordToken_regated (header header' : Option Header) (s : String) :
    Token.Regated header header' (wordToken header s) (wordToken header' s) := by
  by_cases hword : ∃ k : Keyword, k.word = s
  · -- a spelling belongs to one keyword only, under both headers
    obtain ⟨k, rfl⟩ := hword
    rw [wordToken_word, wordToken_word]
    by_cases hgated : k.word ∈ gatedWords
    · exact .gated hgated
    · rw [Keyword.tokenUnder, Keyword.tokenUnder, if_pos (Keyword.isEnabled_of_not_mem hgated header),
        if_pos (Keyword.isEnabled_of_not_mem hgated header')]
      exact .same _
  · have hnone : ∀ h, Keyword.ofWord? h s = none := fun h =>
      Option.eq_none_iff_forall_ne_some.2 fun k hk => hword ⟨k, (Keyword.ofWord?_eq_some_iff.1 hk).1.symm⟩
    rw [wordToken, wordToken, hnone, hnone]
    exact .same _

namespace Lexed

/-- The same characters are taken under two headers, and at most a gated word is another token. -/
structure Regated (header header' : Option Header) (l l' : Lexed) : Prop where
  token : l.token.Regated header header' l'.token
  raw : l.raw = l'.raw
  rest : l.rest = l'.rest

/-- Only words depend on the header. -/
theorem first_of_not_isWordStart (h : isWordStart c = false) (header header' : Option Header) (r : List Char) :
    first header c r = first header' c r := by
  simp only [first, h, Bool.false_eq_true, if_false]

theorem first_regated (header header' : Option Header) (c : Char) (r : List Char) :
    Regated header header' (first header c r) (first header' c r) := by
  by_cases hword : isWordStart c = true
  · rw [first_of_isWordStart hword, first_of_isWordStart hword]
    exact ⟨wordToken_regated header header' _, rfl, rfl⟩
  · rw [first_of_not_isWordStart (eq_false_of_ne_true hword) header header']
    exact ⟨.same _, rfl, rfl⟩

end Lexed

/-! ### Two headers -/

/-- Two lexemes stand at the same place, and at most a gated word is another token. -/
structure Lexeme.Regated (header header' : Option Header) (l l' : Lexeme) : Prop where
  token : l.token.Regated header header' l'.token
  position : l.position = l'.position
  stop : l.stop = l'.stop

namespace Cursor

variable {text : String} {here : Cursor}

theorem scan_congr (header header' : Option Header) (here : Cursor) : (here.scan header).2 = (here.scan header').2 := by
  cases hrest : here.skipBlanks.rest with
  | nil => rw [scan_of_nil hrest, scan_of_nil hrest]
  | cons x r =>
    have hfirst := Lexed.first_regated header header' x r
    rw [scan_of_cons hrest, scan_of_cons hrest, hfirst.raw, hfirst.rest]

/-- Behind as many tokens the place is the same under any two headers. -/
theorem behindTokens_congr (header header' : Option Header) (here : Cursor) (n : Nat) :
    here.behindTokens header n = here.behindTokens header' n := by
  induction n with
  | zero => rfl
  | succ n ih => rw [behindTokens, behindTokens, ih, scan_congr header header']

theorem lexemesUpTo_regated (header header' : Option Header) (here : Cursor) (n : Nat) :
    List.Forall₂ (Lexeme.Regated header header') (here.lexemesUpTo header n).1 (here.lexemesUpTo header' n).1 ∧
      (here.lexemesUpTo header n).2 = (here.lexemesUpTo header' n).2 := by
  induction n generalizing here with
  | zero => exact ⟨.nil, rfl⟩
  | succ n ih =>
    rw [lexemesUpTo, lexemesUpTo]
    cases hrest : here.skipBlanks.rest with
    | nil => exact ⟨.nil, rfl⟩
    | cons x r =>
      obtain ⟨htoken, hraw, htail⟩ := Lexed.first_regated header header' x r
      dsimp only
      rw [hraw, htail]
      obtain ⟨hmore, hstop⟩ := ih (here.skipBlanks.after (Lexed.first header' x r).raw (Lexed.first header' x r).rest)
      exact ⟨.cons ⟨htoken, rfl, rfl⟩ hmore, hstop⟩

end Cursor

/-! ### Spellings -/

/-- Keywords and identifiers. -/
def Token.isWord : Token → Bool
  | keyword _ | identifier _ => true
  | _ => false

/-- What some characters of a text say about the token that they form, and those behind them. -/
structure Token.IsSpelled (header : Option Header) (t : Token) (raw after : List Char) : Prop where
  keyword : ∀ k, t = .keyword k ↔ String.ofList raw = k.word ∧ k.isEnabled header = true
  identifier : ∀ name, t = .identifier name ↔
    String.ofList raw = name ∧ startsWith isWordStart raw = true ∧
      ∀ k : Keyword, k.word = name → k.isEnabled header = false
  /-- A word takes all characters that can belong to it. -/
  ends : startsWith isWordStart raw = true → (∀ d ∈ raw, isWordPart d = true) ∧ startsWith isWordPart after = false

namespace Lexed

theorem isWord_number (c : Char) (r : List Char) : (number c r).token.isWord = false := by
  unfold number
  split
  · rename_i n raw rest _
    dsimp only
    cases htoken : n.token? with
    | none => rfl
    | some t => rcases Numeral.eq_of_token? htoken with ⟨i, rfl⟩ | ⟨x, rfl⟩ <;> rfl
  · rfl

/-- A token that does not begin as words do is none. -/
theorem isWord_first (h : isWordStart c = false) (header : Option Header) (r : List Char) :
    (first header c r).token.isWord = false := by
  rcases start_cases c r with ⟨s, rfl, hs⟩ | rfl | hnumeral | hword | hinvalid
  · rw [first_sign s hs]
    rfl
  · have hquote : first header '"' r = string r := rfl
    rw [hquote, string]
    split <;> rfl
  · rw [first_of_startsNumeral hnumeral]
    exact isWord_number c r
  · rw [h] at hword
    cases hword
  · rw [hinvalid]
    rfl

theorem isSpelled_first (header : Option Header) (c : Char) (r : List Char) :
    (first header c r).token.IsSpelled header (first header c r).raw (first header c r).rest := by
  obtain ⟨tail, hraw⟩ := exists_raw header c r
  have hstart : startsWith isWordStart (first header c r).raw = isWordStart c := by rw [hraw]; rfl
  by_cases hword : isWordStart c = true
  · have htoken : (first header c r).token = wordToken header (String.ofList (first header c r).raw) := by
      rw [first_of_isWordStart hword]
      rfl
    refine ⟨fun k => ?_, fun name => ?_, fun _ => ?_⟩
    · rw [htoken, wordToken_eq_keyword_iff]
    · rw [htoken, wordToken_eq_identifier_iff, hstart, and_iff_right hword]
    · rw [first_of_isWordStart hword]
      have hparts : ∀ d ∈ ((c :: r).span isWordPart).1, isWordPart d = true := fun _ => Numeral.of_mem_span
      exact ⟨hparts, Numeral.startsWith_span isWordPart (c :: r)⟩
  · have hnot := isWord_first (eq_false_of_ne_true hword) header r
    rw [← hstart] at hword
    refine ⟨fun k => ⟨fun htoken => ?_, fun ⟨hk, _⟩ => ?_⟩, fun name => ⟨fun htoken => ?_, fun h => absurd h.2.1 hword⟩,
      fun h => absurd h hword⟩
    · rw [htoken] at hnot
      cases hnot
    · -- keywords begin as words do
      refine absurd ?_ hword
      rw [← String.toList_ofList (l := (first header c r).raw), hk]
      exact k.spelling.1
    · rw [htoken] at hnot
      cases hnot

end Lexed

namespace Cursor

/-- **A header changes nothing but the gated words.** Under any two headers the tokens of a text are as many,
at the same places, and equal, except that a gated word is a keyword where the header enables it and an
identifier where it does not. Under every header a token is a keyword if and only if it is spelled as that
keyword and the header enables it. -/
theorem lexemes_regated (text : String) (lines : Nat) (header header' : Option Header) :
    let here := behindLines text lines
    List.Forall₂ (Lexeme.Regated header header') (here.lexemes header).1 (here.lexemes header').1 ∧
    (here.lexemes header).2 = (here.lexemes header').2 ∧
    -- the places behind the tokens
    (∀ n, here.behindTokens header n = here.behindTokens header' n) ∧
    -- what the tokens are spelled like
    ∀ l ∈ (here.lexemes header).1, ∃ before raw after, text.toList = before ++ (raw ++ after) ∧
      l.position = Position.ofByte text (byteLength before) ∧ l.stop = byteLength before + byteLength raw ∧
      l.token.IsSpelled header raw after := by
  intro here
  obtain ⟨hlexemes, hstop⟩ := here.lexemesUpTo_regated header header' here.rest.length
  refine ⟨hlexemes, hstop, here.behindTokens_congr header header', fun l hl => ?_⟩
  obtain ⟨n, hn⟩ := List.mem_iff_getElem?.1 hl
  obtain ⟨before, blanks, x, r, htext, hbefore, -, htoken, hposition, hstop⟩ :=
    ((isPlaced_behindLines text lines).isFound_getElem hn).1
  refine ⟨before ++ blanks, (Lexed.first header x r).raw, (Lexed.first header x r).rest, ?_, ?_, ?_, ?_⟩
  · rw [Lexed.raw_append_rest, htext, List.append_assoc]
  · rw [byteLength_append, hbefore, hposition]
  · rw [byteLength_append, hbefore, hstop]
  · rw [htoken]
    exact Lexed.isSpelled_first header x r

end Cursor

end SceneGraph
