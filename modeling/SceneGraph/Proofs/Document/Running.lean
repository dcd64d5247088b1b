import SceneGraph.Document.Declaration
import SceneGraph.Proofs.Document.Lexing

/-!
# Running readers

`Reader.exec` runs a reader in a state, and the equations `exec_…` say what the pieces of readers do.
`Reader.Takes p ts a` says that `p` takes the tokens `ts` off the front and answers `a`, whatever
follows, without touching the world: this composes along the steps of a reader.
-/

namespace SceneGraph

/-- The tokens not taken yet. -/
def ReaderState.tokens (s : ReaderState) : List Token := s.lexemes.map (·.token)

theorem ReaderState.length_tokens (s : ReaderState) : s.tokens.length = s.lexemes.length := List.length_map ..

/-- There are more turns than tokens to take. -/
theorem ReaderState.length_tokens_lt (s : ReaderState) : s.tokens.length < s.lexemes.length + 1 :=
  Nat.lt_succ_of_le (Nat.le_of_eq s.length_tokens)

namespace Reader

variable {α β : Type} {ctx : DocumentContext} {s s' : ReaderState}

/-- What a reader does in a state. -/
def exec (p : Reader α) (s : ReaderState) : Except ReadError α × ReaderState := p.run.run s

@[simp] theorem exec_pure (a : α) (s : ReaderState) : exec (pure a) s = (.ok a, s) := rfl

@[simp] theorem exec_throw (e : ReadError) (s : ReaderState) :
    exec (throw e : Reader α) s = (.error e, s) := rfl

theorem exec_bind (p : Reader α) (q : α → Reader β) (s : ReaderState) :
    exec (p >>= q) s =
      match exec p s with
      | (.ok a, s') => exec (q a) s'
      | (.error e, s') => (.error e, s') := by
  unfold exec
  rw [ExceptT.run_bind, StateT.run_bind]
  rcases p.run.run s with ⟨_ | _, _⟩ <;> rfl

theorem exec_map (f : α → β) (p : Reader α) (s : ReaderState) :
    exec (f <$> p) s = ((exec p s).1.map f, (exec p s).2) := by
  have h : f <$> p = p >>= fun a => pure (f a) := (bind_pure_comp f p).symm
  rw [h, exec_bind]
  rcases exec p s with ⟨_ | _, _⟩ <;> rfl

/-- A reader goes on where another one ended well. -/
theorem exec_bind_ok {p : Reader α} {a : α} (h : exec p s = (.ok a, s')) (q : α → Reader β) :
    exec (p >>= q) s = exec (q a) s' := by
  rw [exec_bind, h]

@[simp] theorem exec_get (s : ReaderState) : exec get s = (.ok s, s) := rfl

@[simp] theorem exec_set (s s' : ReaderState) : exec (set s') s = (.ok ⟨⟩, s') := rfl

@[simp] theorem exec_modify (f : ReaderState → ReaderState) (s : ReaderState) :
    exec (modify f) s = (.ok ⟨⟩, f s) := rfl

@[simp] theorem exec_act (f : World → World) (s : ReaderState) :
    exec (act f) s = (.ok (), { s with world := f s.world }) := rfl

@[simp] theorem exec_attempt (p : Reader α) (s : ReaderState) :
    exec (attempt p) s = (.ok (exec p s).1, (exec p s).2) := rfl

theorem exec_onFailure (p : Reader α) (f : World → World) (s : ReaderState) :
    exec (onFailure p f) s =
      match exec p s with
      | (.ok a, s') => (.ok a, s')
      | (.error e, s') => (.error e, { s' with world := f s'.world }) := by
  rw [onFailure, exec_bind, exec_attempt]
  rcases exec p s with ⟨_ | _, _⟩ <;> rfl

@[simp] theorem exec_peek? (s : ReaderState) : exec peek? s = (.ok s.tokens.head?, s) := by
  rw [ReaderState.tokens, List.head?_map]
  rfl

@[simp] theorem exec_last (s : ReaderState) : exec last s = (.ok s.last, s) := rfl

@[simp] theorem exec_position (ctx : DocumentContext) (s : ReaderState) :
    exec (position ctx) s = (.ok ((s.lexemes.head?.map (·.position)).getD ctx.stop), s) := rfl

/-! ### Taking tokens -/

/-- A state some tokens further on; nothing else has happened. -/
structure Behind (ts : List Token) (s s' : ReaderState) : Prop where
  tokens : s.tokens = ts ++ s'.tokens
  world : s'.world = s.world
  scene : s'.scene = s.scene

namespace Behind

theorem refl (s : ReaderState) : Behind [] s s := ⟨rfl, rfl, rfl⟩

theorem trans {ts us : List Token} {s'' : ReaderState} (h : Behind ts s s') (h' : Behind us s' s'') :
    Behind (ts ++ us) s s'' :=
  ⟨by rw [h.tokens, h'.tokens, List.append_assoc], h'.world.trans h.world, h'.scene.trans h.scene⟩

theorem rest {ts rest : List Token} (h : Behind ts s s') (hs : s.tokens = ts ++ rest) :
    s'.tokens = rest := List.append_cancel_left (h.tokens.symm.trans hs)

end Behind

/-- A reader that takes some tokens and answers a value, whatever follows. -/
def Takes (p : Reader α) (ts : List Token) (a : α) : Prop :=
  ∀ s rest, s.tokens = ts ++ rest → ∃ s', exec p s = (.ok a, s') ∧ Behind ts s s'

theorem exec_pop (ctx : DocumentContext) {t : Token} {rest : List Token} (h : s.tokens = t :: rest) :
    ∃ s', exec (pop ctx) s = (.ok ⟨⟩, s') ∧ Behind [t] s s' := by
  obtain ⟨l, lexemes, hl⟩ : ∃ l lexemes, s.lexemes = l :: lexemes := by
    cases hl : s.lexemes with
    | nil => rw [ReaderState.tokens, hl] at h; cases h
    | cons l lexemes => exact ⟨l, lexemes, rfl⟩
  refine ⟨{ s with lexemes, last := l.position }, ?_, ?_, rfl, rfl⟩
  · rw [pop, exec_modify, hl]
  · rw [h, ReaderState.tokens]
    rw [ReaderState.tokens, hl] at h
    rw [(List.cons.inj h).2]
    rfl

namespace Takes

theorem pure (a : α) : Takes (pure a) [] a := fun s _ _ => ⟨s, rfl, .refl s⟩

theorem bind {p : Reader α} {q : α → Reader β} {ts us : List Token} {a : α} {b : β} (h : Takes p ts a)
    (h' : Takes (q a) us b) : Takes (p >>= q) (ts ++ us) b := by
  intro s rest hs
  rw [List.append_assoc] at hs
  obtain ⟨s', hrun, hbehind⟩ := h s _ hs
  obtain ⟨s'', hrun', hbehind'⟩ := h' s' rest (hbehind.rest hs)
  exact ⟨s'', by rw [exec_bind_ok hrun, hrun'], hbehind.trans hbehind'⟩

theorem map {p : Reader α} {ts : List Token} {a : α} (h : Takes p ts a) (f : α → β) :
    Takes (f <$> p) ts (f a) := by
  intro s rest hs
  obtain ⟨s', hrun, hbehind⟩ := h s rest hs
  exact ⟨s', by rw [exec_map, hrun]; rfl, hbehind⟩

/-- A reader that makes something of what another one answers. -/
theorem bind_pure {p : Reader α} {ts : List Token} {a : α} (h : Takes p ts a) (f : α → β) :
    Takes (p >>= fun a => Pure.pure (f a)) ts (f a) :=
  List.append_nil ts ▸ h.bind (.pure (f a))

/-- A token that gives a value is taken. -/
theorem token {expected : String} {accept : Token → Option α} {t : Token} {a : α}
    (h : accept t = some a) : Takes (token ctx expected accept) [t] a := by
  intro s rest hs
  obtain ⟨s', hrun, hbehind⟩ := exec_pop ctx hs
  refine ⟨s', ?_, hbehind⟩
  rw [Reader.token, exec_bind, exec_peek?, hs]
  dsimp only [List.cons_append, List.head?_cons, Option.bind_some]
  rw [h]
  dsimp only
  rw [exec_bind_ok hrun]
  rfl

variable (ctx : DocumentContext)

theorem identifier (expected name : String) :
    Takes (identifier ctx expected) [.identifier name] name := token rfl

theorem quoted (expected text : String) : Takes (quoted ctx expected) [.string text] text := token rfl

theorem symbol (c : Symbol) : Takes (symbol ctx c) [.symbol c] () :=
  token (by simp [Token.isSymbol])

theorem keyword (k : Keyword) : Takes (keyword ctx k) [.keyword k] () :=
  token (by simp [Token.isKeyword])

theorem optionalSymbol (c : Symbol) : Takes (optionalSymbol ctx c) [.symbol c] true := by
  intro s rest hs
  obtain ⟨s', hrun, hbehind⟩ := exec_pop ctx hs
  refine ⟨s', ?_, hbehind⟩
  rw [Reader.optionalSymbol, exec_bind, exec_peek?, hs]
  dsimp only [List.cons_append, List.head?_cons, Option.any_some]
  rw [if_pos (by simp [Token.isSymbol]), exec_bind_ok hrun]
  rfl

theorem optionalKeyword (k : Keyword) : Takes (optionalKeyword ctx k) [.keyword k] true := by
  intro s rest hs
  obtain ⟨s', hrun, hbehind⟩ := exec_pop ctx hs
  refine ⟨s', ?_, hbehind⟩
  rw [Reader.optionalKeyword, exec_bind, exec_peek?, hs]
  dsimp only [List.cons_append, List.head?_cons, Option.any_some]
  rw [if_pos (by simp [Token.isKeyword]), exec_bind_ok hrun]
  rfl

end Takes

/-- A sign that is not there is not taken. -/
theorem exec_optionalSymbol_false {c : Symbol} {t : Token} {rest : List Token}
    (h : s.tokens = t :: rest) (ht : t.isSymbol c = false) :
    exec (optionalSymbol ctx c) s = (.ok false, s) := by
  rw [optionalSymbol, exec_bind, exec_peek?, h]
  dsimp only [List.head?_cons, Option.any_some]
  rw [if_neg (by rw [ht]; exact Bool.false_ne_true)]
  rfl

/-- A keyword that is not there is not taken. -/
theorem exec_optionalKeyword_false {k : Keyword} {t : Token} {rest : List Token}
    (h : s.tokens = t :: rest) (ht : t.isKeyword k = false) :
    exec (optionalKeyword ctx k) s = (.ok false, s) := by
  rw [optionalKeyword, exec_bind, exec_peek?, h]
  dsimp only [List.head?_cons, Option.any_some]
  rw [if_neg (by rw [ht]; exact Bool.false_ne_true)]
  rfl

end Reader

end SceneGraph
