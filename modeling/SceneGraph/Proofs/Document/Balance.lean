import SceneGraph.Proofs.Document.Declaring

/-!
# Between braces

A reader that is started between the braces of a declaration stays between them, whatever it finds
there: every error leaves exactly the braces open that were open before. This is `Reader.Inside`, which
composes along the steps of a reader, and it holds of all readers of values.

* `Balanced`: braces that pair up.
* `Reader.Inside`: the reader stays between the braces, and takes some tokens if it succeeds.
* `Reader.Inside.content`, `Reader.Inside.fieldValue`: readers of values do, if the reader of nodes does.
-/

namespace SceneGraph

/-- The token is no brace. -/
def Token.isPlain : Token → Bool
  | .symbol .nodeBegin | .symbol .nodeEnd => false
  | _ => true

/-- The braces among some tokens pair up. -/
inductive Balanced : List Token → Prop
  | nil : Balanced []
  | plain {t : Token} {ts : List Token} (ht : t.isPlain = true) (hts : Balanced ts) : Balanced (t :: ts)
  | group {ts us : List Token} (hts : Balanced ts) (hus : Balanced us) :
      Balanced (.symbol .nodeBegin :: (ts ++ .symbol .nodeEnd :: us))

namespace Balanced

variable {t : Token} {ts : List Token}

theorem tail (h : Balanced (t :: ts)) (ht : t.isPlain = true) : Balanced ts := by
  cases h with
  | plain _ hts => exact hts
  | group => cases ht

theorem group_of_cons (h : Balanced (.symbol .nodeBegin :: ts)) :
    ∃ us vs, ts = us ++ .symbol .nodeEnd :: vs ∧ Balanced us ∧ Balanced vs := by
  cases h with
  | plain ht => cases ht
  | group hus hvs => exact ⟨_, _, rfl, hus, hvs⟩

theorem not_cons_nodeEnd : ¬ Balanced (.symbol .nodeEnd :: ts) := fun h => by
  cases h with
  | plain ht => cases ht

end Balanced

namespace Reader

variable {α β : Type} {ctx : DocumentContext} {s s' : ReaderState} {inside rest : List Token}
  {bound count count' : Nat}

/-- The reading stands between two braces: `inside` is left up to the closing one, and `rest` follows. -/
structure Within (inside rest : List Token) (s : ReaderState) : Prop where
  tokens : s.tokens = inside ++ .symbol .nodeEnd :: rest
  balanced : Balanced inside

/-- How a reader ends that was started between two braces: still between them, with at least so many
tokens taken if it succeeded. -/
def EndsInside (inside rest : List Token) (count : Nat) : Except ReadError α × ReaderState → Prop
  | (.ok _, s') => ∃ inside', Within inside' rest s' ∧ inside'.length + count ≤ inside.length
  | (.error e, s') => ∃ inside', Within inside' rest s' ∧ inside'.length ≤ inside.length ∧ e.isFatal = false

/-- Started between two braces with fewer than so many tokens left, a reader stays between them and
takes at least `count` tokens if it succeeds. -/
def Inside (bound count : Nat) (p : Reader α) : Prop :=
  ∀ s inside rest, Within inside rest s → s.tokens.length < bound → EndsInside inside rest count (exec p s)

theorem Within.length (h : Within inside rest s) : s.tokens.length = inside.length + (rest.length + 1) := by
  rw [h.tokens, List.length_append, List.length_cons]

theorem Within.congr (h : Within inside rest s) (ht : s'.tokens = s.tokens) : Within inside rest s' :=
  ⟨ht.trans h.tokens, h.balanced⟩

/-- A token that is no brace is taken off the front. -/
theorem Within.pop (ctx : DocumentContext) {t : Token} (h : Within (t :: inside) rest s) (ht : t.isPlain = true) :
    ∃ s', exec (pop ctx) s = (.ok ⟨⟩, s') ∧ Within inside rest s' := by
  obtain ⟨s', hrun, hbehind⟩ := exec_pop ctx h.tokens
  have hrest : s'.tokens = inside ++ .symbol .nodeEnd :: rest :=
    List.append_cancel_left (hbehind.tokens.symm.trans h.tokens)
  exact ⟨s', hrun, hrest, h.balanced.tail ht⟩

/-- If the next token is no brace, it stands inside. -/
theorem Within.exists_cons {t : Token} (h : Within inside rest s) (hhead : s.tokens.head? = some t)
    (ht : t.isPlain = true) : ∃ inside', inside = t :: inside' := by
  rw [h.tokens] at hhead
  cases inside with
  | nil =>
    obtain rfl : Token.symbol .nodeEnd = t := Option.some.inj hhead
    cases ht
  | cons u inside' =>
    obtain rfl : u = t := Option.some.inj hhead
    exact ⟨inside', rfl⟩

theorem Within.exists_cons_of_any {test : Token → Bool} (h : Within inside rest s)
    (hany : s.tokens.head?.any test = true) (htest : ∀ t, test t = true → t.isPlain = true) :
    ∃ t inside', test t = true ∧ inside = t :: inside' := by
  cases hhead : s.tokens.head? with
  | none => rw [hhead] at hany; cases hany
  | some t =>
    rw [hhead] at hany
    obtain ⟨inside', hcons⟩ := h.exists_cons hhead (htest t hany)
    exact ⟨t, inside', hany, hcons⟩

theorem EndsInside.mono {outer : List Token} {r : Except ReadError α × ReaderState}
    (h : EndsInside inside rest count r) (hcount : inside.length + count' ≤ outer.length + count)
    (hlength : inside.length ≤ outer.length) : EndsInside outer rest count' r := by
  obtain ⟨e | a, s'⟩ := r
  · obtain ⟨inside', hwithin, hle, he⟩ := h
    exact ⟨inside', hwithin, hle.trans hlength, he⟩
  · obtain ⟨inside', hwithin, hle⟩ := h
    exact ⟨inside', hwithin, by omega⟩

namespace Inside

variable {p : Reader α} {q : α → Reader β}

theorem mono {bound' : Nat} (h : Inside bound count p) (hbound : bound' ≤ bound) (hcount : count' ≤ count) :
    Inside bound' count' p := fun s inside rest hs hlt =>
  (h s inside rest hs (by omega)).mono (by omega) (Nat.le_refl _)

/-- What the first reader takes is out of the way of the second. -/
theorem bind_sub (hp : Inside bound count p) (hq : ∀ a, Inside (bound - count) count' (q a)) :
    Inside bound (count + count') (p >>= q) := by
  intro s inside rest hs hlt
  have hends := hp s inside rest hs hlt
  rw [exec_bind]
  generalize exec p s = r at hends ⊢
  obtain ⟨e | a, s'⟩ := r
  · exact hends
  · obtain ⟨inside', hwithin, hle⟩ := hends
    have hlength := hs.length
    have hlength' := hwithin.length
    refine (hq a s' inside' rest hwithin ?_).mono ?_ ?_ <;> omega

theorem bind (hp : Inside bound count p) (hq : ∀ a, Inside bound count' (q a)) :
    Inside bound (count + count') (p >>= q) :=
  hp.bind_sub fun a => (hq a).mono (Nat.sub_le _ _) (Nat.le_refl _)

theorem pure (a : α) : Inside bound 0 (Pure.pure a : Reader α) :=
  fun _ inside _ hs _ => ⟨inside, hs, Nat.le_refl _⟩

theorem map {f : α → β} (h : Inside bound count p) : Inside bound count (f <$> p) := by
  intro s inside rest hs hlt
  have hends := h s inside rest hs hlt
  rw [exec_map]
  generalize exec p s = r at hends ⊢
  obtain ⟨e | a, s'⟩ := r
  · exact hends
  · exact hends

theorem get_bind {q : ReaderState → Reader β}
    (h : ∀ s inside rest, Within inside rest s → s.tokens.length < bound →
      EndsInside inside rest count (exec (q s) s)) : Inside bound count (get >>= q) := by
  intro s inside rest hs hlt
  rw [exec_bind_ok (exec_get s)]
  exact h s inside rest hs hlt

/-- The tokens are left alone. -/
theorem still (h : ∀ s, ∃ a s', exec p s = (.ok a, s') ∧ s'.tokens = s.tokens) : Inside bound 0 p := by
  intro s inside rest hs _
  obtain ⟨a, s', hrun, ht⟩ := h s
  rw [hrun]
  exact ⟨inside, hs.congr ht, Nat.le_refl _⟩

theorem act (f : World → World) : Inside bound 0 (act f) := still fun s => ⟨_, _, exec_act f s, rfl⟩

theorem warn (p : Position) (text : String) : Inside bound 0 (warn ctx p text) := act _

theorem last : Inside bound 0 last := still fun s => ⟨_, _, exec_last s, rfl⟩

theorem position : Inside bound 0 (position ctx) := still fun s => ⟨_, _, exec_position ctx s, rfl⟩

theorem onFailure (h : Inside bound count p) (f : World → World) :
    Inside bound count (onFailure p f) := by
  intro s inside rest hs hlt
  have hends := h s inside rest hs hlt
  rw [exec_onFailure]
  generalize exec p s = r at hends ⊢
  obtain ⟨e | a, s'⟩ := r
  · obtain ⟨inside', hwithin, hle, he⟩ := hends
    exact ⟨inside', hwithin.congr rfl, hle, he⟩
  · exact hends

/-! ### Single tokens -/

/-- There is at least the closing brace, so the text is not over. -/
theorem unexpected (expected : String) : Inside bound count (unexpected ctx expected : Reader α) := by
  intro s inside rest hs _
  obtain ⟨t, ht⟩ : ∃ t, s.tokens.head? = some t := by
    rw [hs.tokens]
    cases inside <;> exact ⟨_, rfl⟩
  rw [Reader.unexpected, exec_bind_ok (exec_peek? s), ht]
  dsimp only
  rw [exec_bind_ok (exec_position ctx s)]
  exact ⟨inside, hs, Nat.le_refl _, rfl⟩

/-- Values are made of tokens that are no braces. -/
theorem token {accept : Token → Option α} (haccept : ∀ t a, accept t = some a → t.isPlain = true)
    (expected : String) : Inside bound 1 (token ctx expected accept) := by
  intro s inside rest hs hlt
  rw [Reader.token, exec_bind_ok (exec_peek? s)]
  split
  · rename_i a ha
    obtain ⟨t, hhead, hat⟩ := Option.bind_eq_some_iff.1 ha
    have ht := haccept t a hat
    obtain ⟨inside', rfl⟩ := hs.exists_cons hhead ht
    obtain ⟨s', hrun, hwithin⟩ := hs.pop ctx ht
    rw [exec_bind_ok hrun]
    exact ⟨inside', hwithin, Nat.le_refl _⟩
  · exact unexpected expected s inside rest hs hlt

theorem identifier (expected : String) : Inside bound 1 (identifier ctx expected) :=
  token (fun t a h => by cases t <;> first | rfl | cases h) expected

theorem symbol {c : Symbol} (hc : (Token.symbol c).isPlain = true) : Inside bound 1 (symbol ctx c) := by
  refine token (fun t a h => ?_) _
  cases t with
  | symbol d =>
    have hcd : c = d := by
      by_contra hne
      simp [Token.isSymbol, hne] at h
    exact hcd ▸ hc
  | _ => rfl

theorem keyword (k : Keyword) : Inside bound 1 (keyword ctx k) := by
  refine token (fun t a h => ?_) _
  cases t with
  | symbol d => cases h
  | _ => rfl

end Inside

/-- Takes the next token if it passes a test. -/
def Tries (ctx : DocumentContext) (test : Token → Bool) (p : Reader Bool) : Prop :=
  ∀ s, exec p s =
    if s.tokens.head?.any test then (.ok true, (exec (pop ctx) s).2) else (.ok false, s)

theorem tries_optionalSymbol (c : Symbol) : Tries ctx (·.isSymbol c) (optionalSymbol ctx c) := by
  intro s
  rw [optionalSymbol, exec_bind_ok (exec_peek? s)]
  split <;> rfl

theorem tries_optionalKeyword (k : Keyword) : Tries ctx (·.isKeyword k) (optionalKeyword ctx k) := by
  intro s
  rw [optionalKeyword, exec_bind_ok (exec_peek? s)]
  split <;> rfl

theorem isPlain_of_isKeyword {t : Token} {k : Keyword} (h : t.isKeyword k = true) : t.isPlain = true := by
  cases t with
  | symbol c => cases h
  | _ => rfl

theorem isPlain_of_isSymbol {t : Token} {c : Symbol} (hc : (Token.symbol c).isPlain = true)
    (h : t.isSymbol c = true) : t.isPlain = true := by
  cases t with
  | symbol d =>
    have hcd : c = d := by simpa [Token.isSymbol] using h
    exact hcd ▸ hc
  | _ => rfl

namespace Inside

variable {test : Token → Bool} {k : Reader Bool} {p q : Reader α}

/-- A token that passes the test makes up for one that the first branch need not take. -/
theorem branch (count : Nat) (hk : Tries ctx test k) (htest : ∀ t, test t = true → t.isPlain = true)
    (hp : Inside bound count p) (hq : Inside bound (count + 1) q) :
    Inside bound (count + 1) (do if ← k then p else q) := by
  intro s inside rest hs hlt
  have hrun := hk s
  split at hrun
  · rename_i hany
    obtain ⟨t, inside', ht, rfl⟩ := hs.exists_cons_of_any hany htest
    obtain ⟨s', hpop, hwithin⟩ := hs.pop ctx (htest t ht)
    rw [hpop] at hrun
    rw [exec_bind_ok hrun, if_pos rfl]
    have hlength := hs.length
    have hlength' := hwithin.length
    rw [List.length_cons] at hlength
    refine (hp s' inside' rest hwithin (by omega)).mono ?_ ?_ <;> rw [List.length_cons] <;> omega
  · rw [exec_bind_ok hrun, if_neg Bool.false_ne_true]
    exact hq s inside rest hs hlt

theorem «try» (hk : Tries ctx test k) (htest : ∀ t, test t = true → t.isPlain = true) : Inside bound 0 k := by
  intro s inside rest hs hlt
  have hrun := hk s
  split at hrun
  · rename_i hany
    obtain ⟨t, inside', ht, rfl⟩ := hs.exists_cons_of_any hany htest
    obtain ⟨s', hpop, hwithin⟩ := hs.pop ctx (htest t ht)
    rw [hrun, hpop]
    exact ⟨inside', hwithin, Nat.le_succ _⟩
  · rw [hrun]
    exact ⟨inside, hs, Nat.le_refl _⟩

/-! ### Values -/

theorem number : Inside bound 1 (number ctx) :=
  token (fun t a h => by cases t <;> first | rfl | cases h) _

theorem float : Inside bound 1 (float ctx) := number.map

theorem vector2 : Inside bound 2 (vector2 ctx) := float.bind fun _ => float.bind fun _ => .pure _

theorem vector3 : Inside bound 3 (vector3 ctx) :=
  float.bind fun _ => float.bind fun _ => float.bind fun _ => .pure _

theorem vector4 : Inside bound 4 (vector4 ctx) :=
  float.bind fun _ => float.bind fun _ => float.bind fun _ => float.bind fun _ => .pure _

theorem rotation : Inside bound 4 (rotation ctx) := by
  change Inside bound (3 + (1 + 0)) _
  refine vector3.bind fun axis => float.bind fun angle => ?_
  split
  · exact .pure _
  · exact last.bind fun p => (warn p _).bind fun _ => .pure _

/-- A value of any type takes at least one token. -/
theorem value {node : Reader (Option NodeId)} (hnode : Inside bound 1 node) (t : FieldType) :
    Inside bound 1 (value ctx node t) := by
  cases t with
  | boolean =>
    refine token (fun t a h => ?_) _
    cases t <;> first | rfl | cases h
  | int => exact token (fun t a h => by cases t <;> first | rfl | cases h) _
  | float => exact float
  | time => exact number
  | string => exact token (fun t a h => by cases t <;> first | rfl | cases h) _
  | color => exact (vector3.bind fun _ => .pure _).mono (Nat.le_refl _) (by omega)
  | rotation => exact rotation.mono (Nat.le_refl _) (by omega)
  | vector2 => exact vector2.mono (Nat.le_refl _) (by omega)
  | vector3 => exact vector3.mono (Nat.le_refl _) (by omega)
  | vector4 => exact vector4.mono (Nat.le_refl _) (by omega)
  | matrix3 =>
    exact (vector3.bind fun _ => vector3.bind fun _ => vector3.bind fun _ => .pure _).mono (Nat.le_refl _)
      (by omega)
  | matrix4 =>
    exact (vector4.bind fun _ => vector4.bind fun _ => vector4.bind fun _ => vector4.bind fun _ =>
      .pure _).mono (Nat.le_refl _) (by omega)
  | node => exact hnode

theorem plain_listEnd : ∀ t : Token, t.isSymbol .listEnd = true → t.isPlain = true :=
  fun _ => isPlain_of_isSymbol rfl

theorem plain_listBegin : ∀ t : Token, t.isSymbol .listBegin = true → t.isPlain = true :=
  fun _ => isPlain_of_isSymbol rfl

/-- Every item takes a token, so the bound on their number is never met. -/
theorem items {item : Reader α} {fuel : Nat} (hitem : Inside bound 1 item) (hfuel : bound ≤ fuel) :
    Inside bound 1 (items ctx item fuel) := by
  induction fuel generalizing bound with
  | zero =>
    intro s inside rest hs hlt
    omega
  | succ fuel ih =>
    have hmore : Inside (bound - 1) 1 (Reader.items ctx item fuel) :=
      ih (hitem.mono (Nat.sub_le _ _) (Nat.le_refl _)) (by omega)
    exact branch 0 (tries_optionalSymbol .listEnd) plain_listEnd (.pure [])
      ((hitem.bind_sub fun a => hmore.bind fun as => .pure (a :: as)).mono (Nat.le_refl _) (by omega))

theorem list {item : Reader α} (hitem : Inside bound 1 item) : Inside bound 1 (list ctx item) := by
  refine branch 0 (tries_optionalSymbol .listBegin) plain_listBegin ?_
    (hitem.bind fun a => .pure [a])
  refine get_bind fun s inside rest hs hlt => ?_
  have hlength := s.length_tokens
  have hitems : Inside (s.lexemes.length + 1) 1 (Reader.items ctx item (s.lexemes.length + 1)) :=
    items (hitem.mono (by omega) (Nat.le_refl _)) (Nat.le_refl _)
  exact (hitems s inside rest hs (by omega)).mono (by omega) (Nat.le_refl _)

theorem nodeItems {node : Reader (Option NodeId)} {fuel : Nat} (hnode : Inside bound 1 node)
    (hfuel : bound ≤ fuel) (before : List NodeId) : Inside bound 1 (nodeItems ctx node fuel before) := by
  induction fuel generalizing bound before with
  | zero =>
    intro s inside rest hs hlt
    omega
  | succ fuel ih =>
    have hmore : ∀ before, Inside (bound - 1) 1 (Reader.nodeItems ctx node fuel before) :=
      fun before => ih (hnode.mono (Nat.sub_le _ _) (Nat.le_refl _)) (by omega) before
    exact branch 0 (tries_optionalSymbol .listEnd) plain_listEnd (.pure before)
      (((hnode.onFailure _).bind_sub fun next => hmore _).mono (Nat.le_refl _) (by omega))

theorem nodeList {node : Reader (Option NodeId)} (hnode : Inside bound 1 node) :
    Inside bound 1 (nodeList ctx node) := by
  refine branch 0 (tries_optionalSymbol .listBegin) plain_listBegin ?_
    (hnode.bind fun next => .pure next.toList)
  refine get_bind fun s inside rest hs hlt => ?_
  have hlength := s.length_tokens
  have hitems : Inside (s.lexemes.length + 1) 1 (Reader.nodeItems ctx node (s.lexemes.length + 1) []) :=
    nodeItems (hnode.mono (by omega) (Nat.le_refl _)) (Nat.le_refl _) []
  exact (hitems s inside rest hs (by omega)).mono (by omega) (Nat.le_refl _)

theorem content {node : Reader (Option NodeId)} (hnode : Inside bound 1 node) (k : Kind) :
    Inside bound 1 (content ctx node k) := by
  obtain ⟨t, d⟩ := k
  cases d with
  | single => exact (value hnode t).bind fun v => .pure _
  | multi =>
    cases t with
    | node => exact (nodeList hnode).bind fun ids => .pure _
    | _ => exact (list (value hnode _)).bind fun vs => .pure _

/-! ### Fields -/

theorem use : Inside bound 1 (use ctx) := by
  change Inside bound (1 + 0) _
  refine (identifier _).bind fun name => get_bind fun s inside rest hs hlt => ?_
  split
  · exact ((act _).bind fun _ => .pure _) s inside rest hs hlt
  · exact ((warn _ _).bind fun _ => .pure _) s inside rest hs hlt

theorem nodeValue {declaration : Reader (Option NodeId)} (hdeclaration : Inside bound 1 declaration) :
    Inside bound 1 (nodeValue ctx declaration) :=
  branch 0 (tries_optionalKeyword .use) (fun _ => isPlain_of_isKeyword)
    (use.mono (Nat.le_refl _) (Nat.zero_le _)) hdeclaration

/-- A change of the world that may fail, but does not end the reading. -/
theorem change (result : World → Except NodeError Unit × World) (p : Position) :
    Inside bound 0 (do
      let s ← get
      set { s with world := (result s.world).2 }
      match (result s.world).1 with
      | .ok _ => return
      | .error e => throw (.node e p)) := by
  refine get_bind fun s inside rest hs _ => ?_
  rw [exec_bind_ok (exec_set s _)]
  split
  · exact ⟨inside, hs.congr rfl, Nat.le_refl _⟩
  · exact ⟨inside, hs.congr rfl, Nat.le_refl _, rfl⟩

theorem fieldValue {declaration : Reader (Option NodeId)} (hdeclaration : Inside bound 1 declaration)
    (id : NodeId) (name : String) : Inside bound 0 (fieldValue ctx declaration id name) := by
  change Inside bound (0 + 0) _
  refine position.bind fun p => get_bind fun s inside rest hs hlt => ?_
  split
  · rw [exec_bind_ok (exec_get s)]
    exact ⟨inside, hs, Nat.le_refl _, rfl⟩
  · refine ((content (nodeValue hdeclaration) _).bind fun value => ?_).mono (Nat.le_refl _)
      (Nat.zero_le (1 + 0)) s inside rest hs hlt
    exact change (fun w =>
      ((w.initField id name value).1, (w.initField id name value).2.dropAll value.references)) p

theorem declareField (id : NodeId) (name : String) (k : Kind) (p : Position) :
    Inside bound 0 (declareField id name k p) :=
  change (fun w => w.addField id name (.initial k)) p

theorem installRoute (p : Position) (r : RouteText) : Inside bound 0 (installRoute ctx p r) := by
  refine still fun s => ?_
  rw [Reader.installRoute, exec_bind_ok (exec_get s)]
  split
  · exact ⟨_, _, exec_act _ s, rfl⟩
  · rw [exec_bind_ok (exec_set s _)]
    split
    · exact ⟨_, _, rfl, rfl⟩
    · exact ⟨_, _, exec_act _ _, rfl⟩

theorem route : Inside bound 0 (route ctx) :=
  (last.bind fun _ => (identifier _).bind fun _ => (symbol rfl).bind fun _ => (identifier _).bind fun _ =>
    (keyword _).bind fun _ => (identifier _).bind fun _ => (symbol rfl).bind fun _ =>
      (identifier _).bind fun _ => installRoute _ _).mono (Nat.le_refl _) (Nat.zero_le _)

end Inside

end Reader

end SceneGraph
