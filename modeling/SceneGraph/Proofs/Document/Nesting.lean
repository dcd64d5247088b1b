import SceneGraph.Proofs.Document.Balance

/-!
# Declarations end at their own braces

A body is read up to the brace that closes it, or an error leaves the reading between its braces, and
then `Reader.skipBody` goes up to the same brace: `Reader.exec_afterType`. What a declaration does on the
way is `Reader.Declares`. By induction on how deep declarations nest, a declaration in the value of a
field stays between the braces of the declaration around it.

* `Reader.endsBody_body`: a body ends behind its closing brace, or between the braces.
* `Reader.exec_skipBody`: skipping ends behind the closing brace.
* `Reader.exec_afterType`: from its opening brace on, a declaration ends behind its closing brace.
* `Reader.Inside.declarationUpTo`: a declaration stays between the braces around it.
-/

namespace SceneGraph

namespace Reader

variable {α β : Type} {ctx : DocumentContext} {s s' : ReaderState} {inside rest : List Token} {bound : Nat}

/-! ### Bodies -/

/-- The reader never has an answer. -/
def Unanswered (p : Reader (Option α)) : Prop := ∀ s a s', exec p s = (.ok a, s') → a = none

theorem Unanswered.none : Unanswered (pure none : Reader (Option α)) := fun _ _ _ h =>
  (Except.ok.inj (Prod.mk.inj h).1).symm

theorem Unanswered.bind {p : Reader α} {q : α → Reader (Option β)} (h : ∀ a, Unanswered (q a)) :
    Unanswered (p >>= q) := by
  intro s b s'' hrun
  rw [exec_bind] at hrun
  split at hrun
  · exact h _ _ b s'' hrun
  · cases (Prod.mk.inj hrun).1

/-- How an entry of a body ends: with the closing brace, or between the braces after at least one
token. -/
def EndsEntry (inside rest : List Token) : Except ReadError (Option Unit) × ReaderState → Prop
  | (.ok (some _), s') => s'.tokens = rest
  | (.ok none, s') => ∃ inside', Within inside' rest s' ∧ inside'.length + 1 ≤ inside.length
  | (.error e, s') => ∃ inside', Within inside' rest s' ∧ inside'.length ≤ inside.length ∧ e.isFatal = false

/-- How a body ends: behind its closing brace, or between the braces after an error. -/
def EndsBody (rest : List Token) : Except ReadError Unit × ReaderState → Prop
  | (.ok _, s') => s'.tokens = rest
  | (.error e, s') => ∃ inside, Within inside rest s' ∧ e.isFatal = false

/-- An entry that starts with a token that is no brace. -/
theorem endsEntry_pop {t : Token} {q : Reader (Option Unit)} (hs : Within inside rest s)
    (hhead : s.tokens.head? = some t) (ht : t.isPlain = true) (hlt : s.tokens.length < bound)
    (hq : Inside bound 0 q) (hnone : Unanswered q) :
    EndsEntry inside rest (exec (do pop ctx; q) s) := by
  obtain ⟨inside', rfl⟩ := hs.exists_cons hhead ht
  obtain ⟨s', hrun, hwithin⟩ := hs.pop ctx ht
  have hlength := hs.length
  have hlength' := hwithin.length
  rw [List.length_cons] at hlength
  have hends := hq s' inside' rest hwithin (by omega)
  rw [exec_bind_ok hrun]
  generalize hr : exec q s' = r at hends ⊢
  obtain ⟨e | a, s''⟩ := r
  · obtain ⟨inside'', hwithin', hle, he⟩ := hends
    exact ⟨inside'', hwithin', hle.trans (Nat.le_succ _), he⟩
  · obtain rfl : a = none := hnone s' a s'' hr
    obtain ⟨inside'', hwithin', hle⟩ := hends
    exact ⟨inside'', hwithin', Nat.succ_le_succ hle⟩

theorem endsEntry_bodyEntry (ctx : DocumentContext) {declaration : Reader (Option NodeId)} (hdeclaration : Inside bound 1 declaration)
    (id : NodeId) (hs : Within inside rest s) (hlt : s.tokens.length < bound) :
    EndsEntry inside rest (exec (bodyEntry ctx declaration id) s) := by
  have hfield : ∀ name, Inside bound 0 (do fieldValue ctx declaration id name; return (none : Option Unit)) :=
    fun name => (Inside.fieldValue hdeclaration id name).bind fun _ => .pure _
  have hunexpected : ∀ expected, EndsEntry inside rest
      (exec (unexpected ctx expected : Reader (Option Unit)) s) := by
    intro expected
    have hends : EndsInside inside rest 1 (exec (unexpected ctx expected : Reader (Option Unit)) s) :=
      Inside.unexpected expected s inside rest hs hlt
    have hnone : Unanswered (unexpected ctx expected : Reader (Option Unit)) := by
      refine .bind fun t => ?_
      cases t with
      | none => exact fun _ _ _ h => by cases (Prod.mk.inj h).1
      | some t => exact .bind fun _ _ _ _ h => by cases (Prod.mk.inj h).1
    generalize hr : exec (unexpected ctx expected : Reader (Option Unit)) s = r at hends ⊢
    obtain ⟨e | a, s''⟩ := r
    · exact hends
    · obtain rfl : a = none := hnone s a s'' hr
      exact hends
  rw [bodyEntry, exec_bind_ok (exec_position ctx s), exec_bind_ok (exec_peek? s)]
  split
  · -- the closing brace of the body itself, since braces pair up before it
    rename_i hhead
    have hnil : inside = [] := by
      cases inside with
      | nil => rfl
      | cons u inside' =>
        rw [hs.tokens] at hhead
        obtain rfl : u = .symbol .nodeEnd := Option.some.inj hhead
        exact absurd hs.balanced Balanced.not_cons_nodeEnd
    subst hnil
    obtain ⟨s', hrun, hbehind⟩ := exec_pop ctx hs.tokens
    rw [exec_bind_ok hrun]
    exact hbehind.rest hs.tokens
  · rename_i hhead
    exact endsEntry_pop hs hhead rfl hlt (Inside.route.bind fun _ => .pure _) (.bind fun _ => .none)
  · rename_i k hhead
    refine endsEntry_pop hs hhead rfl hlt ?_ (.bind fun _ => .bind fun _ => .bind fun _ => .none)
    exact ((Inside.identifier _).bind fun name => (Inside.declareField id name k _).bind fun _ =>
      hfield name).mono (Nat.le_refl _) (Nat.zero_le _)
  · rename_i name hhead
    refine endsEntry_pop hs hhead rfl hlt (Inside.get_bind fun s inside rest hs hlt => ?_)
      (.bind fun s => ?_)
    · split
      · split
        · exact hfield name s inside rest hs hlt
        · exact ⟨inside, hs, Nat.le_refl _, rfl⟩
      · exact hfield name s inside rest hs hlt
    · split
      · split
        · exact .bind fun _ => .none
        · exact fun _ _ _ h => by cases (Prod.mk.inj h).1
      · exact .bind fun _ => .none
  · rename_i raw hhead
    exact endsEntry_pop hs hhead rfl hlt ((Inside.act _).bind fun _ => .pure _) (.bind fun _ => .none)
  · exact hunexpected _

/-- A body ends behind its closing brace, or between the braces. -/
theorem endsBody_body (ctx : DocumentContext) {declaration : Reader (Option NodeId)} (hdeclaration : Inside bound 1 declaration)
    (id : NodeId) (hs : Within inside rest s) (hlt : s.tokens.length < bound) :
    EndsBody rest (exec (body ctx declaration id) s) := by
  have huntil : ∀ fuel s inside, Within inside rest s → s.tokens.length < bound → s.tokens.length < fuel →
      EndsBody rest (exec (untilSome ctx (bodyEntry ctx declaration id) fuel) s) := by
    intro fuel
    induction fuel with
    | zero => exact fun s inside hs hlt hfuel => absurd hfuel (Nat.not_lt_zero _)
    | succ fuel ih =>
      intro s inside hs hlt hfuel
      have hends := endsEntry_bodyEntry ctx hdeclaration id hs hlt
      rw [untilSome, exec_bind]
      generalize exec (bodyEntry ctx declaration id) s = r at hends ⊢
      obtain ⟨e | a, s'⟩ := r
      · obtain ⟨inside', hwithin, -, he⟩ := hends
        exact ⟨inside', hwithin, he⟩
      · cases a with
        | some _ => exact hends
        | none =>
          obtain ⟨inside', hwithin, hle⟩ := hends
          have hlength := hs.length
          have hlength' := hwithin.length
          exact ih s' inside' hwithin (by omega) (by omega)
  have hlength := s.length_tokens
  rw [body, loop, exec_bind_ok (exec_get s)]
  exact huntil _ s inside hs hlt (by omega)

/-! ### Skipping -/

theorem exists_lexeme {t : Token} {ts : List Token} (h : s.tokens = t :: ts) :
    ∃ l ls, s.lexemes = l :: ls ∧ l.token = t ∧ ls.map (·.token) = ts := by
  cases hl : s.lexemes with
  | nil => rw [ReaderState.tokens, hl] at h; cases h
  | cons l ls =>
    rw [ReaderState.tokens, hl, List.map_cons] at h
    obtain ⟨ht, hts⟩ := List.cons.inj h
    exact ⟨l, ls, rfl, ht, hts⟩

theorem exec_pop_lexeme {l : Lexeme} {ls : List Lexeme} (h : s.lexemes = l :: ls) :
    exec (pop ctx) s = (.ok ⟨⟩, { s with lexemes := ls, last := l.position }) := by
  rw [pop, exec_modify, h]

/-- Closing braces skips over what is balanced. -/
theorem exec_closeBraces_balanced (ctx : DocumentContext) (hinside : Balanced inside) (unclosed : Nat) {more : List Token}
    (hs : s.tokens = inside ++ more) :
    ∃ s', s'.tokens = more ∧ s'.world = s.world ∧ s'.scene = s.scene ∧
      exec (closeBraces ctx s.lexemes (unclosed + 1)) s = exec (closeBraces ctx s'.lexemes (unclosed + 1)) s' := by
  -- one token is taken, and the brace that it is counts
  have hstep : ∀ {s : ReaderState} {t : Token} {ts : List Token} (unclosed : Nat), s.tokens = t :: ts →
      ∃ s', s'.tokens = ts ∧ s'.world = s.world ∧ s'.scene = s.scene ∧
        exec (closeBraces ctx s.lexemes (unclosed + 1)) s =
          exec (closeBraces ctx s'.lexemes (if t.isSymbol .nodeBegin then unclosed + 2
            else if t.isSymbol .nodeEnd then unclosed else unclosed + 1)) s' := by
    intro s t ts unclosed hs
    obtain ⟨l, ls, hl, rfl, hts⟩ := exists_lexeme hs
    refine ⟨{ s with lexemes := ls, last := l.position }, hts, rfl, rfl, ?_⟩
    rw [hl, closeBraces, exec_bind_ok (exec_pop_lexeme hl)]
  induction hinside generalizing s unclosed more with
  | nil => exact ⟨s, hs, rfl, rfl, rfl⟩
  | @plain t ts ht _ ih =>
    obtain ⟨s₁, ht₁, hw₁, hscene₁, hrun₁⟩ := hstep unclosed hs
    obtain ⟨s₂, ht₂, hw₂, hscene₂, hrun₂⟩ := ih unclosed ht₁
    refine ⟨s₂, ht₂, hw₂.trans hw₁, hscene₂.trans hscene₁, hrun₁.trans ?_⟩
    have hbegin : t.isSymbol .nodeBegin = false := by
      cases t with
      | symbol c => cases c <;> first | rfl | cases ht
      | _ => rfl
    have hend : t.isSymbol .nodeEnd = false := by
      cases t with
      | symbol c => cases c <;> first | rfl | cases ht
      | _ => rfl
    rw [hbegin, hend]
    exact hrun₂
  | @group ts us _ _ ihts ihus =>
    rw [List.cons_append, List.append_assoc] at hs
    obtain ⟨s₁, ht₁, hw₁, hscene₁, hrun₁⟩ := hstep unclosed hs
    obtain ⟨s₂, ht₂, hw₂, hscene₂, hrun₂⟩ := ihts (unclosed + 1) ht₁
    obtain ⟨s₃, ht₃, hw₃, hscene₃, hrun₃⟩ := hstep (unclosed + 1) ht₂
    obtain ⟨s₄, ht₄, hw₄, hscene₄, hrun₄⟩ := ihus unclosed ht₃
    refine ⟨s₄, ht₄, ((hw₄.trans hw₃).trans hw₂).trans hw₁,
      ((hscene₄.trans hscene₃).trans hscene₂).trans hscene₁, ?_⟩
    exact hrun₁.trans (hrun₂.trans (hrun₃.trans hrun₄))

/-- **Skipping a body** ends behind the brace that closes it. -/
theorem exec_skipBody (ctx : DocumentContext) (hs : Within inside rest s) :
    ∃ s', exec (skipBody ctx) s = (.ok (), s') ∧ s'.tokens = rest ∧ s'.world = s.world ∧
      s'.scene = s.scene := by
  obtain ⟨s₁, ht, hw, hscene, hrun⟩ := exec_closeBraces_balanced ctx hs.balanced 0 hs.tokens
  obtain ⟨l, ls, hl, htoken, hrest⟩ := exists_lexeme ht
  refine ⟨{ s₁ with lexemes := ls, last := l.position }, ?_, hrest, hw, hscene⟩
  have hskip : exec (skipBody ctx) s = exec (closeBraces ctx s.lexemes 1) s := rfl
  have hdone : closeBraces ctx ls 0 = pure () := by cases ls <;> rfl
  rw [hskip, hrun, hl, closeBraces, exec_bind_ok (exec_pop_lexeme hl), htoken, if_neg (by decide),
    if_pos (by decide), hdone]
  rfl

/-! ### Declarations -/

/-- What follows the type of a declaration. -/
def afterType (ctx : DocumentContext) (nested : Reader (Option NodeId)) (name : Option String)
    (typeName : String) (p : Position) : Reader (Option NodeId) := do
  match ← request ctx typeName with
  | none =>
    symbol ctx .nodeBegin
    skipBody ctx
    warn ctx p s!"skipped unknown node type '{typeName}'"
    return none
  | some id =>
    match name with
    | some name => act (·.setName id name)
    | none => pure ()
    onFailure (symbol ctx .nodeBegin) (·.drop id)
    closeBody ctx id typeName p (← attempt (body ctx nested id))

theorem afterName_eq (nested : Reader (Option NodeId)) (name : Option String) :
    afterName ctx nested name = (do
      let typeName ← identifier ctx "a node type"
      let p ← last
      afterType ctx nested name typeName p) := rfl

/-- The world in which a body is given up: its node is discarded, the errors are reported, and the
handle of the node is given back. -/
def giveUp (ctx : DocumentContext) (id : NodeId) (typeName : String) (p : Position) (e : ReadError)
    (w : World) : World :=
  (((w.discard id).log .error s!"Error in \"{ctx.file}\", {e.message}").enter
    (.warning ctx.file p s!"skipped {typeName} node")).drop id

/-- What a declaration does, from the state behind its type on: a node of an unknown type is skipped;
else a node is made and named, and its body is read, or the node is given up and skipped. -/
inductive Declares (ctx : DocumentContext) (nested : Reader (Option NodeId)) (name : Option String)
    (typeName : String) (s : ReaderState) : Option NodeId → ReaderState → Prop
  | unknown {w : World} (p : Position) (s' : ReaderState)
      (hcreate : (s.world.step (.asked typeName)).createOfType ctx.catalog typeName ctx.environment =
        .ok (none, w))
      (hworld : s'.world = w.enter (.warning ctx.file p s!"skipped unknown node type '{typeName}'"))
      (hscene : s'.scene = s.scene) : Declares ctx nested name typeName s none s'
  | read {w : World} {id : NodeId} (s₁ s' : ReaderState)
      (hcreate : (s.world.step (.asked typeName)).createOfType ctx.catalog typeName ctx.environment =
        .ok (some id, w))
      (hworld : s₁.world = name.elim w (w.setName id)) (hscene : s₁.scene = s.scene)
      (hbody : exec (body ctx nested id) s₁ = (.ok (), s')) :
      Declares ctx nested name typeName s (some id) s'
  | skipped {w : World} {id : NodeId} (p : Position) (e : ReadError) (s₁ s₂ s' : ReaderState)
      (hcreate : (s.world.step (.asked typeName)).createOfType ctx.catalog typeName ctx.environment =
        .ok (some id, w))
      (hworld : s₁.world = name.elim w (w.setName id)) (hscene : s₁.scene = s.scene)
      (hbody : exec (body ctx nested id) s₁ = (.error e, s₂))
      (hworld' : s'.world = giveUp ctx id typeName p e s₂.world) (hscene' : s'.scene = s₂.scene) :
      Declares ctx nested name typeName s none s'

/-- A declaration whose body is over, or cannot be read, ends behind its closing brace. -/
theorem exec_closeBody (ctx : DocumentContext) (id : NodeId) (typeName : String) (p : Position)
    {r : Except ReadError Unit} (h : EndsBody rest (r, s)) :
    ∃ answer s', exec (closeBody ctx id typeName p r) s = (.ok answer, s') ∧ s'.tokens = rest ∧
      (r = .ok () ∧ answer = some id ∧ s' = s ∨
        ∃ e, r = .error e ∧ answer = none ∧ s'.world = giveUp ctx id typeName p e s.world ∧
          s'.scene = s.scene) := by
  cases r with
  | ok _ => exact ⟨some id, s, rfl, h, .inl ⟨rfl, rfl, rfl⟩⟩
  | error e =>
    obtain ⟨inside, hwithin, he⟩ := h
    have hskip : ∃ s', exec (do
        act (·.discard id)
        logError ctx e
        onFailure (skipBody ctx) (·.drop id)
        warn ctx p s!"skipped {typeName} node"
        act (·.drop id)
        return (none : Option NodeId)) s = (.ok none, s') ∧ s'.tokens = rest ∧
          s'.world = giveUp ctx id typeName p e s.world ∧ s'.scene = s.scene := by
      let given : ReaderState := { s with
        world := (s.world.discard id).log .error s!"Error in \"{ctx.file}\", {e.message}" }
      have hgiven : Within inside rest given := hwithin.congr rfl
      obtain ⟨s', hrun, ht, hw, hscene⟩ := exec_skipBody ctx hgiven
      have hfailure : exec (onFailure (skipBody ctx) (·.drop id)) given = (.ok (), s') := by
        rw [exec_onFailure, hrun]
      refine ⟨{ s' with world := (s'.world.enter
        (.warning ctx.file p s!"skipped {typeName} node")).drop id }, ?_, ht, ?_, hscene⟩
      · rw [exec_bind_ok (exec_act _ s)]
        exact (exec_bind_ok hfailure _).trans rfl
      · exact congrArg (fun w : World =>
          (w.enter (.warning ctx.file p s!"skipped {typeName} node")).drop id) hw
    obtain ⟨s', hrun, ht, hw, hscene⟩ := hskip
    refine ⟨none, s', ?_, ht, .inr ⟨e, rfl, rfl, hw, hscene⟩⟩
    cases e with
    | layout e => cases he
    | cancelled => cases he
    | endOfFile p => cases he
    | _ => exact hrun

/-- No type of the catalog lists a field twice. -/
def LaysOut (ctx : DocumentContext) : Prop := ∀ t ∈ ctx.catalog, Specification.duplicate? [] t.fields = none

/-- A type of nodes is found or unknown, and no type is at fault. -/
theorem exists_createOfType (hlayouts : LaysOut ctx) (typeName : String) (w : World) :
    ∃ o v, w.createOfType ctx.catalog typeName ctx.environment = .ok (o, v) := by
  unfold World.createOfType
  split
  · exact ⟨_, _, rfl⟩
  · rename_i t ht
    have hfields : Specification.ofFields t.name t.fields = .ok ⟨t.name, t.fields⟩ := by
      rw [Specification.ofFields, hlayouts t (List.mem_of_find?_eq_some ht)]
    obtain ⟨spec, v, hspec⟩ : ∃ spec v, w.specification t.name t.fields = .ok (spec, v) := by
      unfold World.specification
      split
      · exact ⟨_, _, rfl⟩
      · rw [hfields]
        exact ⟨_, _, rfl⟩
    rw [hspec]
    exact ⟨_, _, rfl⟩

/-- A request is always answered. -/
theorem exec_request (hlayouts : LaysOut ctx) (typeName : String) (s : ReaderState) :
    ∃ o s', exec (request ctx typeName) s = (.ok o, s') ∧ s'.tokens = s.tokens ∧ s'.scene = s.scene ∧
      (s.world.step (.asked typeName)).createOfType ctx.catalog typeName ctx.environment =
        .ok (o, s'.world) := by
  obtain ⟨o, w, hcreate⟩ := exists_createOfType hlayouts typeName (s.world.step (.asked typeName))
  refine ⟨o, { s with
    asked := s.asked + 1
    checkpoints := s.progress :: s.checkpoints
    world := w }, ?_, rfl, rfl, hcreate⟩
  rw [request, exec_bind_ok (exec_modify _ s), exec_bind_ok (exec_act _ _), exec_bind_ok (exec_get _)]
  dsimp only
  rw [hcreate]
  rfl

/-- **From its opening brace on** a declaration ends behind its closing brace. -/
theorem exec_afterType (hlayouts : LaysOut ctx) {nested : Reader (Option NodeId)}
    (hnested : Inside bound 1 nested) (name : Option String) (typeName : String) (p : Position)
    {text : List Token} (htext : Balanced text)
    (hs : s.tokens = .symbol .nodeBegin :: (text ++ .symbol .nodeEnd :: rest))
    (hlt : s.tokens.length < bound) :
    ∃ answer s', exec (afterType ctx nested name typeName p) s = (.ok answer, s') ∧ s'.tokens = rest ∧
      Declares ctx nested name typeName s answer s' := by
  obtain ⟨o, s₁, hrequest, ht₁, hscene₁, hcreate⟩ := exec_request hlayouts typeName s
  -- the opening brace is there
  have hopen : ∀ {s₁ : ReaderState}, s₁.tokens = s.tokens → ∃ s₂, exec (symbol ctx .nodeBegin) s₁ = (.ok (), s₂) ∧
      Within text rest s₂ ∧ s₂.tokens.length < bound ∧ s₂.world = s₁.world ∧ s₂.scene = s₁.scene := by
    intro s₁ ht₁
    obtain ⟨s₂, hrun, hbehind⟩ := Takes.symbol ctx .nodeBegin s₁ _ (ht₁.trans hs)
    have ht₂ := hbehind.rest (ht₁.trans hs)
    have hlength := congrArg List.length hbehind.tokens
    rw [ht₁, List.length_append] at hlength
    exact ⟨s₂, hrun, ⟨ht₂, htext⟩, by omega, hbehind.world, hbehind.scene⟩
  rw [afterType, exec_bind_ok hrequest]
  cases o with
  | none =>
    obtain ⟨s₂, hrun, hwithin, -, hw₂, hscene₂⟩ := hopen ht₁
    obtain ⟨s₃, hskip, ht₃, hw₃, hscene₃⟩ := exec_skipBody ctx hwithin
    let warning := Entry.warning ctx.file p s!"skipped unknown node type '{typeName}'"
    refine ⟨none, { s₃ with world := s₃.world.enter warning }, ?_, ht₃, .unknown p _ hcreate ?_ ?_⟩
    · dsimp only
      rw [exec_bind_ok hrun, exec_bind_ok hskip]
      rfl
    · exact congrArg (World.enter · warning) (hw₃.trans hw₂)
    · exact (hscene₃.trans hscene₂).trans hscene₁
  | some id =>
    let named : ReaderState := { s₁ with world := name.elim s₁.world (s₁.world.setName id) }
    obtain ⟨s₂, hrun, hwithin, hlt₂, hw₂, hscene₂⟩ := @hopen named ht₁
    have hends := endsBody_body ctx hnested id hwithin hlt₂
    obtain ⟨answer, s', hclose, ht', hwhat⟩ := exec_closeBody ctx id typeName p hends
    refine ⟨answer, s', ?_, ht', ?_⟩
    · have hbrace : exec (onFailure (symbol ctx .nodeBegin) (·.drop id)) named = (.ok (), s₂) := by
        rw [exec_onFailure, hrun]
      have hrest : exec (do
          onFailure (symbol ctx .nodeBegin) (·.drop id)
          closeBody ctx id typeName p (← attempt (body ctx nested id))) named = (.ok answer, s') := by
        rw [exec_bind_ok hbrace, exec_bind_ok (exec_attempt _ s₂)]
        exact hclose
      cases name with
      | none => exact hrest
      | some n => exact hrest
    · have hscene : s₂.scene = s.scene := hscene₂.trans hscene₁
      rcases hwhat with ⟨hok, rfl, rfl⟩ | ⟨e, he, rfl, hw', hscene'⟩
      · exact .read s₂ _ hcreate hw₂ hscene (Prod.ext hok rfl)
      · exact .skipped p e s₂ _ s' hcreate hw₂ hscene (Prod.ext he rfl) hw' hscene'

namespace Inside

theorem afterType (hlayouts : LaysOut ctx) {nested : Reader (Option NodeId)}
    (hnested : Inside bound 1 nested) (name : Option String) (typeName : String) (p : Position) :
    Inside bound 0 (afterType ctx nested name typeName p) := by
  intro s inside rest hs hlt
  by_cases hbegin : ∃ ts, inside = .symbol .nodeBegin :: ts
  · -- the brace belongs to this declaration, and so does the one that it pairs up with
    obtain ⟨ts, rfl⟩ := hbegin
    obtain ⟨us, vs, rfl, hus, hvs⟩ := hs.balanced.group_of_cons
    have ht : s.tokens = .symbol .nodeBegin :: (us ++ .symbol .nodeEnd :: (vs ++ .symbol .nodeEnd :: rest)) := by
      rw [hs.tokens, List.cons_append, List.append_assoc, List.cons_append]
    obtain ⟨answer, s', hrun, ht', -⟩ := exec_afterType hlayouts hnested name typeName p hus ht hlt
    rw [hrun]
    refine ⟨vs, ⟨ht', hvs⟩, ?_⟩
    simp only [List.length_cons, List.length_append]
    omega
  · -- the reader fails at the token that stands in place of the brace
    obtain ⟨t, more, ht, htoken⟩ : ∃ t more, s.tokens = t :: more ∧ t.isSymbol .nodeBegin = false := by
      rw [hs.tokens]
      cases inside with
      | nil => exact ⟨_, _, rfl, rfl⟩
      | cons t ts =>
        refine ⟨t, _, rfl, ?_⟩
        by_contra hsymbol
        cases t with
        | symbol c =>
          have hc : Symbol.nodeBegin = c := by simpa [Token.isSymbol] using hsymbol
          exact hbegin ⟨ts, by rw [hc]⟩
        | _ => exact hsymbol rfl
    obtain ⟨o, s₁, hrequest, ht₁, -, -⟩ := exec_request hlayouts typeName s
    have hwithin : Within inside rest s₁ := hs.congr ht₁
    have hfails : ∀ {s₁ : ReaderState}, s₁.tokens = t :: more → ∃ e, e.isFatal = false ∧
        exec (Reader.symbol ctx .nodeBegin) s₁ = (.error e, s₁) := by
      intro s₁ ht₁
      rw [Reader.symbol, Reader.token, exec_bind_ok (exec_peek? s₁), ht₁]
      dsimp only [List.head?_cons, Option.bind_some]
      rw [if_neg (by rw [htoken]; exact Bool.false_ne_true)]
      dsimp only
      rw [Reader.unexpected, exec_bind_ok (exec_peek? s₁), ht₁]
      exact ⟨_, rfl, rfl⟩
    rw [Reader.afterType, exec_bind_ok hrequest]
    cases o with
    | none =>
      obtain ⟨e, he, hrun⟩ := hfails (ht₁.trans ht)
      dsimp only
      rw [exec_bind, hrun]
      exact ⟨inside, hwithin, Nat.le_refl _, he⟩
    | some id =>
      have hrest : ∀ s₂ : ReaderState, s₂.tokens = s₁.tokens → EndsInside inside rest 0 (exec (do
          Reader.onFailure (Reader.symbol ctx .nodeBegin) (·.drop id)
          closeBody ctx id typeName p (← attempt (body ctx nested id))) s₂) := by
        intro s₂ ht₂
        obtain ⟨e, he, hrun⟩ := hfails (ht₂.trans (ht₁.trans ht))
        rw [exec_bind, exec_onFailure, hrun]
        exact ⟨inside, hwithin.congr ht₂, Nat.le_refl _, he⟩
      cases name with
      | none => exact hrest s₁ rfl
      | some name => exact hrest { s₁ with world := s₁.world.setName id name } rfl

theorem afterName (hlayouts : LaysOut ctx) {nested : Reader (Option NodeId)}
    (hnested : Inside bound 1 nested) (name : Option String) :
    Inside (bound + 1) 1 (afterName ctx nested name) := by
  rw [afterName_eq]
  change Inside (bound + 1) (1 + (0 + 0)) _
  refine bind_sub (identifier _) fun typeName => ?_
  exact last.bind fun p => afterType hlayouts hnested name typeName p

/-- **Declarations stay between the braces**, by induction on how deep they may nest. Fewer tokens than
levels are left, and a declaration takes a token before it reads a nested one. -/
theorem declarationUpTo (hlayouts : LaysOut ctx) (hgoes : ∀ asked, ctx.control.isCancelled asked = false)
    (depth : Nat) : Inside depth 1 (declarationUpTo ctx depth) := by
  induction depth with
  | zero =>
    intro s inside rest hs hlt
    omega
  | succ depth ih =>
    rw [declarationUpTo_succ]
    refine get_bind fun s inside rest hs hlt => ?_
    rw [hgoes, if_neg Bool.false_ne_true]
    have hnamed : Inside (depth + 1) 1 (do
        let isNamed ← optionalKeyword ctx .define
        let name ← if isNamed then some <$> Reader.identifier ctx "a node name after DEF" else Pure.pure none
        Reader.afterName ctx (Reader.declarationUpTo ctx depth) name) := by
      have hname : ∀ name, Inside (depth + 1) 1 (Reader.afterName ctx (Reader.declarationUpTo ctx depth) name) :=
        fun name => afterName hlayouts ih name
      change Inside (depth + 1) (0 + 1) _
      refine («try» (tries_optionalKeyword .define) fun _ => isPlain_of_isKeyword).bind fun isNamed => ?_
      dsimp only
      split
      · exact ((identifier _).map.bind hname).mono (Nat.le_refl _) (by omega)
      · exact (pure none).bind hname
    exact branch 0 (tries_optionalKeyword .null) (fun _ => isPlain_of_isKeyword) (.pure none) hnamed
      s inside rest hs hlt

end Inside

end Reader

end SceneGraph
