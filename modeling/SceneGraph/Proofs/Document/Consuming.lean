import SceneGraph.Proofs.Document.Alongside
import SceneGraph.Proofs.Document.Statements

/-!
# What readers consume

Whatever a reader does, it takes lexemes off the front and puts none back, and only one reader asks for a node:
`Reader.request`. So a relation between states that does not mind anything but such requests (`Reader.Lenient`) holds
between the state in which a reader begins and the one in which it ends, whether it has an answer or fails
(`Reader.Consumes`). A declaration looks at the control of the load right before its request.

* `Reader.Consumes.bind`, `branch`, `loop`: steps of readers, one after the other.
* `Reader.Consumes.label`, `heading`: what stands before the value of a field, and before the body of a declaration.
* `Reader.Consumes.declarationUpTo`: declarations too, if the relation does not mind a request that is free.
-/

namespace SceneGraph

namespace Reader

/-- No node is asked for in between. -/
structure Quiet (s t : ReaderState) : Prop where
  asked : t.asked = s.asked
  checkpoints : t.checkpoints = s.checkpoints

/-- The relation does not mind what happens as long as no node is asked for. -/
structure Lenient (R : ReaderState → ReaderState → Prop) : Prop where
  quiet : ∀ {s t}, Quiet s t → R s t
  trans : ∀ {s t u}, R s t → R t u → R s u

/-- From a state on, the reader leads to a related state, and it takes at least so many tokens if it has an answer. -/
def ConsumesAt (R : ReaderState → ReaderState → Prop) (count : Nat) {α : Type} (p : Reader α) (s : ReaderState) :
    Prop :=
  R s (exec p s).2 ∧ (exec p s).2.lexemes.length ≤ s.lexemes.length ∧
    ∀ a, (exec p s).1 = .ok a → (exec p s).2.lexemes.length + count ≤ s.lexemes.length

/-- So does it from every state on. -/
def Consumes (R : ReaderState → ReaderState → Prop) (count : Nat) {α : Type} (p : Reader α) : Prop :=
  ∀ s, ConsumesAt R count p s

variable {α β : Type} {ctx : DocumentContext} {R : ReaderState → ReaderState → Prop} {count count' : Nat}

theorem Quiet.lenient : Lenient Quiet where
  quiet h := h
  trans h h' := ⟨h'.asked.trans h.asked, h'.checkpoints.trans h.checkpoints⟩

theorem Lenient.refl (hR : Lenient R) (s : ReaderState) : R s s := hR.quiet ⟨rfl, rfl⟩

namespace Consumes

variable {p : Reader α} {q : α → Reader β}

theorem mono (h : Consumes R count p) (hle : count' ≤ count) : Consumes R count' p := fun s =>
  ⟨(h s).1, (h s).2.1, fun a ha => (Nat.add_le_add_left hle _).trans ((h s).2.2 a ha)⟩

theorem uncounted (h : Consumes R count p) : Consumes R 0 p := h.mono (Nat.zero_le _)

theorem length_lt (h : Consumes R 1 p) {s t : ReaderState} {a : α} (hrun : exec p s = (.ok a, t)) :
    t.lexemes.length < s.lexemes.length := by
  have hcount := (h s).2.2
  rw [hrun] at hcount
  exact hcount a rfl

theorem map (h : Consumes R count p) (f : α → β) : Consumes R count (f <$> p) := by
  intro s
  obtain ⟨hrel, hle, hok⟩ := h s
  rw [ConsumesAt, exec_map]
  refine ⟨hrel, hle, fun b hb => ?_⟩
  cases hr : (exec p s).1 with
  | error e => rw [hr] at hb; cases hb
  | ok a => exact hok a hr

theorem attempt (h : Consumes R count p) : Consumes R 0 (Reader.attempt p) := fun s =>
  ⟨(h s).1, (h s).2.1, fun _ _ => (h s).2.1⟩

/-- A reader that looks at the state first. -/
theorem get_bind {q : ReaderState → Reader α} (hq : ∀ s, ConsumesAt R count (q s) s) :
    Consumes R count (MonadState.get >>= q) := by
  intro s
  rw [ConsumesAt, exec_bind_ok (exec_get s)]
  exact hq s

variable (hR : Lenient R)
include hR

/-! ### Steps -/

/-- The second step goes on where the first one ended well. -/
theorem at_bind {s : ReaderState} (hp : ConsumesAt R count p s)
    (hq : ∀ a t, exec p s = (.ok a, t) → ConsumesAt R count' (q a) t) : ConsumesAt R (count + count') (p >>= q) s := by
  obtain ⟨hrel, hle, hok⟩ := hp
  rw [ConsumesAt, exec_bind]
  generalize exec p s = r at hrel hle hok hq ⊢
  obtain ⟨e | a, t⟩ := r
  · exact ⟨hrel, hle, nofun⟩
  · obtain ⟨hrel', hle', hok'⟩ := hq a t rfl
    have hcount : t.lexemes.length + count ≤ s.lexemes.length := hok a rfl
    refine ⟨hR.trans hrel hrel', hle'.trans hle, fun b hb => ?_⟩
    have hcount' : (exec (q a) t).2.lexemes.length + count' ≤ t.lexemes.length := hok' b hb
    change (exec (q a) t).2.lexemes.length + (count + count') ≤ s.lexemes.length
    omega

theorem bind_add (hp : Consumes R count p) (hq : ∀ a, Consumes R count' (q a)) :
    Consumes R (count + count') (p >>= q) := fun s => at_bind hR (hp s) fun a t _ => hq a t

theorem bind (hp : Consumes R count p) (hq : ∀ a, Consumes R 0 (q a)) : Consumes R count (p >>= q) :=
  bind_add hR hp hq

theorem bind_right (hp : Consumes R 0 p) (hq : ∀ a, Consumes R count (q a)) : Consumes R count (p >>= q) :=
  (bind_add hR hp hq).mono (Nat.le_add_left ..)

theorem pure (a : α) : Consumes R 0 (Pure.pure a : Reader α) := fun s =>
  ⟨hR.refl s, Nat.le_refl _, fun _ _ => Nat.le_refl _⟩

theorem throw (e : ReadError) : Consumes R count (MonadExcept.throw e : Reader α) := fun s =>
  ⟨hR.refl s, Nat.le_refl _, nofun⟩

/-- The lexemes and the requests are left alone. -/
theorem still (h : ∀ s, Quiet s (exec p s).2 ∧ (exec p s).2.lexemes = s.lexemes) : Consumes R 0 p := by
  intro s
  obtain ⟨hquiet, hlexemes⟩ := h s
  have hle : (exec p s).2.lexemes.length ≤ s.lexemes.length := Nat.le_of_eq (congrArg List.length hlexemes)
  exact ⟨hR.quiet hquiet, hle, fun _ _ => hle⟩

theorem act (f : World → World) : Consumes R 0 (Reader.act f) := still hR fun _ => ⟨⟨rfl, rfl⟩, rfl⟩

theorem get : Consumes R 0 (MonadState.get : Reader ReaderState) := still hR fun _ => ⟨⟨rfl, rfl⟩, rfl⟩

/-- The world changes. -/
theorem set_bind {s : ReaderState} {w : World} {q : Reader α} (hq : Consumes R count q) :
    ConsumesAt R count (do set { s with world := w }; q) s := by
  have hset : R s { s with world := w } := hR.quiet ⟨rfl, rfl⟩
  obtain ⟨hrel, hle, hok⟩ := hq { s with world := w }
  rw [ConsumesAt, exec_bind_ok (exec_set s _)]
  exact ⟨hR.trans hset hrel, hle, hok⟩

theorem onFailure (h : Consumes R count p) (f : World → World) : Consumes R count (Reader.onFailure p f) := by
  intro s
  obtain ⟨hrel, hle, hok⟩ := h s
  rw [ConsumesAt, exec_onFailure]
  generalize exec p s = r at hrel hle hok ⊢
  obtain ⟨e | a, t⟩ := r
  · exact ⟨hR.trans hrel (hR.quiet ⟨rfl, rfl⟩), hle, nofun⟩
  · exact ⟨hrel, hle, hok⟩

theorem loop {p : Reader (Option α)} (h : Consumes R 0 p) : Consumes R 0 (Reader.loop ctx p) := by
  have huntil : ∀ n, Consumes R 0 (untilSome ctx p n) := by
    intro n
    induction n with
    | zero => exact throw hR _
    | succ n ih =>
      refine bind hR h fun o => ?_
      cases o with
      | some a => exact pure hR a
      | none => exact ih
  exact bind hR (get hR) fun s => huntil _

/-! ### Tokens -/

theorem logError (e : ReadError) : Consumes R 0 (logError ctx e) := act hR _

theorem warn (p : Position) (text : String) : Consumes R 0 (warn ctx p text) := act hR _

theorem peek? : Consumes R 0 Reader.peek? := still hR fun _ => ⟨⟨rfl, rfl⟩, rfl⟩

theorem position : Consumes R 0 (position ctx) := still hR fun _ => ⟨⟨rfl, rfl⟩, rfl⟩

theorem last : Consumes R 0 last := still hR fun _ => ⟨⟨rfl, rfl⟩, rfl⟩

theorem pop : Consumes R 0 (pop ctx) := by
  intro s
  cases hl : s.lexemes with
  | nil =>
    have hpop : exec (Reader.pop ctx) s = (.ok ⟨⟩, { s with last := ctx.stop }) := by
      rw [Reader.pop, exec_modify, hl]
    rw [ConsumesAt, hpop]
    exact ⟨hR.quiet ⟨rfl, rfl⟩, Nat.le_refl _, fun _ _ => Nat.le_refl _⟩
  | cons l rest =>
    have hle : rest.length ≤ s.lexemes.length := hl ▸ Nat.le_succ _
    rw [ConsumesAt, exec_pop_lexeme hl]
    exact ⟨hR.quiet ⟨rfl, rfl⟩, hle, fun _ _ => hle⟩

/-- A token that is there is taken. -/
theorem pop_bind {q : Reader α} {s : ReaderState} {t : Token} (hhead : s.tokens.head? = some t) (hq : Consumes R 0 q) :
    ConsumesAt R 1 (do Reader.pop ctx; q) s := by
  obtain ⟨more, hmore⟩ := List.head?_eq_some_iff.1 hhead
  obtain ⟨l, rest, hl, -, -⟩ := exists_lexeme hmore
  have hpop : R s { s with lexemes := rest, last := l.position } := hR.quiet ⟨rfl, rfl⟩
  obtain ⟨hrel, hle, hok⟩ := hq { s with lexemes := rest, last := l.position }
  rw [ConsumesAt, exec_bind_ok (exec_pop_lexeme hl), hl, List.length_cons]
  exact ⟨hR.trans hpop hrel, hle.trans (Nat.le_succ _), fun a ha => Nat.succ_le_succ (hok a ha)⟩

theorem unexpected (expected : String) : Consumes R count (unexpected ctx expected : Reader α) := by
  refine bind_right hR (peek? hR) fun t => ?_
  cases t with
  | none => exact throw hR _
  | some t => exact bind_right hR (position hR) fun _ => throw hR _

theorem token (expected : String) (accept : Token → Option α) : Consumes R 1 (token ctx expected accept) := by
  intro s
  rw [ConsumesAt, Reader.token, exec_bind_ok (exec_peek? s)]
  split
  · rename_i a haccept
    obtain ⟨t, hhead, -⟩ := Option.bind_eq_some_iff.1 haccept
    exact pop_bind hR hhead (pure hR a)
  · exact unexpected hR expected s

theorem identifier (expected : String) : Consumes R 1 (identifier ctx expected) := token hR _ _

theorem quoted (expected : String) : Consumes R 1 (quoted ctx expected) := token hR _ _

theorem symbol (c : Symbol) : Consumes R 1 (symbol ctx c) := token hR _ _

theorem keyword (k : Keyword) : Consumes R 1 (keyword ctx k) := token hR _ _

theorem tries {test : Token → Bool} {b : Reader Bool} (hb : Tries ctx test b) : Consumes R 0 b := by
  intro s
  have hpop : Consumes R 0 (Reader.pop ctx) := pop hR
  obtain ⟨hrel, hle, -⟩ := hpop s
  rw [ConsumesAt, hb s]
  split
  · exact ⟨hrel, hle, fun _ _ => hle⟩
  · exact pure hR false s

/-- One token is taken if it passes the test. -/
theorem branch {test : Token → Bool} {b : Reader Bool} (hb : Tries ctx test b) {p q : Reader α}
    (hp : Consumes R 0 p) (hq : Consumes R 1 q) : Consumes R 1 (do if ← b then p else q) := by
  intro s
  rw [ConsumesAt, exec_bind, hb s]
  by_cases htest : s.tokens.head?.any test
  · obtain ⟨t, hhead, -⟩ := (Option.any_eq_true _ _).1 htest
    rw [if_pos htest]
    exact pop_bind hR hhead hp
  · rw [if_neg htest]
    exact hq s

/-! ### Skipping -/

theorem closeBraces (lexemes : List Lexeme) (unclosed : Nat) : Consumes R 0 (closeBraces ctx lexemes unclosed) := by
  induction lexemes generalizing unclosed with
  | nil =>
    cases unclosed with
    | zero => exact pure hR ()
    | succ n => exact bind hR (pop hR) fun _ => throw hR _
  | cons l rest ih =>
    cases unclosed with
    | zero => exact pure hR ()
    | succ n => exact bind hR (pop hR) fun _ => ih _

theorem skipBody : Consumes R 0 (skipBody ctx) := bind hR (get hR) fun _ => closeBraces hR _ _

/-! ### Values -/

theorem number : Consumes R 1 (number ctx) := token hR _ _

theorem float : Consumes R 1 (float ctx) := (number hR).map _

theorem vector2 : Consumes R 1 (vector2 ctx) :=
  bind hR (float hR) fun _ => bind hR (float hR).uncounted fun _ => pure hR _

theorem vector3 : Consumes R 1 (vector3 ctx) :=
  bind hR (float hR) fun _ => bind hR (float hR).uncounted fun _ => bind hR (float hR).uncounted fun _ => pure hR _

theorem vector4 : Consumes R 1 (vector4 ctx) :=
  bind hR (float hR) fun _ => bind hR (float hR).uncounted fun _ => bind hR (float hR).uncounted fun _ =>
    bind hR (float hR).uncounted fun _ => pure hR _

theorem rotation : Consumes R 1 (rotation ctx) := by
  refine bind hR (vector3 hR) fun axis => bind hR (float hR).uncounted fun angle => ?_
  split
  · exact pure hR _
  · exact bind hR (last hR) fun _ => bind hR (warn hR _ _) fun _ => pure hR _

theorem value {node : Reader (Option NodeId)} (hnode : Consumes R 1 node) (t : FieldType) :
    Consumes R 1 (value ctx node t) := by
  cases t with
  | boolean | int | string => exact token hR _ _
  | float => exact float hR
  | time => exact number hR
  | color => exact bind hR (vector3 hR) fun _ => pure hR _
  | rotation => exact rotation hR
  | vector2 => exact vector2 hR
  | vector3 => exact vector3 hR
  | vector4 => exact vector4 hR
  | matrix3 =>
    exact bind hR (vector3 hR) fun _ => bind hR (vector3 hR).uncounted fun _ =>
      bind hR (vector3 hR).uncounted fun _ => pure hR _
  | matrix4 =>
    exact bind hR (vector4 hR) fun _ => bind hR (vector4 hR).uncounted fun _ =>
      bind hR (vector4 hR).uncounted fun _ => bind hR (vector4 hR).uncounted fun _ => pure hR _
  | node => exact hnode

theorem list {item : Reader α} (hitem : Consumes R 0 item) : Consumes R 0 (list ctx item) := by
  have hitems : ∀ n, Consumes R 0 (items ctx item n) := by
    intro n
    induction n with
    | zero => exact throw hR _
    | succ n ih =>
      refine bind hR (tries hR (tries_optionalSymbol .listEnd)) fun b => ?_
      cases b with
      | true => exact pure hR _
      | false => exact bind hR hitem fun _ => bind hR ih fun _ => pure hR _
  refine bind hR (tries hR (tries_optionalSymbol .listBegin)) fun b => ?_
  cases b with
  | true => exact bind hR (get hR) fun _ => hitems _
  | false => exact bind hR hitem fun _ => pure hR _

theorem nodeList {node : Reader (Option NodeId)} (hnode : Consumes R 0 node) : Consumes R 0 (nodeList ctx node) := by
  have hitems : ∀ n before, Consumes R 0 (nodeItems ctx node n before) := by
    intro n
    induction n with
    | zero => exact fun _ => throw hR _
    | succ n ih =>
      intro before
      refine bind hR (tries hR (tries_optionalSymbol .listEnd)) fun b => ?_
      cases b with
      | true => exact pure hR _
      | false => exact bind hR (onFailure hR hnode _) fun _ => ih _
  refine bind hR (tries hR (tries_optionalSymbol .listBegin)) fun b => ?_
  cases b with
  | true => exact bind hR (get hR) fun _ => hitems _ _
  | false => exact bind hR hnode fun _ => pure hR _

theorem content {node : Reader (Option NodeId)} (hnode : Consumes R 1 node) (k : Kind) :
    Consumes R 0 (content ctx node k) := by
  obtain ⟨t, d⟩ := k
  cases d with
  | single => cases t <;> exact bind hR (value hR hnode _).uncounted fun _ => pure hR _
  | multi =>
    cases t with
    | node => exact bind hR (nodeList hR hnode.uncounted) fun _ => pure hR _
    | _ => exact bind hR (list hR (value hR hnode _).uncounted) fun _ => pure hR _

/-! ### Fields and statements -/

theorem installRoute (p : Position) (r : RouteText) : Consumes R 0 (installRoute ctx p r) := by
  refine get_bind fun s => ?_
  dsimp only
  split
  · exact warn hR _ _ s
  · refine set_bind hR ?_
    split
    · exact pure hR _
    · exact act hR _

theorem route : Consumes R 0 (route ctx) :=
  bind hR (last hR) fun _ => bind hR (identifier hR _).uncounted fun _ => bind hR (symbol hR _).uncounted fun _ =>
    bind hR (identifier hR _).uncounted fun _ => bind hR (keyword hR _).uncounted fun _ =>
      bind hR (identifier hR _).uncounted fun _ => bind hR (symbol hR _).uncounted fun _ =>
        bind hR (identifier hR _).uncounted fun _ => installRoute hR _ _

theorem use : Consumes R 1 (use ctx) := by
  refine bind hR (identifier hR _) fun name => bind hR (get hR) fun s => ?_
  split
  · exact bind hR (act hR _) fun _ => pure hR _
  · exact bind hR (warn hR _ _) fun _ => pure hR _

theorem nodeValue {declaration : Reader (Option NodeId)} (hdeclaration : Consumes R 1 declaration) :
    Consumes R 1 (nodeValue ctx declaration) :=
  branch hR (tries_optionalKeyword .use) (use hR).uncounted hdeclaration

theorem fieldValue {declaration : Reader (Option NodeId)} (hdeclaration : Consumes R 1 declaration) (id : NodeId)
    (name : String) : Consumes R 0 (fieldValue ctx declaration id name) := by
  refine bind hR (position hR) fun p => bind hR (get hR) fun s => ?_
  split
  · exact bind hR (get hR) fun _ => throw hR _
  · refine bind hR (content hR (nodeValue hR hdeclaration) _) fun value => get_bind fun s => ?_
    refine set_bind hR ?_
    split
    · exact pure hR _
    · exact throw hR _

theorem declareField (id : NodeId) (name : String) (k : Kind) (p : Position) :
    Consumes R 0 (declareField id name k p) := by
  refine get_bind fun s => set_bind hR ?_
  split
  · exact pure hR _
  · exact throw hR _

end Consumes

/-! ### Bodies and declarations -/

/-- What stands before the value of a field in a body: the name of the field, which may be new. Anything else is an
entry of its own, or the end of the body. -/
def label (ctx : DocumentContext) (id : NodeId) : Reader (Option Unit ⊕ String) := do
  let p ← position ctx
  match ← peek? with
  | some (.symbol .nodeEnd) => pop ctx; return .inl (some ())
  | some (.keyword .route) => pop ctx; route ctx; return .inl none
  | some (.keyword (.kind k)) =>
    pop ctx
    let name ← identifier ctx "a dynamic field name"
    declareField id name k p
    return .inr name
  | some (.identifier name) =>
    pop ctx
    match (← get).world.node? id with
    | some n => unless n.hasField name do throw (.unknownField n.typeName name p)
    | none => pure ()
    return .inr name
  | some (.invalid raw) =>
    pop ctx
    act (·.log .error
      s!"Error in \"{ctx.file}\", {p.text}: {(Token.invalid raw).text}, trying the next field")
    return .inl none
  | _ => unexpected ctx "a field name or '\x7d'"

/-- Nothing goes on after a failure. -/
theorem unexpected_bind (expected : String) (q : α → Reader β) :
    unexpected ctx expected >>= q = unexpected ctx expected := by
  rw [unexpected, unexpected, bind_assoc]
  refine bind_congr fun t => ?_
  cases t <;> simp

theorem bodyEntry_eq (declaration : Reader (Option NodeId)) (id : NodeId) :
    bodyEntry ctx declaration id = label ctx id >>= Sum.elim pure fun name => do
      fieldValue ctx declaration id name
      return none := by
  rw [bodyEntry, label, bind_assoc]
  refine bind_congr fun p => ?_
  rw [bind_assoc]
  refine bind_congr fun t => ?_
  split
  case h_4 name _ =>
    rw [bind_assoc]
    refine bind_congr fun _ => ?_
    rw [bind_assoc]
    refine bind_congr fun s => ?_
    cases s.world.node? id with
    | none => simp
    | some n =>
      dsimp only
      split <;> simp
  all_goals simp [unexpected_bind]

/-- What stands before the body of a declaration: its type, and perhaps a name. There is nothing after `NULL`. -/
def heading (ctx : DocumentContext) : Reader (Option (Option String × String)) := do
  if ← optionalKeyword ctx .null then return none
  let isNamed ← optionalKeyword ctx .define
  let name ← if isNamed then some <$> identifier ctx "a node name after DEF" else pure none
  let typeName ← identifier ctx "a node type"
  return some (name, typeName)

/-- Makes the node of a declaration and takes the brace that opens its body. There is no node, and no body left, if the
type is unknown. -/
def make (ctx : DocumentContext) (name : Option String) (typeName : String) :
    Reader (Option (NodeId × String × Position)) := do
  let p ← last
  match ← request ctx typeName with
  | none =>
    symbol ctx .nodeBegin
    skipBody ctx
    warn ctx p s!"skipped unknown node type '{typeName}'"
    return none
  | some id =>
    match name with
    | some name => act (·.setName id name)
    | none => pure ()
    onFailure (symbol ctx .nodeBegin) (·.drop id)
    return some (id, typeName, p)

/-- A declaration up to its body. -/
def opening (ctx : DocumentContext) : Reader (Option (NodeId × String × Position)) := do
  if ctx.control.isCancelled (← get).asked then throw .cancelled
  match ← heading ctx with
  | none => return none
  | some (name, typeName) => make ctx name typeName

theorem level_eq (nested : Reader (Option NodeId)) : level ctx nested = (do
    match ← opening ctx with
    | none => return none
    | some (id, typeName, p) => closeBody ctx id typeName p (← attempt (body ctx nested id))) := by
  have hmake : ∀ name, afterName ctx nested name = (do
      let typeName ← identifier ctx "a node type"
      match ← make ctx name typeName with
      | none => return none
      | some (id, typeName, p) => closeBody ctx id typeName p (← attempt (body ctx nested id))) := by
    intro name
    rw [afterName_eq]
    refine bind_congr fun typeName => ?_
    rw [make, bind_assoc]
    refine bind_congr fun p => ?_
    rw [afterType, bind_assoc]
    refine bind_congr fun o => ?_
    cases o <;> simp
    cases name <;> simp
  rw [level, opening, bind_assoc]
  refine bind_congr fun s => ?_
  split
  · rfl
  rw [heading, bind_assoc, bind_assoc]
  refine bind_congr fun b => ?_
  cases b with
  | true => rfl
  | false =>
    simp only [Bool.false_eq_true, if_false, bind_assoc]
    refine bind_congr fun isNamed => ?_
    cases isNamed <;> simp [hmake]

/-- The relation does not mind a request that is free to be made either. -/
structure Heeds (ctx : DocumentContext) (R : ReaderState → ReaderState → Prop) : Prop extends Lenient R where
  request : ∀ {s} w, ctx.control.isCancelled s.asked = false →
    R s { s with asked := s.asked + 1, checkpoints := s.progress :: s.checkpoints, world := w }

/-- Where only the tokens are counted, anything may happen. -/
theorem heeds_true (ctx : DocumentContext) : Heeds ctx fun _ _ => True where
  quiet _ := trivial
  trans _ _ := trivial
  request _ _ := trivial

namespace Consumes

theorem label (hR : Lenient R) (id : NodeId) : Consumes R 1 (label ctx id) := by
  intro s
  rw [ConsumesAt, Reader.label, exec_bind_ok (exec_position ctx s), exec_bind_ok (exec_peek? s)]
  split
  · rename_i hhead
    exact pop_bind hR hhead (pure hR _)
  · rename_i hhead
    exact pop_bind hR hhead (bind hR (route hR) fun _ => pure hR _)
  · rename_i k hhead
    exact pop_bind hR hhead (bind hR (identifier hR _).uncounted fun name =>
      bind hR (declareField hR id name k _) fun _ => pure hR _)
  · rename_i name hhead
    refine pop_bind hR hhead (bind hR (get hR) fun s => ?_)
    cases s.world.node? id with
    | none => exact pure hR _
    | some n =>
      dsimp only
      split
      · exact pure hR _
      · exact bind hR (throw hR _) fun _ => pure hR _
  · rename_i raw hhead
    exact pop_bind hR hhead (bind hR (act hR _) fun _ => pure hR _)
  · exact unexpected hR _ s

/-- **An entry of a body takes a token**, if declarations do. -/
theorem bodyEntry (hR : Lenient R) {declaration : Reader (Option NodeId)} (hdeclaration : Consumes R 1 declaration)
    (id : NodeId) : Consumes R 1 (bodyEntry ctx declaration id) := by
  rw [bodyEntry_eq]
  refine bind hR (label hR id) fun r => ?_
  cases r with
  | inl r => exact pure hR r
  | inr name => exact bind hR (fieldValue hR hdeclaration id name) fun _ => pure hR _

theorem heading (hR : Lenient R) : Consumes R 1 (heading ctx) := by
  refine branch hR (tries_optionalKeyword .null) (pure hR _) ?_
  have htype : ∀ name, Consumes R 1 (do
      let typeName ← Reader.identifier ctx "a node type"
      return some (name, typeName) : Reader (Option (Option String × String))) :=
    fun name => bind hR (identifier hR _) fun typeName => pure hR _
  refine bind_right hR (tries hR (tries_optionalKeyword .define)) fun isNamed => ?_
  cases isNamed with
  | false => exact htype none
  | true => exact bind_right hR ((identifier hR _).map some).uncounted fun name => htype name

variable (hR : Heeds ctx R)
include hR

theorem request {s : ReaderState} (hfree : ctx.control.isCancelled s.asked = false) (typeName : String) :
    ConsumesAt R 0 (request ctx typeName) s := by
  rw [ConsumesAt, Reader.request, exec_bind_ok (exec_modify _ s), exec_bind_ok (exec_act _ _),
    exec_bind_ok (exec_get _)]
  dsimp only
  split
  · exact ⟨hR.request _ hfree, Nat.le_refl _, fun _ _ => Nat.le_refl _⟩
  · refine ⟨hR.request _ hfree, Nat.le_refl _, fun a ha => ?_⟩
    cases ha

theorem make {s : ReaderState} (hfree : ctx.control.isCancelled s.asked = false) (name : Option String)
    (typeName : String) : ConsumesAt R 0 (make ctx name typeName) s := by
  have hL := hR.toLenient
  rw [ConsumesAt, Reader.make, exec_bind_ok (exec_last s)]
  change ConsumesAt R (0 + 0) (Reader.request ctx typeName >>= _) s
  refine at_bind hL (request hR hfree typeName) fun o t _ => ?_
  have hopened : ∀ id, Consumes R 0 (do
      Reader.onFailure (Reader.symbol ctx .nodeBegin) (·.drop id)
      return some (id, typeName, s.last) : Reader (Option (NodeId × String × Position))) :=
    fun id => bind hL (onFailure hL (symbol hL _).uncounted _) fun _ => pure hL _
  cases o with
  | none =>
    exact bind hL (symbol hL _).uncounted (fun _ => bind hL (skipBody hL) fun _ => bind hL (warn hL _ _) fun _ =>
      pure hL _) t
  | some id =>
    cases name with
    | none => exact hopened id t
    | some name => exact bind hL (act hL _) (fun _ => hopened id) t

/-- The host has not asked to stop when a declaration asks for its node. -/
theorem opening : Consumes R 1 (opening ctx) := by
  have hL := hR.toLenient
  refine get_bind fun s => ?_
  split
  · exact throw hL _ s
  rename_i hfree
  change ConsumesAt R (1 + 0) (Reader.heading ctx >>= _) s
  refine at_bind hL (heading hL s) fun o t hheading => ?_
  -- the request comes after the heading, where no more nodes have been asked for than when the control was looked at
  have hquiet : Quiet s t := by
    have hquiet : Consumes Quiet 1 (Reader.heading ctx) := heading Quiet.lenient
    have hrel := (hquiet s).1
    rwa [hheading] at hrel
  cases o with
  | none => exact pure hL _ t
  | some o => exact make hR (hquiet.asked ▸ Bool.eq_false_iff.2 hfree) o.1 o.2

theorem body {declaration : Reader (Option NodeId)} (hdeclaration : Consumes R 1 declaration) (id : NodeId) :
    Consumes R 0 (body ctx declaration id) := loop hR.toLenient (bodyEntry hR.toLenient hdeclaration id).uncounted

omit hR in
theorem closeBody (hL : Lenient R) (id : NodeId) (typeName : String) (p : Position) (r : Except ReadError Unit) :
    Consumes R 0 (closeBody ctx id typeName p r) := by
  have hgiveUp : ∀ (f : World → World) (e : ReadError), Consumes R 0 (do
      Reader.act f
      MonadExcept.throw e : Reader (Option NodeId)) :=
    fun f e => bind hL (act hL f) fun _ => throw hL e
  cases r with
  | ok _ => exact pure hL _
  | error e =>
    cases e with
    | layout l => exact hgiveUp _ _
    | cancelled => exact hgiveUp _ _
    | endOfFile p => exact hgiveUp _ _
    | _ =>
      exact bind hL (act hL _) fun _ => bind hL (logError hL _) fun _ => bind hL (onFailure hL (skipBody hL) _) fun _ =>
        bind hL (warn hL _ _) fun _ => bind hL (act hL _) fun _ => pure hL _

theorem level {nested : Reader (Option NodeId)} (hnested : Consumes R 1 nested) : Consumes R 1 (level ctx nested) := by
  have hL := hR.toLenient
  rw [level_eq]
  refine bind hL (opening hR) fun o => ?_
  cases o with
  | none => exact pure hL _
  | some o => exact bind hL (attempt (body hR hnested o.1)) fun r => closeBody hL _ _ _ r

/-- **A declaration takes a token**, however deep it may nest. -/
theorem declarationUpTo (depth : Nat) : Consumes R 1 (declarationUpTo ctx depth) := by
  induction depth with
  | zero => exact throw hR.toLenient _
  | succ depth ih => exact level hR ih

theorem declaration : Consumes R 1 (declaration ctx) :=
  bind_right hR.toLenient (get hR.toLenient) fun _ => declarationUpTo hR _

theorem statement : Consumes R 1 (statement ctx) := by
  have hL := hR.toLenient
  have hscene : ∀ f : Scene → Scene, Consumes R 0 (modify fun s => { s with scene := f s.scene } : Reader Unit) :=
    fun f => still hL fun _ => ⟨⟨rfl, rfl⟩, rfl⟩
  refine branch hL (tries_optionalKeyword .route) (bind hL (route hL) fun _ => pure hL _) ?_
  refine branch hL (tries_optionalKeyword .metadata) ?_ ?_
  · exact bind hL (bind hL (quoted hL _).uncounted fun key => bind hL (quoted hL _).uncounted fun value =>
      hscene (·.insertMetadata key value)) fun _ => pure hL _
  refine branch hL (tries_optionalKeyword .profile) ?_ (declaration hR)
  exact bind hL (bind hL (identifier hL _).uncounted fun name => hscene ({ · with profile := some name })) fun _ =>
    pure hL _

omit hR in
theorem publishProgress (hL : Lenient R) : Consumes R 0 (publishProgress ctx) := by
  refine still hL fun s => ?_
  obtain ⟨progress, hprogress⟩ := exec_publishProgress ctx s
  rw [hprogress]
  exact ⟨⟨rfl, rfl⟩, rfl⟩

theorem statements (n : Nat) (before : List NodeId) : Consumes R 0 (statements ctx n before) := by
  have hL := hR.toLenient
  induction n generalizing before with
  | zero => exact pure hL _
  | succ n ih =>
    refine bind hL (peek? hL) fun t => ?_
    cases t with
    | none => exact pure hL _
    | some t =>
      refine bind hL (publishProgress hL) fun _ => bind hL (get hL) fun s => ?_
      refine bind hL (attempt (statement hR)) fun r => ?_
      have hgo : Consumes R 0 (do
          if (← MonadState.get).lexemes.length = s.lexemes.length then Reader.pop ctx
          Reader.statements ctx n before) := by
        refine bind hL (get hL) fun u => ?_
        split
        · exact bind hL (pop hL) fun _ => ih before
        · exact ih before
      cases r with
      | ok node => exact ih _
      | error e =>
        cases e with
        | cancelled => exact bind hL (act hL _) fun _ => throw hL _
        | layout l => exact bind hL (act hL _) fun _ => throw hL _
        | endOfFile p => exact bind hL (logError hL _) fun _ => pure hL _
        | _ => exact bind hL (logError hL _) fun _ => hgo

theorem document : Consumes R 0 (document ctx) := by
  have hL := hR.toLenient
  refine bind hL (onFailure hL (bind hL (get hL) fun s => statements hR _ _) _) fun nodes => get_bind fun s => ?_
  refine set_bind hL ?_
  split
  · exact bind hL (act hL _) fun _ => throw hL _
  · refine bind hL (act hL _) fun _ => ?_
    have htell : Consumes R 0 (do
        let s ← MonadState.get
        Reader.act (·.log .debug s!"parsed {ctx.file} with {(s.scene.children s.world).length} top-level nodes")
        : Reader Unit) := bind hL (get hL) fun _ => act hL _
    split
    · exact bind hL (still hL fun _ => ⟨⟨rfl, rfl⟩, rfl⟩) fun _ => htell
    · exact htell

end Consumes

end Reader

end SceneGraph
