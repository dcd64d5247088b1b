import SceneGraph.Proofs.Document.Consuming
import SceneGraph.Proofs.Document.Invariants
import SceneGraph.Proofs.Document.Settled
import SceneGraph.Proofs.World.Kinds

/-!
# The handles that readers hold

A reader holds what it has made until somebody else takes it over, and an answer comes with the handles of the
nodes in it. A reader that fails gives back all that it held (`Reader.Accounts`), so handles are never lost, neither
in a declaration that is skipped nor in a document that fails.

* `Reader.Accounts.declarationUpTo`: a declaration comes with the handle of its node, if it has one.
* `Document.held_read`: a document that was read comes with the handle of the root, and one that failed with none.
-/

namespace SceneGraph

namespace World

variable {w : World} {ids rest : List NodeId}

/-- Handles are given back, whatever goes with them. -/
theorem held_dropAll_perm (h : w.held.Perm (ids ++ rest)) : (w.dropAll ids).held.Perm rest := by
  rw [dropAll, (calm_release ids _).held]
  exact foldl_erase_perm h

theorem held_discard (w : World) (id : NodeId) : (w.discard id).held = w.held :=
  (calm_release _ _).held.trans (retains_setName w id "").held

theorem held_addField (w : World) (id : NodeId) (name : String) (value : Field) :
    (w.addField id name value).2.held = w.held := by
  obtain ⟨-, heq⟩ | ⟨e, heq⟩ | ⟨n, -, -, -, heq⟩ := addField_cases w id name value <;> rw [heq]
  rfl

theorem held_addConnection (w : World) (id : NodeId) (output : String) (route : Route) :
    (w.addConnection id output route).2.held = w.held :=
  (proceeds_addConnection Catalog.withScenes w id output route).held

theorem held_specification {w' : World} {typeName : String} {fields : List FieldSpec} {spec : Specification}
    (h : w.specification typeName fields = .ok (spec, w')) : w'.held = w.held := by
  obtain ⟨table, rfl⟩ := specification_eq h
  rfl

/-- A node that is made on demand is held. -/
theorem held_createOfType {w' : World} {types : Catalog} {typeName : String} {env : Environment} {o : Option NodeId}
    (h : w.createOfType types typeName env = .ok (o, w')) : w'.held = o.toList ++ w.held := by
  obtain ⟨rfl, rfl⟩ | ⟨t, -, spec, v, hspec, rfl, rfl⟩ := createOfType_cases h
  · rfl
  · have hheld : v.held = w.held := held_specification hspec
    exact congrArg (_ :: ·) hheld

theorem held_createScene (w : World) (library filename : String) (renders : Bool) (time : Timestamp) :
    (Scene.create w library filename renders time).2.held = ⟨w.registry.lastId + 1⟩ :: w.held := by
  unfold Scene.create
  dsimp only
  split
  · rename_i made hspec
    have hkept : made.2.held = w.nextId.2.held := held_specification hspec
    exact congrArg (_ :: ·) hkept
  · rfl

end World

namespace Reader

variable {α β : Type} {ctx : DocumentContext} {given mine : List NodeId} {s t : ReaderState}

/-- The handles that come with an answer. A failure comes with none. -/
def keeping (taken : α → List NodeId) : Except ReadError α → List NodeId
  | .ok a => taken a
  | .error _ => []

/-- In a reading of the scene of the context, the reader is handed the handles of some nodes, and ends with those that
come with its answer. All others stay. -/
def AccountsAt (ctx : DocumentContext) (given : List NodeId) (p : Reader α) (taken : α → List NodeId)
    (s : ReaderState) : Prop :=
  ∀ rest, s.world.held.Perm (given ++ rest) → s.scene.root = ctx.environment.scene →
    (exec p s).2.world.held.Perm (keeping taken (exec p s).1 ++ rest) ∧
      (exec p s).2.scene.root = ctx.environment.scene

/-- So does it from every state on. -/
def Accounts (ctx : DocumentContext) (given : List NodeId) (p : Reader α) (taken : α → List NodeId) : Prop :=
  ∀ s, AccountsAt ctx given p taken s

/-- A reader that has nothing to do with handles when it ends. -/
abbrev Neutral (ctx : DocumentContext) (p : Reader α) : Prop := Accounts ctx [] p fun _ => []

namespace Accounts

variable {p : Reader α} {q : α → Reader β} {taken : α → List NodeId} {taken' : β → List NodeId}

/-! ### Composition -/

theorem pure (a : α) (h : taken a = given) : Accounts ctx given (Pure.pure a) taken := by
  intro s rest hheld hroot
  subst h
  exact ⟨hheld, hroot⟩

theorem throw (e : ReadError) : Accounts ctx [] (throw e : Reader α) taken := fun _ _ hheld hroot => ⟨hheld, hroot⟩

/-- The second step is handed the handles that come with the answer of the first. -/
theorem at_bind (hp : AccountsAt ctx given p taken s)
    (hq : ∀ a t, exec p s = (.ok a, t) → AccountsAt ctx (taken a) (q a) taken' t) :
    AccountsAt ctx given (p >>= q) taken' s := by
  intro rest hheld hroot
  have hfirst := hp rest hheld hroot
  rw [exec_bind]
  generalize exec p s = r at hfirst hq ⊢
  obtain ⟨e | a, t⟩ := r
  · exact hfirst
  · exact hq a t rfl rest hfirst.1 hfirst.2

theorem bind (hp : Accounts ctx given p taken) (hq : ∀ a, Accounts ctx (taken a) (q a) taken') :
    Accounts ctx given (p >>= q) taken' := fun s => at_bind (hp s) fun a t _ => hq a t

theorem map {f : α → β} (h : Accounts ctx given p fun a => taken' (f a)) : Accounts ctx given (f <$> p) taken' := by
  intro s rest hheld hroot
  have hp := h s rest hheld hroot
  rw [exec_map]
  generalize exec p s = r at hp ⊢
  obtain ⟨e | a, t⟩ := r <;> exact hp

/-- A reader that looks at the state first. -/
theorem get_bind {q : ReaderState → Reader β} (h : ∀ s, AccountsAt ctx given (q s) taken' s) :
    Accounts ctx given (get >>= q) taken' := by
  intro s rest hheld hroot
  rw [exec_bind_ok (exec_get s)]
  exact h s rest hheld hroot

theorem given_perm {given' : List NodeId} (hperm : given'.Perm given) (h : AccountsAt ctx given p taken s) :
    AccountsAt ctx given' p taken s := fun rest hheld => h rest (hheld.trans (hperm.append_right rest))

/-- A reader that keeps whatever there is to keep leaves the world alone. -/
theorem of_keeps (h : ∀ I, Keeps ctx I p fun _ => True) : Neutral ctx p := by
  intro s rest hheld hroot
  obtain ⟨hworld, hroot', -⟩ := h (· = s.world) s rfl hroot
  rw [hworld]
  refine ⟨?_, hroot'⟩
  cases (exec p s).1 <;> exact hheld

/-- A reader that always has an answer and leaves world and scene alone. -/
theorem still (h : ∀ s, ∃ a t, exec p s = (.ok a, t) ∧ t.world = s.world ∧ t.scene = s.scene) :
    Accounts ctx given p fun _ => given := by
  intro s rest hheld hroot
  obtain ⟨a, t, hrun, hworld, hscene⟩ := h s
  rw [hrun]
  exact ⟨hworld ▸ hheld, hscene ▸ hroot⟩

theorem act {f : World → World} (h : ∀ w, (f w).held = w.held) :
    Accounts ctx given (Reader.act f) fun _ => given := fun s _ hheld hroot => ⟨(h s.world).symm ▸ hheld, hroot⟩

/-- The world changes, and then the reader goes on. -/
theorem set_bind (given' : List NodeId) {w : World} {q : Reader α}
    (hheld : ∀ rest, s.world.held.Perm (given ++ rest) → w.held.Perm (given' ++ rest))
    (hq : Accounts ctx given' q taken) : AccountsAt ctx given (do set { s with world := w }; q) taken s := by
  intro rest hs hroot
  rw [exec_bind_ok (exec_set s _)]
  exact hq { s with world := w } rest (hheld rest hs) hroot

theorem dropAll (ids : List NodeId) : Accounts ctx (ids ++ given) (Reader.act (·.dropAll ids)) fun _ => given := by
  intro s rest hheld hroot
  rw [List.append_assoc] at hheld
  exact ⟨World.held_dropAll_perm hheld, hroot⟩

theorem drop (id : NodeId) : Accounts ctx (id :: given) (Reader.act (·.drop id)) fun _ => given := dropAll [id]

/-- Handles that a reader has nothing to do with are given back if it fails. -/
theorem onFailure (h : Accounts ctx given p taken) (mine : List NodeId) :
    Accounts ctx (given ++ mine) (Reader.onFailure p (·.dropAll mine)) fun a => taken a ++ mine := by
  intro s rest hheld hroot
  rw [List.append_assoc] at hheld
  have hp := h s (mine ++ rest) hheld hroot
  rw [exec_onFailure]
  generalize exec p s = r at hp ⊢
  obtain ⟨e | a, t⟩ := r
  · exact ⟨World.held_dropAll_perm hp.1, hp.2⟩
  · exact ⟨(List.append_assoc ..).symm ▸ hp.1, hp.2⟩

/-- Handles that a reader has nothing to do with stay, also if it fails. -/
theorem attempt (h : Accounts ctx given p taken) (mine : List NodeId) :
    Accounts ctx (given ++ mine) (Reader.attempt p) fun r => keeping taken r ++ mine := by
  intro s rest hheld hroot
  rw [List.append_assoc] at hheld
  obtain ⟨hheld', hroot'⟩ := h s (mine ++ rest) hheld hroot
  rw [exec_attempt]
  exact ⟨(List.append_assoc ..).symm ▸ hheld', hroot'⟩

theorem loop {p : Reader (Option α)} (h : Neutral ctx p) : Neutral ctx (Reader.loop ctx p) := by
  have huntil : ∀ n, Neutral ctx (untilSome ctx p n) := by
    intro n
    induction n with
    | zero => exact throw _
    | succ n ih =>
      refine h.bind fun o => ?_
      cases o with
      | some a => exact pure a rfl
      | none => exact ih
  exact get_bind fun s => huntil _ s

/-! ### Tokens and values -/

theorem warn (p : Position) (text : String) : Accounts ctx given (warn ctx p text) fun _ => given := act fun _ => rfl

theorem logError (e : ReadError) : Accounts ctx given (logError ctx e) fun _ => given := act fun _ => rfl

theorem position : Accounts ctx given (position ctx) fun _ => given := still fun s => ⟨_, s, rfl, rfl, rfl⟩

theorem last : Accounts ctx given last fun _ => given := still fun s => ⟨_, s, rfl, rfl, rfl⟩

theorem peek? : Accounts ctx given Reader.peek? fun _ => given := still fun s => ⟨_, s, exec_peek? s, rfl, rfl⟩

theorem pop : Accounts ctx given (pop ctx) fun _ => given := still fun s => by
  obtain ⟨t, hrun, hworld, hscene, -⟩ := exec_pop_any ctx s
  exact ⟨_, t, hrun, hworld, hscene⟩

theorem tries {test : Token → Bool} {b : Reader Bool} (hb : Tries ctx test b) : Accounts ctx given b fun _ => given := by
  refine still fun s => ?_
  have hrun := hb s
  split at hrun
  · obtain ⟨t, hpop, hworld, hscene, -⟩ := exec_pop_any ctx s
    rw [hpop] at hrun
    exact ⟨_, t, hrun, hworld, hscene⟩
  · exact ⟨_, s, hrun, rfl, rfl⟩

theorem identifier (expected : String) : Neutral ctx (identifier ctx expected) := of_keeps fun _ => .identifier _

theorem symbol (c : Symbol) : Neutral ctx (symbol ctx c) := of_keeps fun _ => .symbol c

theorem skipBody : Neutral ctx (skipBody ctx) := of_keeps fun _ => .skipBody

theorem vector3 : Neutral ctx (vector3 ctx) := of_keeps fun _ => .vector3

theorem rotation : Neutral ctx (rotation ctx) := by
  refine vector3.bind fun axis => (of_keeps fun _ => .float).bind fun angle => ?_
  split
  · exact pure _ rfl
  · exact last.bind fun p => (warn p _).bind fun _ => pure _ rfl

/-- A value that is no node. -/
theorem plainValue (node : Reader (Option NodeId)) {t : FieldType} (ht : t ≠ .node) :
    Neutral ctx (value ctx node t) := by
  cases t with
  | node => exact absurd rfl ht
  | boolean | int | time | string => exact of_keeps fun _ => .token _ _
  | float => exact of_keeps fun _ => .float
  | color => exact vector3.bind fun _ => pure _ rfl
  | rotation => exact rotation
  | vector2 => exact of_keeps fun _ => .vector2
  | vector3 => exact vector3
  | vector4 => exact of_keeps fun _ => .vector4
  | matrix3 => exact vector3.bind fun _ => vector3.bind fun _ => vector3.bind fun _ => pure _ rfl
  | matrix4 =>
    have hrow : Neutral ctx (Reader.vector4 ctx) := of_keeps fun _ => .vector4
    exact hrow.bind fun _ => hrow.bind fun _ => hrow.bind fun _ => hrow.bind fun _ => pure _ rfl

theorem list {item : Reader α} (h : Neutral ctx item) : Neutral ctx (list ctx item) := by
  have hitems : ∀ n, Neutral ctx (items ctx item n) := by
    intro n
    induction n with
    | zero => exact throw _
    | succ n ih =>
      refine (tries (tries_optionalSymbol .listEnd)).bind fun b => ?_
      cases b with
      | true => exact pure [] rfl
      | false => exact h.bind fun _ => ih.bind fun _ => pure _ rfl
  refine (tries (tries_optionalSymbol .listBegin)).bind fun b => ?_
  cases b with
  | true => exact get_bind fun s => hitems _ s
  | false => exact h.bind fun _ => pure _ rfl

/-! ### Nodes -/

/-- The nodes read so far are held. Each of them takes a token, so the bound on their number is never reached, where
their handles would be lost. -/
theorem nodeItems {node : Reader (Option NodeId)} (hnode : Accounts ctx [] node Option.toList)
    (htakes : Consumes (fun _ _ => True) 1 node) {n : Nat} {before : List NodeId} (hn : s.lexemes.length < n) :
    AccountsAt ctx before (nodeItems ctx node n before) id s := by
  have hlenient := (heeds_true ctx).toLenient
  induction n generalizing before s with
  | zero => exact absurd hn (Nat.not_lt_zero _)
  | succ n ih =>
    refine at_bind (tries (tries_optionalSymbol .listEnd) s) fun b t hsign => ?_
    cases b with
    | true => exact fun rest hheld hroot => ⟨hheld, hroot⟩
    | false =>
      have hle : t.lexemes.length ≤ s.lexemes.length := by
        have htries : Consumes (fun _ _ => True) 0 (optionalSymbol ctx .listEnd) :=
          .tries hlenient (tries_optionalSymbol .listEnd)
        have hcount := (htries s).2.1
        rwa [hsign] at hcount
      refine at_bind (hnode.onFailure before t) fun next u hrun => ?_
      have hlt := (Consumes.onFailure hlenient htakes (·.dropAll before)).length_lt hrun
      exact given_perm List.perm_append_comm (ih (by omega))

theorem nodeList {node : Reader (Option NodeId)} (hnode : Accounts ctx [] node Option.toList)
    (htakes : Consumes (fun _ _ => True) 1 node) : Accounts ctx [] (nodeList ctx node) id := by
  refine (tries (tries_optionalSymbol .listBegin)).bind fun b => ?_
  cases b with
  | true => exact get_bind fun s => nodeItems hnode htakes (Nat.lt_succ_self _)
  | false => exact hnode.bind fun _ => pure _ rfl

/-- The nodes in the content of a field are held. -/
theorem content {node : Reader (Option NodeId)} (hnode : Accounts ctx [] node Option.toList)
    (htakes : Consumes (fun _ _ => True) 1 node) (k : Kind) :
    Accounts ctx [] (content ctx node k) Field.references := by
  obtain ⟨t, d⟩ := k
  by_cases ht : t = .node
  · subst ht
    cases d with
    | single =>
      refine hnode.bind fun v => pure _ ?_
      cases v <;> rfl
    | multi => exact (nodeList hnode htakes).bind fun ids => pure _ (Field.references_nodes ids ctx.time)
  · cases d with
    | single => exact (plainValue node ht).bind fun _ => pure _ (Field.references_eq_nil ht)
    | multi =>
      have hcontent : Reader.content ctx node ⟨t, .multi⟩ =
          (do return .multi t (← Reader.list ctx (Reader.value ctx node t)) ctx.time) := by
        cases t <;> first | rfl | exact absurd rfl ht
      rw [hcontent]
      exact (list (plainValue node ht)).bind fun _ => pure _ (Field.references_eq_nil ht)

theorem use : Accounts ctx [] (use ctx) Option.toList := by
  refine (identifier _).bind fun name => get_bind fun s => ?_
  split
  · intro rest hheld hroot
    exact ⟨hheld.cons _, hroot⟩
  · have hnone : Accounts ctx [] (do
        Reader.warn ctx s.last s!"USE of unknown node '{name}'"
        return none) Option.toList := (warn _ _).bind fun _ => pure none rfl
    exact hnone s

theorem nodeValue {declaration : Reader (Option NodeId)} (h : Accounts ctx [] declaration Option.toList) :
    Accounts ctx [] (nodeValue ctx declaration) Option.toList := by
  refine (tries (tries_optionalKeyword .use)).bind fun b => ?_
  cases b with
  | true => exact use
  | false => exact h

/-! ### Bodies -/

theorem installRoute (p : Position) (r : RouteText) : Neutral ctx (installRoute ctx p r) := by
  refine get_bind fun s => ?_
  split
  · exact warn p _ s
  · rename_i a output b input _
    have hkept := s.world.held_addConnection a.id output ⟨b.id, input⟩
    generalize s.world.addConnection a.id output ⟨b.id, input⟩ = r at hkept ⊢
    obtain ⟨added, w⟩ := r
    refine set_bind [] (fun rest hheld => hkept.symm ▸ hheld) ?_
    cases added with
    | true => exact pure () rfl
    | false => exact act fun _ => rfl

theorem route : Neutral ctx (route ctx) := by
  have hkeyword : Neutral ctx (keyword ctx .destination) := of_keeps fun _ => .keyword _
  exact last.bind fun _ => (identifier _).bind fun _ => (symbol _).bind fun _ => (identifier _).bind fun _ =>
    hkeyword.bind fun _ => (identifier _).bind fun _ => (symbol _).bind fun _ => (identifier _).bind fun _ =>
      installRoute _ _

/-- The nodes in the value of a field are held until the field has it. -/
theorem fieldValue {declaration : Reader (Option NodeId)} (h : Accounts ctx [] declaration Option.toList)
    (htakes : Consumes (fun _ _ => True) 1 declaration) (id : NodeId) (name : String) :
    Neutral ctx (fieldValue ctx declaration id name) := by
  refine position.bind fun p => get_bind fun s => ?_
  split
  · exact get_bind (fun t => throw _ t) s
  · refine (content (nodeValue h) (.nodeValue (heeds_true ctx).toLenient htakes) _).bind (fun value => ?_) s
    refine get_bind fun s => ?_
    have hkept := (World.retains_initField s.world id name value).held
    generalize s.world.initField id name value = r at hkept ⊢
    obtain ⟨result, w⟩ := r
    refine set_bind [] (fun rest hheld => World.held_dropAll_perm (hkept.symm ▸ hheld)) ?_
    cases result with
    | ok _ => exact pure () rfl
    | error e => exact throw _

theorem declareField (id : NodeId) (name : String) (k : Kind) (p : Position) :
    Neutral ctx (declareField id name k p) := by
  refine get_bind fun s => ?_
  have hkept := s.world.held_addField id name (.initial k)
  generalize s.world.addField id name (.initial k) = r at hkept ⊢
  obtain ⟨result, w⟩ := r
  refine set_bind [] (fun rest hheld => hkept.symm ▸ hheld) ?_
  cases result with
  | ok _ => exact pure () rfl
  | error e => exact throw _

theorem label (id : NodeId) : Neutral ctx (label ctx id) := by
  refine position.bind fun p => peek?.bind fun t => ?_
  split
  · exact pop.bind fun _ => pure _ rfl
  · exact pop.bind fun _ => route.bind fun _ => pure _ rfl
  · exact pop.bind fun _ => (identifier _).bind fun name => (declareField id name _ p).bind fun _ => pure _ rfl
  · rename_i name
    have hname : Neutral ctx (Pure.pure (.inr name) : Reader (Option Unit ⊕ String)) := pure _ rfl
    refine pop.bind fun _ => get_bind fun s => ?_
    split
    · split
      · exact hname s
      · exact throw _ s
    · exact hname s
  · have hnote : Neutral ctx (Reader.act _) := act fun _ => rfl
    exact pop.bind fun _ => hnote.bind fun _ => pure _ rfl
  · exact of_keeps fun _ => .unexpected _

theorem body {declaration : Reader (Option NodeId)} (h : Accounts ctx [] declaration Option.toList)
    (htakes : Consumes (fun _ _ => True) 1 declaration) (id : NodeId) : Neutral ctx (body ctx declaration id) := by
  refine loop ?_
  rw [bodyEntry_eq]
  refine (label id).bind fun r => ?_
  cases r with
  | inl r => exact pure r rfl
  | inr name => exact (fieldValue h htakes id name).bind fun _ => pure none rfl

/-! ### Declarations -/

/-- The node of a declaration is held until its body is closed, and stays so if the body was read. -/
theorem closeBody (id : NodeId) (typeName : String) (p : Position) (r : Except ReadError Unit) :
    Accounts ctx [id] (closeBody ctx id typeName p r) Option.toList := by
  have hdiscard : Accounts ctx [id] (Reader.act (·.discard id)) fun _ => [id] := act fun w => w.held_discard id
  have hgiveUp : ∀ e : ReadError, Accounts ctx [id] (do
      Reader.act fun w => (w.discard id).drop id
      MonadExcept.throw e : Reader (Option NodeId)) Option.toList := by
    intro e s rest hheld hroot
    exact ⟨World.held_dropAll_perm ((World.held_discard ..).symm ▸ hheld), hroot⟩
  cases r with
  | ok _ => exact pure (some id) rfl
  | error e =>
    cases e with
    | layout l => exact (drop id).bind fun _ => throw _
    | cancelled => exact hgiveUp _
    | endOfFile p => exact hgiveUp _
    | _ =>
      exact hdiscard.bind fun _ => (logError _).bind fun _ => (skipBody.onFailure [id]).bind fun _ =>
        (warn _ _).bind fun _ => (drop id).bind fun _ => pure none rfl

theorem request (typeName : String) : Accounts ctx [] (request ctx typeName) Option.toList := by
  intro s rest hheld hroot
  rw [Reader.request, exec_bind_ok (exec_modify _ s), exec_bind_ok (exec_act _ _), exec_bind_ok (exec_get _)]
  dsimp only
  split
  · rename_i id w hcreate
    have hheld' : w.held.Perm (id.toList ++ rest) := World.held_createOfType hcreate ▸ hheld.append_left id.toList
    exact ⟨hheld', hroot⟩
  · exact ⟨hheld, hroot⟩

theorem heading : Neutral ctx (heading ctx) := by
  refine (tries (tries_optionalKeyword .null)).bind fun b => ?_
  cases b with
  | true => exact pure none rfl
  | false =>
    have hname : Neutral ctx (some <$> Reader.identifier ctx "a node name after DEF") := map (identifier _)
    refine (tries (tries_optionalKeyword .define)).bind fun isNamed => ?_
    cases isNamed with
    | true => exact hname.bind fun _ => (identifier _).bind fun _ => pure _ rfl
    | false => exact (identifier _).bind fun _ => pure _ rfl

theorem make (name : Option String) (typeName : String) :
    Accounts ctx [] (make ctx name typeName) fun o => (o.map (·.1)).toList := by
  refine last.bind fun p => (request typeName).bind fun o => ?_
  cases o with
  | none => exact (symbol _).bind fun _ => skipBody.bind fun _ => (warn _ _).bind fun _ => pure none rfl
  | some id =>
    have hopened : Accounts ctx [id] (do
        Reader.onFailure (Reader.symbol ctx .nodeBegin) (·.drop id)
        return some (id, typeName, p) : Reader (Option (NodeId × String × Position))) fun o => (o.map (·.1)).toList :=
      ((symbol _).onFailure [id]).bind fun _ => pure _ rfl
    cases name with
    | none => exact hopened
    | some name => exact (act fun w => (World.retains_setName w id name).held).bind fun _ => hopened

theorem level {nested : Reader (Option NodeId)} (h : Accounts ctx [] nested Option.toList)
    (htakes : Consumes (fun _ _ => True) 1 nested) : Accounts ctx [] (level ctx nested) Option.toList := by
  have hopening : Accounts ctx [] (opening ctx) fun o => (o.map (·.1)).toList := by
    refine get_bind fun s => ?_
    split
    · exact throw _ s
    · refine heading.bind (fun o => ?_) s
      cases o with
      | none => exact pure none rfl
      | some o => exact make o.1 o.2
  rw [level_eq]
  refine hopening.bind fun o => ?_
  cases o with
  | none => exact pure none rfl
  | some o =>
    refine ((body h htakes o.1).attempt [o.1]).bind fun r => ?_
    have hclose : Accounts ctx [o.1] (Reader.closeBody ctx o.1 o.2.1 o.2.2 r) Option.toList :=
      closeBody _ _ _ _
    cases r <;> exact hclose

/-- **A declaration comes with the handle of its node**, if it has one, however deep it nests. What it held besides it
has given back. -/
theorem declarationUpTo (depth : Nat) : Accounts ctx [] (declarationUpTo ctx depth) Option.toList := by
  induction depth with
  | zero => exact throw _
  | succ depth ih => exact level ih (.declarationUpTo (heeds_true ctx) depth)

/-! ### Statements and documents -/

theorem statement : Accounts ctx [] (statement ctx) Option.toList := by
  have hnone : ∀ {p : Reader Unit}, Neutral ctx p → Accounts ctx [] (do p; return none) Option.toList :=
    fun hp => hp.bind fun _ => pure none rfl
  have hscene : ∀ {f : Scene → Scene}, (∀ scene, (f scene).root = scene.root) →
      Neutral ctx (modify fun s => { s with scene := f s.scene } : Reader Unit) :=
    fun hf s _ hheld hroot => ⟨hheld, (hf s.scene).trans hroot⟩
  have hquoted : ∀ expected, Neutral ctx (quoted ctx expected) := fun expected => of_keeps fun _ => .quoted expected
  refine (tries (tries_optionalKeyword .route)).bind fun b => ?_
  cases b with
  | true => exact hnone route
  | false =>
    refine (tries (tries_optionalKeyword .metadata)).bind fun b => ?_
    cases b with
    | true =>
      exact hnone ((hquoted _).bind fun key => (hquoted _).bind fun value =>
        hscene (f := (·.insertMetadata key value)) fun scene => Invariant.root_insertMetadata scene key value)
    | false =>
      refine (tries (tries_optionalKeyword .profile)).bind fun b => ?_
      cases b with
      | true =>
        exact hnone ((identifier _).bind fun name => hscene (f := ({ · with profile := some name })) fun _ => rfl)
      | false => exact get_bind fun s => declarationUpTo _ s

/-- **The top-level nodes are held**, by induction on how many statements may follow. If the reading ends with an
error, they are given back. -/
theorem statements (n : Nat) (before : List NodeId) : Accounts ctx before (statements ctx n before) id := by
  induction n generalizing before with
  | zero => exact pure before rfl
  | succ n ih =>
    refine peek?.bind fun t => ?_
    cases t with
    | none => exact pure before rfl
    | some t =>
      have hprogress : Accounts ctx before (publishProgress ctx) fun _ => before := still fun s => by
        obtain ⟨progress, hrun⟩ := exec_publishProgress ctx s
        exact ⟨_, _, hrun, rfl, rfl⟩
      refine hprogress.bind fun _ => get_bind fun s => ?_
      refine (statement.attempt before).bind (fun r => ?_) s
      have hfatal : ∀ e : ReadError, Accounts ctx before (do
          Reader.act (·.dropAll before)
          MonadExcept.throw e : Reader (List NodeId)) id := by
        intro e
        have hdrop : Accounts ctx (before ++ []) (Reader.act (·.dropAll before)) fun _ => [] := dropAll before
        rw [List.append_nil] at hdrop
        exact hdrop.bind fun _ => throw e
      have hgo : Accounts ctx before (do
          if (← get).lexemes.length = s.lexemes.length then Reader.pop ctx
          Reader.statements ctx n before) id := by
        refine get_bind fun u => ?_
        split
        · exact pop.bind (fun _ => ih before) u
        · exact ih before u
      cases r with
      | ok node => exact fun u => given_perm List.perm_append_comm (ih _ u)
      | error e =>
        cases e with
        | cancelled => exact hfatal _
        | layout l => exact hfatal _
        | endOfFile p => exact (logError _).bind fun _ => pure before rfl
        | _ => exact (logError _).bind fun _ => hgo

/-- The root is held until the reading fails, and stays so if it does not. -/
theorem document : Accounts ctx [ctx.environment.scene] (document ctx) fun _ => [ctx.environment.scene] := by
  have hstatements : Accounts ctx [] (do Reader.statements ctx ((← get).lexemes.length + 1) []) id :=
    get_bind fun s => statements _ [] s
  refine (hstatements.onFailure [ctx.environment.scene]).bind fun nodes => get_bind fun s => ?_
  have hkept : (s.scene.setChildren s.world nodes).2.held = s.world.held := (World.retains_setField ..).held
  generalize s.scene.setChildren s.world nodes = r at hkept ⊢
  obtain ⟨result, w⟩ := r
  refine set_bind [ctx.environment.scene] (fun rest hheld => ?_) ?_
  · rw [← hkept, List.append_assoc] at hheld
    exact World.held_dropAll_perm hheld
  cases result with
  | error e => exact (drop _).bind fun _ => throw _
  | ok _ =>
    refine (act fun w => (World.retains_initializeNode w _ _).held).bind fun _ => ?_
    have htell : Accounts ctx [ctx.environment.scene] (do
        let s ← get
        Reader.act (·.log .debug s!"parsed {ctx.file} with {(s.scene.children s.world).length} top-level nodes"))
        fun _ => [ctx.environment.scene] := get_bind fun s => act (fun _ => rfl) s
    have hdone : Accounts ctx [ctx.environment.scene] (modify ({ · with progress := 1 }) : Reader Unit)
        fun _ => [ctx.environment.scene] := still fun s => ⟨_, _, exec_modify _ s, rfl, rfl⟩
    split
    · exact hdone.bind fun _ => htell
    · exact htell

end Accounts

end Reader

namespace Document

open Reader (exec Accounts)

/-- **A document that was read comes with the handle of its root, and one that failed with none**, whatever the types
of its nodes and the world that it is read into. -/
theorem held_read (d : Document) (w : World) :
    (d.read w).world.held.Perm (((d.read w).result.toOption.map Scene.root).toList ++ w.held) := by
  cases hheader : d.header with
  | error e =>
    rw [read_of_error w hheader]
    exact .refl _
  | ok header =>
    have hstart : (d.start header w).world.held.Perm ([(d.context header w).environment.scene] ++ w.held) :=
      .of_eq (World.held_createScene w _ _ _ (if d.time.isUnset then d.now else d.time))
    have hends := Accounts.document (d.start header w) w.held hstart rfl
    rw [read_outcome w hheader]
    generalize exec (Reader.document (d.context header w)) (d.start header w) = r at hends ⊢
    obtain ⟨hheld, hroot⟩ := hends
    obtain ⟨e | _, t⟩ := r
    · exact hheld
    · rw [← hroot] at hheld
      exact hheld

end Document

end SceneGraph
