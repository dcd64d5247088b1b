import SceneGraph.Proofs.Document.Alongside
import SceneGraph.Proofs.Document.Statements

/-!
# The turns of the loops

Readers loop over the statements of a document, the entries of a body, the items of a list and the tokens
that are skipped, and each loop is bounded by the tokens that are left. `Reader.Turns` tells such a loop
without a bound: a turn leaves the loop with an answer or an error, or it goes on with fewer tokens. That
every loop takes its turns like that, and that a declaration is one level of declarations around
declarations, with no bound on its depth, is `Reader.Loops`.

* `Reader.Correspondence.refl`: a reading runs in parallel to itself.
* `Reader.Turns.of_bounded`: a bounded loop whose turns take tokens, if the bound is not met.
* `Reader.exec_statementTurn_inl`: what a turn over the statements takes if it goes on.
* `Reader.statements_succ`, `untilSome_succ`, `items_succ`, `nodeItems_succ`: loops are made of their turns.
-/

namespace SceneGraph

namespace Field

@[simp] theorem mapNodes_self (f : Field) : f.mapNodes (fun id => id) = f := by
  have hmap : Option.map (fun id : NodeId => id) = fun o => o := funext fun o => by cases o <;> rfl
  obtain ⟨⟨t, d⟩, content, time⟩ := f
  cases t <;> cases d <;> first | rfl | skip
  · exact congrArg (single .node · time) (congrFun hmap content)
  · have hlist : (content : List (Option NodeId)).map (Option.map fun id => id) = content := by
      rw [hmap]
      exact List.map_id content
    exact congrArg (multi .node · time) hlist

end Field

namespace Reader

variable {σ α : Type} {ctx : DocumentContext} {s s' : ReaderState}

/-! ### A reading and itself -/

/-- A reading runs in parallel to itself. -/
theorem Correspondence.refl (hlayouts : LaysOut ctx) :
    Correspondence ctx ctx (fun id => id) (fun _ => True) Eq where
  file := rfl
  time := rfl
  size := rfl
  stop := rfl
  control := rfl
  enter e h := congrArg (World.enter · e) h
  create := by
    rintro w _ typeName rfl
    obtain ⟨o, v, hcreate⟩ := exists_createOfType hlayouts typeName w
    exact ⟨o, v, v, hcreate, by simpa using hcreate, rfl, fun _ _ => trivial⟩
  node := by
    rintro w _ id rfl -
    cases w.node? id with
    | none => exact .none
    | some n => exact .some (.refl n)
  find := by
    rintro w _ name rfl
    cases w.findInScene? name ctx.environment.scene with
    | none => exact .none
    | some n => exact .some ⟨.refl n, trivial⟩
  hold h _ := congrArg (World.hold · _) h
  setName _ h _ := congrArg (World.setName · _ _) h
  initField := by
    rintro w _ id name value rfl - -
    rw [Field.mapNodes_self]
    exact ⟨rfl, rfl⟩
  addField := by
    rintro w _ id name k rfl -
    exact ⟨rfl, rfl⟩
  connect := by
    rintro w _ id target output input rfl - -
    exact ⟨rfl, rfl⟩
  discard h _ := congrArg (World.discard · _) h
  dropAll := by
    rintro w _ ids rfl -
    rw [List.map_id']

/-- The reading deals with the scene of its context. -/
def OfScene (ctx : DocumentContext) (s : ReaderState) : Prop := s.scene.root = ctx.environment.scene

theorem OfScene.twin (h : OfScene ctx s) : Twin Eq ctx ctx s s where
  lexemes := rfl
  last := rfl
  asked := rfl
  progress := rfl
  checkpoints := rfl
  root := h
  scene := by rw [← h]
  world := rfl

/-! ### Turns -/

/-- A loop, from a value and a state on: a turn leaves it with an answer or an error, or the loop goes on
with another value and with fewer tokens. -/
inductive Turns (turn : σ → Reader (σ ⊕ α)) : σ → ReaderState → Except ReadError α × ReaderState → Prop
  | leave {x : σ} {s : ReaderState} {a : α} {s' : ReaderState} (h : exec (turn x) s = (.ok (.inr a), s')) :
      Turns turn x s (.ok a, s')
  | fail {x : σ} {s : ReaderState} {e : ReadError} {s' : ReaderState} (h : exec (turn x) s = (.error e, s')) :
      Turns turn x s (.error e, s')
  | again {x y : σ} {s s' : ReaderState} {r : Except ReadError α × ReaderState}
      (h : exec (turn x) s = (.ok (.inl y), s')) (hless : s'.lexemes.length < s.lexemes.length)
      (hrest : Turns turn y s' r) : Turns turn x s r

/-- A turn that goes on takes a token. -/
def TakesToken (turn : σ → Reader (σ ⊕ α)) : Prop :=
  ∀ x s y s', exec (turn x) s = (.ok (.inl y), s') → s'.lexemes.length < s.lexemes.length

/-- The turns of a bounded loop, if the bound is not met. -/
theorem Turns.of_bounded {turn : σ → Reader (σ ⊕ α)} (loop : Nat → σ → Reader α)
    (hloop : ∀ n x, loop (n + 1) x = turn x >>= Sum.elim (loop n) Pure.pure) (hturn : TakesToken turn) {n : Nat}
    (x : σ) (hlt : s.lexemes.length < n) : Turns turn x s (exec (loop n x) s) := by
  induction n generalizing x s with
  | zero => exact absurd hlt (Nat.not_lt_zero _)
  | succ n ih =>
    rw [hloop, exec_bind]
    cases hrun : exec (turn x) s with
    | mk r s' =>
      obtain e | y | a := r
      · exact .fail hrun
      · have hless := hturn x s y s' hrun
        exact .again hrun hless (ih y (by omega))
      · exact .leave hrun

variable (ctx)

/-- One entry of a body. -/
def bodyTurn (declaration : Reader (Option NodeId)) (id : NodeId) (_ : Unit) : Reader (Unit ⊕ Unit) := do
  match ← bodyEntry ctx declaration id with
  | some a => return .inr a
  | none => return .inl ()

/-- One item of a list, or its end. -/
def itemTurn (item : Reader α) (before : List α) : Reader (List α ⊕ List α) := do
  if ← optionalSymbol ctx .listEnd then return .inr before
  else return .inl (before ++ [← item])

/-- One node of a list, or the end of the list. -/
def nodeTurn (node : Reader (Option NodeId)) (before : List NodeId) : Reader (List NodeId ⊕ List NodeId) := do
  if ← optionalSymbol ctx .listEnd then return .inr before
  else return .inl (before ++ (← onFailure node (·.dropAll before)).toList)

/-- One token that is skipped while some braces are open. -/
def skipTurn : Nat → Reader (Nat ⊕ Unit)
  | 0 => return .inr ()
  | unclosed + 1 => do
    match ← peek? with
    | none => pop ctx; throw (.endOfFile ctx.stop)
    | some t =>
      pop ctx
      return .inl (if t.isSymbol .nodeBegin then unclosed + 2
        else if t.isSymbol .nodeEnd then unclosed else unclosed + 1)

/-- One statement after those whose nodes were read before. -/
def statementTurn (before : List NodeId) : Reader (List NodeId ⊕ List NodeId) := do
  match ← peek? with
  | none => return .inr before
  | some _ =>
    publishProgress ctx
    let left := (← get).lexemes.length
    match ← attempt (statement ctx) with
    | .ok node => return .inl (before ++ node.toList)
    | .error e =>
      match e with
      | .cancelled | .layout _ => act (·.dropAll before); throw e
      | .endOfFile _ => logError ctx e; return .inr before
      | _ =>
        logError ctx e
        if (← get).lexemes.length = left then pop ctx
        return .inl before

/-- Every loop of the readers of a document takes its turns, whatever it reads, and a declaration is one
level of declarations around declarations, with no more levels than tokens. -/
structure Loops : Prop where
  declaration : ∀ s, OfScene ctx s → exec (declaration ctx) s = exec (level ctx (declaration ctx)) s
  depth : ∀ s n, OfScene ctx s → s.lexemes.length < n →
    exec (declarationUpTo ctx n) s = exec (Reader.declaration ctx) s
  statements : ∀ s, OfScene ctx s →
    Turns (statementTurn ctx) [] s (exec (statements ctx (s.lexemes.length + 1) []) s)
  body : ∀ id s, OfScene ctx s →
    Turns (bodyTurn ctx (Reader.declaration ctx) id) () s (exec (body ctx (Reader.declaration ctx) id) s)
  items : ∀ t, t ≠ .node → ∀ s, OfScene ctx s →
    Turns (itemTurn ctx (value ctx (nodeValue ctx (Reader.declaration ctx)) t)) [] s
      (exec (items ctx (value ctx (nodeValue ctx (Reader.declaration ctx)) t) (s.lexemes.length + 1)) s)
  nodeItems : ∀ s, OfScene ctx s →
    Turns (nodeTurn ctx (nodeValue ctx (Reader.declaration ctx))) [] s
      (exec (nodeItems ctx (nodeValue ctx (Reader.declaration ctx)) (s.lexemes.length + 1) []) s)
  skip : ∀ s, OfScene ctx s → Turns (skipTurn ctx) 1 s (exec (skipBody ctx) s)

variable {ctx}

/-- What a turn over the statements does once the progress is published. -/
theorem exec_statementTurn {t : ReaderState} {before : List NodeId} {next : Token}
    (hnext : s.tokens.head? = some next) (hprogress : exec (publishProgress ctx) s = (.ok (), t)) :
    exec (statementTurn ctx before) s =
      exec (do
        match ← attempt (statement ctx) with
        | .ok node => return .inl (before ++ node.toList)
        | .error e =>
          match e with
          | .cancelled | .layout _ => act (·.dropAll before); throw e
          | .endOfFile _ => logError ctx e; return .inr before
          | _ =>
            logError ctx e
            if (← get).lexemes.length = t.lexemes.length then pop ctx
            return .inl before : Reader (List NodeId ⊕ List NodeId)) t := by
  rw [statementTurn, exec_bind_ok (exec_peek? s), hnext]
  exact (exec_bind_ok hprogress _).trans (exec_bind_ok (exec_get t) _)

/-- Before the statements go on, one of them was read, or it failed; where it took no token, one is left out. -/
theorem exec_statementTurn_inl {before y : List NodeId}
    (hrun : exec (statementTurn ctx before) s = (.ok (.inl y), s')) :
    ∃ progress r u, exec (statement ctx) { s with progress } = (r, u) ∧ s'.scene = u.scene ∧
      s'.lexemes.length ≤ u.lexemes.length ∧
        ∀ e, r = .error e → u.lexemes.length = s.lexemes.length → s'.lexemes.length < s.lexemes.length := by
  cases hl : s.lexemes with
  | nil =>
    rw [statementTurn, exec_bind_ok (exec_peek? s), ReaderState.tokens, hl] at hrun
    cases (Prod.mk.inj hrun).1
  | cons l rest =>
    obtain ⟨progress, hprogress⟩ := exec_publishProgress ctx s
    have hnext : s.tokens.head? = some l.token := by rw [ReaderState.tokens, hl]; rfl
    rw [exec_statementTurn hnext hprogress, exec_bind_ok (exec_attempt _ _)] at hrun
    rw [← hl]
    cases hu : exec (statement ctx) { s with progress } with
    | mk r u =>
      rw [hu] at hrun
      obtain e | node := r
      -- the error is noted, and a token is left out unless the statement took one
      · have hgo : ∀ v : ReaderState, v.lexemes = u.lexemes → v.scene = u.scene → exec (do
            if (← get).lexemes.length = s.lexemes.length then pop ctx
            return (Sum.inl before : List NodeId ⊕ List NodeId)) v = (.ok (.inl y), s') →
            s'.scene = u.scene ∧ s'.lexemes.length ≤ u.lexemes.length ∧
              (u.lexemes.length = s.lexemes.length → s'.lexemes.length < s.lexemes.length) := by
          intro v hv hscene hgo
          rw [exec_bind_ok (exec_get v), hv] at hgo
          split at hgo
          · rename_i hsame
            have hpos : 0 < v.lexemes.length := by rw [hv, hsame, hl]; exact Nat.succ_pos _
            obtain ⟨m, more, hm⟩ := List.exists_cons_of_length_pos hpos
            rw [exec_bind_ok (exec_pop_lexeme hm)] at hgo
            obtain ⟨-, rfl⟩ := Prod.mk.inj hgo
            rw [← hsame, ← hv, hm]
            exact ⟨hscene, Nat.le_succ _, fun _ => Nat.lt_succ_self _⟩
          · rename_i hother
            obtain ⟨-, rfl⟩ := Prod.mk.inj hgo
            exact ⟨hscene, Nat.le_of_eq (congrArg _ hv), fun hsame => absurd hsame hother⟩
        have hends : s'.scene = u.scene ∧ s'.lexemes.length ≤ u.lexemes.length ∧
            (u.lexemes.length = s.lexemes.length → s'.lexemes.length < s.lexemes.length) := by
          -- three errors end the reading
          cases e with
          | cancelled => cases (Prod.mk.inj hrun).1
          | layout _ => cases (Prod.mk.inj hrun).1
          | endOfFile _ => cases (Prod.mk.inj hrun).1
          | _ =>
            dsimp only at hrun
            rw [logError, exec_bind_ok (exec_act _ u)] at hrun
            refine hgo _ ?_ ?_ hrun <;> rfl
        exact ⟨progress, _, u, hu, hends.1, hends.2.1, fun _ _ => hends.2.2⟩
      · obtain ⟨-, rfl⟩ := Prod.mk.inj hrun
        refine ⟨progress, _, u, hu, rfl, Nat.le_refl _, fun e he => ?_⟩
        cases he

theorem statements_succ (n : Nat) (before : List NodeId) : statements ctx (n + 1) before =
    statementTurn ctx before >>= Sum.elim (statements ctx n) Pure.pure := by
  rw [statements, statementTurn, bind_assoc]
  refine bind_congr fun t => ?_
  cases t with
  | none => simp
  | some t =>
    dsimp only
    rw [bind_assoc]
    refine bind_congr fun _ => ?_
    rw [bind_assoc]
    refine bind_congr fun s => ?_
    rw [bind_assoc]
    refine bind_congr fun r => ?_
    obtain e | o := r
    · have hgo : (do
          logError ctx e
          if (← get).lexemes.length = s.lexemes.length then pop ctx
          statements ctx n before) =
          (do
            logError ctx e
            if (← get).lexemes.length = s.lexemes.length then pop ctx
            return (Sum.inl before : List NodeId ⊕ List NodeId)) >>= Sum.elim (statements ctx n) Pure.pure := by
        rw [bind_assoc]
        refine bind_congr fun _ => ?_
        rw [bind_assoc]
        refine bind_congr fun u => ?_
        split <;> simp
      cases e with
      | cancelled => rfl
      | layout _ => rfl
      | endOfFile _ => simp
      | _ => exact hgo
    · simp

theorem untilSome_succ {nested : Reader (Option NodeId)} {id : NodeId} (n : Nat) (x : Unit) :
    untilSome ctx (bodyEntry ctx nested id) (n + 1) =
      bodyTurn ctx nested id x >>= Sum.elim (fun _ => untilSome ctx (bodyEntry ctx nested id) n) Pure.pure := by
  rw [untilSome, bodyTurn, bind_assoc]
  refine bind_congr fun o => ?_
  cases o <;> simp

theorem items_succ {item : Reader α} (n : Nat) (before : List α) : (before ++ ·) <$> items ctx item (n + 1) =
    itemTurn ctx item before >>= Sum.elim (fun before => (before ++ ·) <$> items ctx item n) Pure.pure := by
  rw [items, itemTurn, map_bind, bind_assoc]
  refine bind_congr fun b => ?_
  cases b <;> simp

theorem nodeItems_succ {node : Reader (Option NodeId)} (n : Nat) (before : List NodeId) :
    nodeItems ctx node (n + 1) before = nodeTurn ctx node before >>= Sum.elim (nodeItems ctx node n) Pure.pure := by
  rw [nodeItems, nodeTurn, bind_assoc]
  refine bind_congr fun b => ?_
  cases b <;> simp

/-- Skipping takes one token after the other, by induction on those that are left. -/
theorem turns_closeBraces (unclosed : Nat) (s : ReaderState) :
    Turns (skipTurn ctx) unclosed s (exec (closeBraces ctx s.lexemes unclosed) s) := by
  generalize hl : s.lexemes = lexemes
  induction lexemes generalizing unclosed s with
  | nil =>
    cases unclosed with
    | zero => exact .leave rfl
    | succ unclosed =>
      refine .fail ?_
      rw [skipTurn, exec_bind_ok (exec_peek? s), ReaderState.tokens, hl]
      rfl
  | cons l rest ih =>
    cases unclosed with
    | zero => exact .leave rfl
    | succ unclosed =>
      rw [closeBraces, exec_bind_ok (exec_pop_lexeme hl)]
      refine .again ?_ ?_ (ih _ _ rfl)
      · rw [skipTurn, exec_bind_ok (exec_peek? s), ReaderState.tokens, hl]
        rw [List.map_cons, List.head?_cons, exec_bind_ok (exec_pop_lexeme hl)]
        rfl
      · rw [hl]
        exact Nat.lt_succ_self _

end Reader

end SceneGraph
