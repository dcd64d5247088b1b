import SceneGraph.Proofs.Document.Parallel

/-!
# Documents side by side

Declarations and statements that are read into two worlds that correspond (`Reader.Correspondence`) run in
parallel. A declaration takes a token before it gets to those inside, so its depth does not matter as long
as there are no more tokens than levels.

* `Reader.Correspondence.level`: a declaration, if the declarations nested in it run in parallel.
* `Reader.Correspondence.declarationUpTo`: declarations, whatever the bounds on their depth.
* `Reader.Correspondence.statements`: the statements of a document.
-/

namespace SceneGraph

namespace Reader

variable {α β : Type} {ctx ctx' : DocumentContext} {φ : NodeId → NodeId} {Own : NodeId → Prop}
  {W : World → World → Prop} {bound : Nat} {s s' : ReaderState}

namespace Correspondence

variable (C : Correspondence ctx ctx' φ Own W)
include C

/-! ### Routes and fields -/

/-- A route means ends that correspond, or has the same fault. -/
theorem resolveRoute {w w' : World} (hw : W w w') (r : RouteText) :
    (∃ fault, w.resolveRoute ctx.environment.scene r = .error fault ∧
      w'.resolveRoute ctx'.environment.scene r = .error fault) ∨
    ∃ a b a' b' output input, w.resolveRoute ctx.environment.scene r = .ok (a, output, b, input) ∧
      w'.resolveRoute ctx'.environment.scene r = .ok (a', output, b', input) ∧
      a'.id = φ a.id ∧ Own a.id ∧ b'.id = φ b.id ∧ Own b.id := by
  have hsource := C.find r.source hw
  have htarget := C.find r.target hw
  rw [World.resolveRoute, World.resolveRoute]
  generalize w.findInScene? r.source ctx.environment.scene = source at hsource ⊢
  generalize w'.findInScene? r.source ctx'.environment.scene = source' at hsource ⊢
  generalize w.findInScene? r.target ctx.environment.scene = target at htarget ⊢
  generalize w'.findInScene? r.target ctx'.environment.scene = target' at htarget ⊢
  cases hsource with
  | none => exact .inl ⟨_, rfl, rfl⟩
  | @some a a' ha =>
    dsimp only
    rw [ha.1.plainFieldName, ha.1.kind?, ha.1.access?, ha.1.typeName]
    split
    · exact .inl ⟨_, rfl, rfl⟩
    cases htarget with
    | none => exact .inl ⟨_, rfl, rfl⟩
    | @some b b' hb =>
      dsimp only
      rw [hb.1.plainFieldName, hb.1.kind?, hb.1.access?, hb.1.typeName]
      split
      · exact .inl ⟨_, rfl, rfl⟩
      split
      · exact .inl ⟨_, rfl, rfl⟩
      split
      · exact .inl ⟨_, rfl, rfl⟩
      split
      · exact .inl ⟨_, rfl, rfl⟩
      · exact .inr ⟨a, b, a', b', _, _, rfl, rfl, ha.1.id, ha.2, hb.1.id, hb.2⟩

theorem installRoute (p : Position) (r : RouteText) :
    Parallel W ctx ctx' bound 0 (installRoute ctx p r) (installRoute ctx' p r) fun _ _ => True := by
  refine .get_bind fun s s' hs hlt => ?_
  have hroot : s'.scene.root = ctx'.environment.scene := by rw [hs.scene]
  rw [hs.root, hroot]
  obtain ⟨fault, hfault, hfault'⟩ | ⟨a, b, a', b', output, input, hr, hr', ha, hown, hb, hown'⟩ :=
    C.resolveRoute hs.world r
  · rw [hfault, hfault']
    exact C.warn p _ s s' hs hlt
  · obtain ⟨hadded, hw⟩ := C.connect output input hs.world hown hown'
    rw [hr, hr']
    dsimp only
    rw [ha, hb, exec_bind_ok (exec_set s _), exec_bind_ok (exec_set s' _), hadded]
    split
    · exact ⟨hs.change hw, trivial, Nat.le_refl _⟩
    · exact C.enter_act _ _ _ (hs.change hw) hlt

theorem route : Parallel W ctx ctx' bound 0 (route ctx) (route ctx') fun _ _ => True :=
  Parallel.last.bind_eq fun _ => (C.identifier _).bind_eq fun _ => (C.symbol _).bind_eq fun _ =>
    (C.identifier _).bind_eq fun _ => (C.keyword _).bind_eq fun _ => (C.identifier _).bind_eq fun _ =>
      (C.symbol _).bind_eq fun _ => (C.identifier _).bind_eq fun _ => C.installRoute _ _

theorem use : Parallel W ctx ctx' bound 1 (use ctx) (use ctx') (NodeImage φ Own) := by
  refine (C.identifier _).bind_eq_left fun name => .get_bind fun s s' hs hlt => ?_
  have hroot : s'.scene.root = ctx'.environment.scene := by rw [hs.scene]
  have hfind := C.find name hs.world
  rw [Scene.find?, Scene.find?, hs.root, hroot]
  generalize s.world.findInScene? name ctx.environment.scene = o at hfind ⊢
  generalize s'.world.findInScene? name ctx'.environment.scene = o' at hfind ⊢
  cases hfind with
  | none =>
    dsimp only [Option.map_none]
    rw [hs.last]
    exact ((C.warn _ _).bind fun _ _ _ => .pure ⟨rfl, by simp⟩) s s' hs hlt
  | some hn =>
    obtain ⟨hmatches, hown⟩ := hn
    dsimp only [Option.map_some]
    rw [hmatches.id]
    exact ⟨hs.change (C.hold hs.world hown), ⟨rfl, fun r hr => Option.some.inj hr ▸ hown⟩, Nat.le_refl _⟩

theorem nodeValue {declaration declaration' : Reader (Option NodeId)}
    (hdeclaration : Parallel W ctx ctx' bound 1 declaration declaration' (NodeImage φ Own)) :
    Parallel W ctx ctx' bound 1 (nodeValue ctx declaration) (nodeValue ctx' declaration') (NodeImage φ Own) :=
  .branch (tries_optionalKeyword .use) (tries_optionalKeyword .use) C.use.uncounted hdeclaration

theorem kind_typeName {w w' : World} (hw : W w w') {id : NodeId} (hid : Own id) (name : String) :
    (w'.node? (φ id)).bind (·.kind? name) = (w.node? id).bind (·.kind? name) ∧
      (w'.node? (φ id)).map (·.typeName) = (w.node? id).map (·.typeName) := by
  have hnode := C.node hw hid
  generalize w.node? id = o at hnode ⊢
  generalize w'.node? (φ id) = o' at hnode ⊢
  cases hnode with
  | none => exact ⟨rfl, rfl⟩
  | some hm => exact ⟨congrFun hm.kind? name, congrArg some hm.typeName⟩

theorem fieldValue {declaration declaration' : Reader (Option NodeId)}
    (hdeclaration : Parallel W ctx ctx' bound 1 declaration declaration' (NodeImage φ Own)) {id : NodeId}
    (hid : Own id) (name : String) :
    Parallel W ctx ctx' bound 0 (fieldValue ctx declaration id name)
      (fieldValue ctx' declaration' (φ id) name) fun _ _ => True := by
  refine C.position.bind_eq fun p => .get_bind fun s s' hs hlt => ?_
  obtain ⟨hkind, htype⟩ := C.kind_typeName hs.world hid name
  rw [hkind]
  split
  · rw [exec_bind_ok (exec_get s), exec_bind_ok (exec_get s'), htype]
    exact ⟨hs, rfl, by simp, Nat.le_refl _⟩
  · rename_i k _
    refine (C.content (C.nodeValue hdeclaration) k).uncounted.bind (fun value value' hvalue => ?_) s s' hs hlt
    obtain ⟨rfl, hown⟩ := hvalue
    rw [Field.references_mapNodes]
    exact .change
      (fun w => ((w.initField id name value).1, (w.initField id name value).2.dropAll value.references))
      (fun w => ((w.initField (φ id) name (value.mapNodes φ)).1,
        (w.initField (φ id) name (value.mapNodes φ)).2.dropAll (value.references.map φ))) p
      fun w w' hw => by
        obtain ⟨heq, hw'⟩ := C.initField name hw hid hown
        exact ⟨heq, C.dropAll hw' hown⟩

theorem declareField {id : NodeId} (hid : Own id) (name : String) (k : Kind) (p : Position) :
    Parallel W ctx ctx' bound 0 (declareField id name k p) (declareField (φ id) name k p) fun _ _ => True :=
  .change (fun w => w.addField id name (.initial k)) (fun w => w.addField (φ id) name (.initial k)) p
    fun _ _ hw => C.addField name k hw hid

/-! ### Declarations -/

theorem bodyEntry {declaration declaration' : Reader (Option NodeId)}
    (hdeclaration : Parallel W ctx ctx' bound 1 declaration declaration' (NodeImage φ Own)) {id : NodeId}
    (hid : Own id) :
    Parallel W ctx ctx' bound 1 (bodyEntry ctx declaration id) (bodyEntry ctx' declaration' (φ id)) Eq := by
  have hfield : ∀ name, Parallel W ctx ctx' bound 0
      (do Reader.fieldValue ctx declaration id name; return (none : Option Unit))
      (do Reader.fieldValue ctx' declaration' (φ id) name; return (none : Option Unit)) Eq :=
    fun name => (C.fieldValue hdeclaration hid name).bind fun _ _ _ => .pure rfl
  intro s s' hs hlt
  rw [Reader.bodyEntry, Reader.bodyEntry, exec_bind_ok (exec_position ctx s), exec_bind_ok (exec_position ctx' s'),
    exec_bind_ok (exec_peek? s), exec_bind_ok (exec_peek? s'), hs.tokens, hs.lexemes, C.stop]
  split
  · rename_i hhead
    exact Parallel.pop_bind hs hhead hlt (.pure rfl)
  · rename_i hhead
    exact Parallel.pop_bind hs hhead hlt (C.route.bind fun _ _ _ => .pure rfl)
  · rename_i k hhead
    exact Parallel.pop_bind hs hhead hlt ((C.identifier _).bind_eq fun name =>
      (C.declareField hid name k _).bind fun _ _ _ => hfield name)
  · rename_i name hhead
    refine Parallel.pop_bind hs hhead hlt (.get_bind fun s s' hs hlt => ?_)
    have hnode := C.node hs.world hid
    generalize s.world.node? id = o at hnode ⊢
    generalize s'.world.node? (φ id) = o' at hnode ⊢
    cases hnode with
    | none => exact hfield name s s' hs hlt
    | some hm =>
      dsimp only
      rw [hm.hasField, hm.typeName]
      split
      · exact hfield name s s' hs hlt
      · exact ⟨hs, rfl, by simp, Nat.le_refl _⟩
  · rename_i raw hhead
    rw [C.file]
    exact Parallel.pop_bind hs hhead hlt ((C.enter_act _).bind fun _ _ _ => .pure rfl)
  · exact C.unexpected _ s s' hs hlt

theorem body {declaration declaration' : Reader (Option NodeId)}
    (hdeclaration : Parallel W ctx ctx' bound 1 declaration declaration' (NodeImage φ Own)) {id : NodeId}
    (hid : Own id) :
    Parallel W ctx ctx' bound 0 (body ctx declaration id) (body ctx' declaration' (φ id)) fun _ _ => True := by
  have huntil : ∀ n, Parallel W ctx ctx' bound 0 (untilSome ctx (Reader.bodyEntry ctx declaration id) n)
      (untilSome ctx' (Reader.bodyEntry ctx' declaration' (φ id)) n) fun _ _ => True := by
    intro n
    induction n with
    | zero =>
      rw [untilSome, untilSome, C.stop]
      exact .fail (by simp)
    | succ n ih =>
      refine (C.bodyEntry hdeclaration hid).bind_eq fun o => ?_
      cases o with
      | some _ => exact .pure trivial
      | none => exact ih
  refine .get_bind fun s s' hs hlt => ?_
  rw [hs.lexemes]
  exact huntil _ s s' hs hlt

theorem drop {w w' : World} {id : NodeId} (hw : W w w') (hid : Own id) : W (w.drop id) (w'.drop (φ id)) :=
  C.dropAll hw fun _ hr => List.mem_singleton.1 hr ▸ hid

theorem closeBody {id : NodeId} (hid : Own id) (typeName : String) (p : Position)
    {r r' : Except ReadError Unit} (hr : Parallel.Attempted (fun _ _ => True) r r') :
    Parallel W ctx ctx' bound 0 (closeBody ctx id typeName p r) (closeBody ctx' (φ id) typeName p r')
      (NodeImage φ Own) := by
  obtain e | _ := r <;> obtain e' | _ := r'
  · obtain ⟨rfl, hlayout⟩ := hr
    have hskip : Parallel W ctx ctx' bound 0
        (do
          act (·.discard id)
          Reader.logError ctx e'
          onFailure (Reader.skipBody ctx) (·.drop id)
          Reader.warn ctx p s!"skipped {typeName} node"
          act (·.drop id)
          return none)
        (do
          act (·.discard (φ id))
          Reader.logError ctx' e'
          onFailure (Reader.skipBody ctx') (·.drop (φ id))
          Reader.warn ctx' p s!"skipped {typeName} node"
          act (·.drop (φ id))
          return none) (NodeImage φ Own) :=
      (Parallel.act fun _ _ hw => C.discard hw hid).bind fun _ _ _ => (C.logError _).bind fun _ _ _ =>
        (C.skipBody.onFailure fun _ _ hw => C.drop hw hid).bind fun _ _ _ => (C.warn _ _).bind fun _ _ _ =>
          (Parallel.act fun _ _ hw => C.drop hw hid).bind fun _ _ _ => .pure ⟨rfl, by simp⟩
    have hgiveUp : Parallel W ctx ctx' bound 0
        (do act (fun w => (w.discard id).drop id); throw e')
        (do act (fun w => (w.discard (φ id)).drop (φ id)); throw e') (NodeImage φ Own) :=
      (Parallel.act fun _ _ hw => C.drop (C.discard hw hid) hid).bind fun _ _ _ => .fail hlayout
    cases e' with
    | layout l => exact absurd rfl (hlayout l)
    | cancelled => exact hgiveUp
    | endOfFile p => exact hgiveUp
    | _ => exact hskip
  · exact hr.elim
  · exact hr.elim
  · exact .pure ⟨rfl, fun r hr => Option.some.inj hr ▸ hid⟩

theorem request (typeName : String) :
    Parallel W ctx ctx' bound 0 (request ctx typeName) (request ctx' typeName) (NodeImage φ Own) := by
  intro s s' hs hlt
  rw [Reader.request, Reader.request, exec_bind_ok (exec_modify _ s), exec_bind_ok (exec_modify _ s'),
    exec_bind_ok (exec_act _ _), exec_bind_ok (exec_act _ _), exec_bind_ok (exec_get _), exec_bind_ok (exec_get _)]
  have hw : W (s.world.step (.asked typeName)) (s'.world.step (.asked typeName)) := C.enter _ hs.world
  obtain ⟨o, v, v', hcreate, hcreate', hv, hown⟩ := C.create typeName hw
  dsimp only
  rw [hcreate, hcreate']
  refine ⟨?_, ⟨rfl, hown⟩, Nat.le_refl _⟩
  exact { hs with
    asked := congrArg (· + 1) hs.asked
    checkpoints := congrArg₂ List.cons hs.progress hs.checkpoints
    world := hv }

/-- What follows the name of a declaration. -/
theorem afterName {nested nested' : Reader (Option NodeId)}
    (hnested : Parallel W ctx ctx' bound 1 nested nested' (NodeImage φ Own)) (name : Option String) :
    Parallel W ctx ctx' (bound + 1) 1 (afterName ctx nested name) (afterName ctx' nested' name)
      (NodeImage φ Own) := by
  rw [afterName_eq, afterName_eq]
  change Parallel W ctx ctx' (bound + 1) (1 + 0) _ _ _
  refine (C.identifier _).bind_sub fun typeName _ h => ?_
  subst h
  refine Parallel.last.bind_eq fun p => (C.request typeName).bind fun o o' ho => ?_
  obtain ⟨rfl, hown⟩ := ho
  cases o with
  | none =>
    exact (C.symbol _).bind_eq fun _ => C.skipBody.bind fun _ _ _ => (C.warn _ _).bind fun _ _ _ =>
      .pure ⟨rfl, by simp⟩
  | some id =>
    have hid : Own id := hown id rfl
    have hrest : Parallel W ctx ctx' bound 0
        (do
          onFailure (Reader.symbol ctx .nodeBegin) (·.drop id)
          Reader.closeBody ctx id typeName p (← attempt (Reader.body ctx nested id)))
        (do
          onFailure (Reader.symbol ctx' .nodeBegin) (·.drop (φ id))
          Reader.closeBody ctx' (φ id) typeName p (← attempt (Reader.body ctx' nested' (φ id))))
        (NodeImage φ Own) :=
      ((C.symbol _).onFailure fun _ _ hw => C.drop hw hid).bind_eq fun _ =>
        (C.body hnested hid).attempt.bind fun _ _ hr => C.closeBody hid typeName p hr
    cases name with
    | none => exact hrest
    | some name => exact (Parallel.act fun _ _ hw => C.setName name hw hid).bind fun _ _ _ => hrest

end Correspondence

/-- One level of declarations, where `nested` reads those that stand inside. -/
def level (ctx : DocumentContext) (nested : Reader (Option NodeId)) : Reader (Option NodeId) := do
  if ctx.control.isCancelled (← get).asked then throw .cancelled
  if ← optionalKeyword ctx .null then return none
  let isNamed ← optionalKeyword ctx .define
  let name ← if isNamed then some <$> identifier ctx "a node name after DEF" else pure none
  afterName ctx nested name

theorem declarationUpTo_eq_level (ctx : DocumentContext) (depth : Nat) :
    declarationUpTo ctx (depth + 1) = level ctx (declarationUpTo ctx depth) := rfl

namespace Correspondence

variable (C : Correspondence ctx ctx' φ Own W)
include C

/-- **One level of declarations** takes a token before it gets to the declarations inside. -/
theorem level {nested nested' : Reader (Option NodeId)}
    (hnested : Parallel W ctx ctx' bound 1 nested nested' (NodeImage φ Own)) :
    Parallel W ctx ctx' (bound + 1) 1 (level ctx nested) (level ctx' nested') (NodeImage φ Own) := by
  refine .get_bind fun s s' hs hlt => ?_
  rw [C.control, hs.asked]
  split
  · exact ⟨hs, rfl, by simp, Nat.le_refl _⟩
  have hnamed : Parallel W ctx ctx' (bound + 1) 1
      (do
        let isNamed ← optionalKeyword ctx .define
        let name ← if isNamed then some <$> Reader.identifier ctx "a node name after DEF" else pure none
        Reader.afterName ctx nested name)
      (do
        let isNamed ← optionalKeyword ctx' .define
        let name ← if isNamed then some <$> Reader.identifier ctx' "a node name after DEF" else pure none
        Reader.afterName ctx' nested' name) (NodeImage φ Own) := by
    refine (Parallel.optional (tries_optionalKeyword .define) (tries_optionalKeyword .define)).bind_eq
      fun isNamed => ?_
    dsimp only
    split
    · have hword : Parallel W ctx ctx' (bound + 1) 1
          (some <$> Reader.identifier ctx "a node name after DEF")
          (some <$> Reader.identifier ctx' "a node name after DEF") Eq :=
        (C.identifier _).map fun _ _ h => congrArg some h
      exact hword.bind_eq fun name => C.afterName hnested name
    · have hnameless : Parallel W ctx ctx' (bound + 1) 0 (pure none : Reader (Option String)) (pure none) Eq :=
        .pure rfl
      exact hnameless.bind_eq fun name => C.afterName hnested name
  exact Parallel.branch (tries_optionalKeyword .null) (tries_optionalKeyword .null) (.pure ⟨rfl, by simp⟩) hnamed
    s s' hs hlt

/-- Declarations that may nest deeper than there are tokens run in parallel, whatever the bounds. -/
theorem declarationUpTo {depth depth' : Nat} (h : bound ≤ depth) (h' : bound ≤ depth') :
    Parallel W ctx ctx' bound 1 (declarationUpTo ctx depth) (declarationUpTo ctx' depth') (NodeImage φ Own) := by
  induction bound generalizing depth depth' with
  | zero => exact fun s s' _ hlt => absurd hlt (Nat.not_lt_zero _)
  | succ bound ih =>
    obtain ⟨depth, rfl⟩ := Nat.exists_eq_succ_of_ne_zero (Nat.ne_zero_of_lt h)
    obtain ⟨depth', rfl⟩ := Nat.exists_eq_succ_of_ne_zero (Nat.ne_zero_of_lt h')
    exact C.level (ih (Nat.le_of_succ_le_succ h) (Nat.le_of_succ_le_succ h'))

theorem declaration :
    Parallel W ctx ctx' bound 1 (declaration ctx) (declaration ctx') (NodeImage φ Own) := by
  refine .get_bind fun s s' hs hlt => ?_
  rw [hs.lexemes]
  exact C.declarationUpTo (Nat.le_refl _) (Nat.le_refl _) s s' hs (Nat.lt_succ_self _)

/-! ### Statements -/

omit C in
/-- The two scenes are changed in the same way, and their roots stay. -/
theorem modifyScene {f : Scene → Scene} (hf : ∀ scene root, f { scene with root } = { f scene with root }) :
    Parallel W ctx ctx' bound 0 (modify fun s => { s with scene := f s.scene })
      (modify fun s => { s with scene := f s.scene }) fun _ _ => True := by
  intro s s' hs hlt
  have hroot : (f s.scene).root = ctx.environment.scene := by
    have hscene : ({ s.scene with root := s.scene.root } : Scene) = s.scene := rfl
    rw [← hscene, hf]
    exact hs.root
  refine ⟨{ hs with root := hroot, scene := ?_ }, trivial, Nat.le_refl _⟩
  dsimp only
  rw [hs.scene, hf]

omit C in
theorem insertMetadata_root (scene : Scene) (root : NodeId) (key value : String) :
    ({ scene with root } : Scene).insertMetadata key value = { scene.insertMetadata key value with root } := by
  unfold Scene.insertMetadata
  split <;> rfl

theorem statement :
    Parallel W ctx ctx' bound 1 (statement ctx) (statement ctx') (NodeImage φ Own) := by
  have hnone : ∀ {p p' : Reader Unit}, Parallel W ctx ctx' bound 0 p p' (fun _ _ => True) →
      Parallel W ctx ctx' bound 0 (do p; return none) (do p'; return none) (NodeImage φ Own) :=
    fun hp => hp.bind fun _ _ _ => .pure ⟨rfl, by simp⟩
  refine .branch (tries_optionalKeyword .route) (tries_optionalKeyword .route) (hnone C.route) ?_
  refine .branch (tries_optionalKeyword .metadata) (tries_optionalKeyword .metadata) (hnone ?_) ?_
  · refine (C.quoted _).bind_eq fun key => (C.quoted _).bind_eq fun value => ?_
    exact modifyScene (f := (·.insertMetadata key value)) fun scene root =>
      insertMetadata_root scene root key value
  refine .branch (tries_optionalKeyword .profile) (tries_optionalKeyword .profile) (hnone ?_) C.declaration
  refine (C.identifier _).bind_eq fun name => ?_
  exact modifyScene (f := fun scene => { scene with profile := some name }) fun _ _ => rfl

theorem publishProgress :
    Parallel W ctx ctx' bound 0 (publishProgress ctx) (publishProgress ctx') fun _ _ => True := by
  refine .get_bind fun s s' hs hlt => ?_
  rw [hs.lexemes, C.control, C.size]
  split
  · split
    · exact ⟨{ hs with progress := rfl }, trivial, Nat.le_refl _⟩
    · exact ⟨hs, trivial, Nat.le_refl _⟩
  · exact ⟨hs, trivial, Nat.le_refl _⟩

/-- **Statements run in parallel**, by induction on how many there may be. -/
theorem statements (n : Nat) {before : List NodeId} (hbefore : ∀ r ∈ before, Own r) :
    Parallel W ctx ctx' bound 0 (statements ctx n before) (statements ctx' n (before.map φ))
      (NodeImages φ Own) := by
  induction n generalizing before with
  | zero => exact .pure ⟨rfl, hbefore⟩
  | succ n ih =>
    refine Parallel.peek?.bind_eq fun t => ?_
    cases t with
    | none => exact .pure ⟨rfl, hbefore⟩
    | some t =>
      refine C.publishProgress.bind fun _ _ _ => .get_bind fun s s' hs hlt => ?_
      rw [hs.lexemes]
      refine (C.statement.attempt.bind fun r r' hr => ?_) s s' hs hlt
      obtain e | o := r <;> obtain e' | o' := r'
      · obtain ⟨rfl, hlayout⟩ := hr
        -- what was read so far is let go of on both sides
        have hfatal : Parallel W ctx ctx' bound 0 (do act (·.dropAll before); throw e')
            (do act (·.dropAll (before.map φ)); throw e') (NodeImages φ Own) :=
          (Parallel.act fun _ _ hw => C.dropAll hw hbefore).bind fun _ _ _ => .fail hlayout
        -- as many tokens are left on both sides, so both go on the same way
        have hgo : Parallel W ctx ctx' bound 0
            (do
              Reader.logError ctx e'
              if (← get).lexemes.length = s.lexemes.length then Reader.pop ctx
              Reader.statements ctx n before)
            (do
              Reader.logError ctx' e'
              if (← get).lexemes.length = s.lexemes.length then Reader.pop ctx'
              Reader.statements ctx' n (before.map φ)) (NodeImages φ Own) := by
          refine (C.logError _).bind fun _ _ _ => .get_bind fun t t' ht hlt => ?_
          rw [ht.lexemes]
          split
          · exact (C.pop.bind fun _ _ _ => ih hbefore) t t' ht hlt
          · exact ih hbefore t t' ht hlt
        cases e' with
        | cancelled => exact hfatal
        | layout l => exact absurd rfl (hlayout l)
        | endOfFile p => exact (C.logError _).bind fun _ _ _ => .pure ⟨rfl, hbefore⟩
        | _ => exact hgo
      · exact hr.elim
      · exact hr.elim
      · obtain ⟨rfl, hown⟩ := hr
        have hmap : before.map φ ++ (o.map φ).toList = (before ++ o.toList).map φ := by
          cases o <;> simp
        dsimp only
        rw [hmap]
        exact ih (List.forall_mem_append.2 ⟨hbefore, fun r hr => hown r (Option.mem_toList.1 hr)⟩)

end Correspondence

end Reader

end SceneGraph
