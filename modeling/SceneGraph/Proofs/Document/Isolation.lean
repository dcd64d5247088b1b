import SceneGraph.Proofs.Document.Nesting
import SceneGraph.Proofs.Document.Seclusion
import SceneGraph.Proofs.Document.Settled

/-!
# Errors stay where they are

A document is a sequence of statements, each of them complete: a declaration may have anything between
its braces, as long as the braces pair up. Then every statement is read from its first token to its last
(`Reader.ReadsEach`), whatever is wrong in the others, and the children of the scene are the nodes of the
declarations at the top that were not skipped.

* `StatementText`: what a statement looks like, whatever the body of a declaration holds.
* `Reader.Performs`: what a statement does.
* `Document.read_statements`: every statement is read in its own place.
-/

namespace SceneGraph

open World (BareRoot Secluded Tops)

/-- A statement as it is written. A declaration may have any tokens between its braces. -/
inductive StatementText where
  | route (r : RouteText)
  | metadata (key value : String)
  | profile (name : String)
  | declaration (name : Option String) (typeName : String) (body : List Token)

namespace StatementText

/-- The tokens of a declaration. -/
def declarationTokens (name : Option String) (typeName : String) (body : List Token) : List Token :=
  name.elim [] (fun name => [.keyword .define, .identifier name]) ++
    .identifier typeName :: .symbol .nodeBegin :: (body ++ [.symbol .nodeEnd])

def tokens : StatementText → List Token
  | route r => [.keyword .route, .identifier r.source, .symbol .dot, .identifier r.output,
      .keyword .destination, .identifier r.target, .symbol .dot, .identifier r.input]
  | metadata key value => [.keyword .metadata, .string key, .string value]
  | profile name => [.keyword .profile, .identifier name]
  | declaration name typeName body => declarationTokens name typeName body

/-- The braces in the body of a declaration pair up. -/
def IsComplete : StatementText → Prop
  | declaration _ _ body => Balanced body
  | _ => True

theorem exists_tokens (text : StatementText) : ∃ t ts, text.tokens = t :: ts := by
  cases text with
  | declaration name typeName body => cases name <;> exact ⟨_, _, rfl⟩
  | _ => exact ⟨_, _, rfl⟩

end StatementText

namespace Reader

variable {α β : Type} {ctx : DocumentContext} {s s' : ReaderState} {rest : List Token}

/-- What a statement does from one state to another, and the node that it answers with. -/
inductive Performs (ctx : DocumentContext) : StatementText → ReaderState → Option NodeId → ReaderState → Prop
  | route {r : RouteText} {s s₁ s' : ReaderState} (p : Position) (hworld : s₁.world = s.world)
      (hscene : s₁.scene = s.scene) (hinstall : exec (installRoute ctx p r) s₁ = (.ok (), s')) :
      Performs ctx (.route r) s none s'
  | metadata {key value : String} {s s' : ReaderState} (hworld : s'.world = s.world)
      (hscene : s'.scene = s.scene.insertMetadata key value) : Performs ctx (.metadata key value) s none s'
  | profile {name : String} {s s' : ReaderState} (hworld : s'.world = s.world)
      (hscene : s'.scene = { s.scene with profile := some name }) : Performs ctx (.profile name) s none s'
  | declaration {name : Option String} {typeName : String} {body : List Token} {s s' : ReaderState}
      {answer : Option NodeId} (depth : Nat) (hdepth : s.tokens.length ≤ depth)
      (hdeclares : Declares ctx (declarationUpTo ctx depth) name typeName s answer s') :
      Performs ctx (.declaration name typeName body) s answer s'

/-- The statements are read one after the other, each of them from its first token to its last. -/
inductive ReadsEach (ctx : DocumentContext) :
    List StatementText → ReaderState → List (Option NodeId) → ReaderState → Prop
  | nil {s : ReaderState} (hs : s.tokens = []) : ReadsEach ctx [] s [] s
  | cons {text : StatementText} {texts : List StatementText} {s s₁ s₂ s' : ReaderState}
      {answer : Option NodeId} {answers : List (Option NodeId)} (rest : List Token)
      (hstart : s.tokens = text.tokens ++ rest)
      (hprogress : exec (publishProgress ctx) s = (.ok (), s₁))
      (hread : exec (statement ctx) s₁ = (.ok answer, s₂)) (hend : s₂.tokens = rest)
      (hdoes : Performs ctx text s₁ answer s₂) (hrest : ReadsEach ctx texts s₂ answers s') :
      ReadsEach ctx (text :: texts) s (answer :: answers) s'

/-! ### Single statements -/

/-- What comes after some tokens. -/
theorem Takes.exec_bind {p : Reader α} {ts : List Token} {a : α} (h : Takes p ts a) (q : α → Reader β)
    (hs : s.tokens = ts ++ rest) : ∃ s', exec (p >>= q) s = exec (q a) s' ∧ s'.tokens = rest ∧
      s'.world = s.world ∧ s'.scene = s.scene := by
  obtain ⟨s', hrun, hbehind⟩ := h s rest hs
  exact ⟨s', exec_bind_ok hrun q, hbehind.rest hs, hbehind.world, hbehind.scene⟩

theorem exec_installRoute (ctx : DocumentContext) (p : Position) (r : RouteText) (s : ReaderState) :
    ∃ s', exec (installRoute ctx p r) s = (.ok (), s') ∧ s'.tokens = s.tokens := by
  rw [installRoute, exec_bind_ok (exec_get s)]
  split
  · exact ⟨_, exec_act _ s, rfl⟩
  · rw [exec_bind_ok (exec_set s _)]
    split
    · exact ⟨_, rfl, rfl⟩
    · exact ⟨_, exec_act _ _, rfl⟩

/-- A route that is written in full is taken in full. -/
theorem exec_route (ctx : DocumentContext) (r : RouteText)
    (hs : s.tokens = [.identifier r.source, .symbol .dot, .identifier r.output, .keyword .destination,
      .identifier r.target, .symbol .dot, .identifier r.input] ++ rest) :
    ∃ p s₁ s', exec (route ctx) s = (.ok (), s') ∧ s'.tokens = rest ∧ s₁.world = s.world ∧
      s₁.scene = s.scene ∧ exec (installRoute ctx p r) s₁ = (.ok (), s') := by
  rw [route, exec_bind_ok (exec_last s)]
  obtain ⟨s₁, h₁, ht₁, hw₁, hscene₁⟩ := (Takes.identifier ctx "a source node name" r.source).exec_bind _ hs
  obtain ⟨s₂, h₂, ht₂, hw₂, hscene₂⟩ := (Takes.symbol ctx .dot).exec_bind _ ht₁
  obtain ⟨s₃, h₃, ht₃, hw₃, hscene₃⟩ := (Takes.identifier ctx "a source field name" r.output).exec_bind _ ht₂
  obtain ⟨s₄, h₄, ht₄, hw₄, hscene₄⟩ := (Takes.keyword ctx .destination).exec_bind _ ht₃
  obtain ⟨s₅, h₅, ht₅, hw₅, hscene₅⟩ := (Takes.identifier ctx "a target node name" r.target).exec_bind _ ht₄
  obtain ⟨s₆, h₆, ht₆, hw₆, hscene₆⟩ := (Takes.symbol ctx .dot).exec_bind _ ht₅
  obtain ⟨s₇, h₇, ht₇, hw₇, hscene₇⟩ := (Takes.identifier ctx "a target field name" r.input).exec_bind _ ht₆
  obtain ⟨s', hinstall, ht'⟩ := exec_installRoute ctx s.last r s₇
  refine ⟨s.last, s₇, s', ?_, ht'.trans ht₇, ?_, ?_, hinstall⟩
  · rw [h₁, h₂, h₃, h₄, h₅, h₆, h₇]
    exact hinstall
  · rw [hw₇, hw₆, hw₅, hw₄, hw₃, hw₂, hw₁]
  · rw [hscene₇, hscene₆, hscene₅, hscene₄, hscene₃, hscene₂, hscene₁]

theorem exec_metadata (ctx : DocumentContext) {key value : String}
    (hs : s.tokens = [.string key, .string value] ++ rest) :
    ∃ s', exec (metadata ctx) s = (.ok (), s') ∧ s'.tokens = rest ∧ s'.world = s.world ∧
      s'.scene = s.scene.insertMetadata key value := by
  obtain ⟨s₁, h₁, ht₁, hw₁, hscene₁⟩ := (Takes.quoted ctx "a quoted META key" key).exec_bind _ hs
  obtain ⟨s₂, h₂, ht₂, hw₂, hscene₂⟩ := (Takes.quoted ctx "a quoted META value" value).exec_bind _ ht₁
  refine ⟨_, (h₁.trans h₂).trans (exec_modify _ s₂), ht₂, hw₂.trans hw₁, ?_⟩
  exact congrArg (Scene.insertMetadata · key value) (hscene₂.trans hscene₁)

theorem exec_profile (ctx : DocumentContext) {name : String} (hs : s.tokens = [.identifier name] ++ rest) :
    ∃ s', exec (profile ctx) s = (.ok (), s') ∧ s'.tokens = rest ∧ s'.world = s.world ∧
      s'.scene = { s.scene with profile := some name } := by
  obtain ⟨s₁, h₁, ht₁, hw₁, hscene₁⟩ := (Takes.identifier ctx "a profile name" name).exec_bind _ hs
  refine ⟨_, h₁.trans (exec_modify _ s₁), ht₁, hw₁, ?_⟩
  exact congrArg (fun scene : Scene => { scene with profile := some name }) hscene₁

theorem Declares.congr {nested : Reader (Option NodeId)} {name : Option String} {typeName : String}
    {s₀ : ReaderState} {answer : Option NodeId} (h : Declares ctx nested name typeName s₀ answer s')
    (hworld : s₀.world = s.world) (hscene : s₀.scene = s.scene) :
    Declares ctx nested name typeName s answer s' := by
  cases h with
  | unknown p s' hcreate hw hs => exact .unknown p s' (hworld ▸ hcreate) hw (hscene ▸ hs)
  | read s₁ s' hcreate hw hs hbody => exact .read s₁ s' (hworld ▸ hcreate) hw (hscene ▸ hs) hbody
  | skipped p e s₁ s₂ s' hcreate hw hs hbody hw' hs' =>
    exact .skipped p e s₁ s₂ s' (hworld ▸ hcreate) hw (hscene ▸ hs) hbody hw' hs'

variable {name : Option String} {typeName : String} {body : List Token}

/-- From its type on. -/
theorem exec_afterName (hlayouts : LaysOut ctx) {nested : Reader (Option NodeId)} {bound : Nat}
    (hnested : Inside bound 1 nested) (name : Option String) (hbody : Balanced body)
    (hs : s.tokens = .identifier typeName :: .symbol .nodeBegin :: (body ++ .symbol .nodeEnd :: rest))
    (hlt : s.tokens.length ≤ bound) :
    ∃ answer s', exec (afterName ctx nested name) s = (.ok answer, s') ∧ s'.tokens = rest ∧
      Declares ctx nested name typeName s answer s' := by
  obtain ⟨s₁, h₁, ht₁, hw₁, hscene₁⟩ :=
    (Takes.identifier ctx "a node type" typeName).exec_bind (fun typeName => do
      let p ← last
      afterType ctx nested name typeName p) hs
  have hlength := congrArg List.length hs
  have hlength₁ := congrArg List.length ht₁
  rw [List.length_cons] at hlength
  obtain ⟨answer, s', hrun, ht', hdeclares⟩ :=
    exec_afterType hlayouts hnested name typeName s₁.last hbody ht₁ (by omega)
  refine ⟨answer, s', ?_, ht', hdeclares.congr hw₁ hscene₁⟩
  rw [afterName_eq, h₁, exec_bind_ok (exec_last s₁)]
  exact hrun

/-- **A declaration is read from its first token to its closing brace**, at the top of a document and in
the value of a field, whatever its body holds and whatever follows. -/
theorem exec_declarationUpTo (hlayouts : LaysOut ctx) (hgoes : ∀ asked, ctx.control.isCancelled asked = false)
    (depth : Nat) (hbody : Balanced body)
    (hs : s.tokens = StatementText.declarationTokens name typeName body ++ rest)
    (hlt : s.tokens.length ≤ depth) :
    ∃ answer s', exec (declarationUpTo ctx (depth + 1)) s = (.ok answer, s') ∧ s'.tokens = rest ∧
      Declares ctx (declarationUpTo ctx depth) name typeName s answer s' := by
  have hnested := Inside.declarationUpTo hlayouts hgoes depth
  rw [declarationUpTo_succ, exec_bind_ok (exec_get s), hgoes, if_neg Bool.false_ne_true]
  cases name with
  | none =>
    have ht : s.tokens = .identifier typeName :: .symbol .nodeBegin :: (body ++ .symbol .nodeEnd :: rest) := by
      rw [hs, StatementText.declarationTokens]
      simp
    obtain ⟨answer, s', hrun, ht', hdeclares⟩ := exec_afterName hlayouts hnested none hbody ht hlt
    refine ⟨answer, s', ?_, ht', hdeclares⟩
    rw [exec_bind_ok (exec_optionalKeyword_false ht rfl), if_neg Bool.false_ne_true,
      exec_bind_ok (exec_optionalKeyword_false ht rfl)]
    exact hrun
  | some name =>
    have ht : s.tokens = [.keyword .define] ++ ([.identifier name] ++
        (.identifier typeName :: .symbol .nodeBegin :: (body ++ .symbol .nodeEnd :: rest))) := by
      rw [hs, StatementText.declarationTokens]
      simp
    obtain ⟨s₁, hrun₁, hbehind₁⟩ := Takes.optionalKeyword ctx .define s _ ht
    have ht₁ := hbehind₁.rest ht
    obtain ⟨s₂, hrun₂, hbehind₂⟩ := ((Takes.identifier ctx "a node name after DEF" name).map some) s₁ _ ht₁
    have ht₂ := hbehind₂.rest ht₁
    have hlength := congrArg List.length ht
    have hlength₂ := congrArg List.length ht₂
    simp only [List.length_append, List.length_cons, List.length_nil] at hlength hlength₂
    obtain ⟨answer, s', hrun, ht', hdeclares⟩ :=
      exec_afterName hlayouts hnested (some name) hbody ht₂ (by omega)
    refine ⟨answer, s', ?_, ht',
      hdeclares.congr (hbehind₂.world.trans hbehind₁.world) (hbehind₂.scene.trans hbehind₁.scene)⟩
    rw [exec_bind_ok (exec_optionalKeyword_false ht rfl), if_neg Bool.false_ne_true, exec_bind_ok hrun₁]
    dsimp only
    rw [if_pos rfl, exec_bind_ok hrun₂]
    exact hrun

/-- **A complete statement is read from its first token to its last.** -/
theorem exec_statement (hlayouts : LaysOut ctx) (hgoes : ∀ asked, ctx.control.isCancelled asked = false)
    {text : StatementText} (htext : text.IsComplete) (hs : s.tokens = text.tokens ++ rest) :
    ∃ answer s', exec (statement ctx) s = (.ok answer, s') ∧ s'.tokens = rest ∧
      Performs ctx text s answer s' := by
  cases text with
  | route r =>
    obtain ⟨s₁, h₁, ht₁, hw₁, hscene₁⟩ := (Takes.optionalKeyword ctx .route).exec_bind (fun b => do
      if b then route ctx; return none
      else if ← optionalKeyword ctx .metadata then metadata ctx; return none
      else if ← optionalKeyword ctx .profile then profile ctx; return none
      else declaration ctx) hs
    obtain ⟨p, s₂, s', hrun, ht', hw₂, hscene₂, hinstall⟩ := exec_route ctx r ht₁
    refine ⟨none, s', ?_, ht', .route p (hw₂.trans hw₁) (hscene₂.trans hscene₁) hinstall⟩
    rw [statement, h₁, if_pos rfl, exec_bind_ok hrun]
    rfl
  | metadata key value =>
    obtain ⟨s₁, h₁, ht₁, hw₁, hscene₁⟩ := (Takes.optionalKeyword ctx .metadata).exec_bind (fun b => do
      if b then metadata ctx; return none
      else if ← optionalKeyword ctx .profile then profile ctx; return none
      else declaration ctx) hs
    obtain ⟨s', hrun, ht', hw', hscene'⟩ := exec_metadata ctx ht₁
    refine ⟨none, s', ?_, ht', .metadata (hw'.trans hw₁) (hscene₁ ▸ hscene')⟩
    rw [statement, exec_bind_ok (exec_optionalKeyword_false hs rfl), if_neg Bool.false_ne_true, h₁, if_pos rfl,
      exec_bind_ok hrun]
    rfl
  | profile name =>
    obtain ⟨s₁, h₁, ht₁, hw₁, hscene₁⟩ := (Takes.optionalKeyword ctx .profile).exec_bind (fun b => do
      if b then profile ctx; return none
      else declaration ctx) hs
    obtain ⟨s', hrun, ht', hw', hscene'⟩ := exec_profile ctx ht₁
    refine ⟨none, s', ?_, ht', .profile (hw'.trans hw₁) (hscene₁ ▸ hscene')⟩
    rw [statement, exec_bind_ok (exec_optionalKeyword_false hs rfl), if_neg Bool.false_ne_true,
      exec_bind_ok (exec_optionalKeyword_false hs rfl), if_neg Bool.false_ne_true, h₁, if_pos rfl,
      exec_bind_ok hrun]
    rfl
  | declaration name typeName body =>
    have hs : s.tokens = StatementText.declarationTokens name typeName body ++ rest := hs
    have hlength := s.length_tokens
    obtain ⟨answer, s', hrun, ht', hdeclares⟩ :=
      exec_declarationUpTo hlayouts hgoes s.lexemes.length htext hs (Nat.le_of_eq hlength)
    refine ⟨answer, s', ?_, ht', .declaration s.lexemes.length (Nat.le_of_eq hlength) hdeclares⟩
    -- a declaration starts with `DEF` or with its type, so none of the keywords is there
    obtain ⟨t, ts, hfirst, hroute, hmetadata, hprofile⟩ : ∃ t ts, s.tokens = t :: ts ∧
        t.isKeyword .route = false ∧ t.isKeyword .metadata = false ∧ t.isKeyword .profile = false := by
      cases name with
      | none => exact ⟨_, _, hs, rfl, rfl, rfl⟩
      | some name => exact ⟨_, _, hs, rfl, rfl, rfl⟩
    rw [statement, exec_bind_ok (exec_optionalKeyword_false hfirst hroute), if_neg Bool.false_ne_true,
      exec_bind_ok (exec_optionalKeyword_false hfirst hmetadata), if_neg Bool.false_ne_true,
      exec_bind_ok (exec_optionalKeyword_false hfirst hprofile), if_neg Bool.false_ne_true, declaration,
      exec_bind_ok (exec_get s)]
    exact hrun

/-- **All statements**, by induction on their number. -/
theorem exec_statements (hlayouts : LaysOut ctx) (hgoes : ∀ asked, ctx.control.isCancelled asked = false)
    {texts : List StatementText} (htexts : ∀ text ∈ texts, text.IsComplete)
    (hs : s.tokens = texts.flatMap (·.tokens)) {n : Nat} (hn : s.tokens.length < n) :
    ∃ answers s', ReadsEach ctx texts s answers s' ∧
      ∀ before, exec (statements ctx n before) s = (.ok (before ++ answers.filterMap id), s') := by
  induction texts generalizing s n with
  | nil =>
    obtain ⟨n, rfl⟩ := Nat.exists_eq_add_one.2 (Nat.zero_lt_of_lt hn)
    have hnil : s.tokens = [] := hs
    refine ⟨[], s, .nil hnil, fun before => ?_⟩
    rw [statements, exec_bind_ok (exec_peek? s), hnil]
    exact congrArg (fun ids => (Except.ok ids, s)) (List.append_nil before).symm
  | cons text texts ih =>
    obtain ⟨n, rfl⟩ := Nat.exists_eq_add_one.2 (Nat.zero_lt_of_lt hn)
    obtain ⟨htext, htexts⟩ := List.forall_mem_cons.1 htexts
    rw [List.flatMap_cons] at hs
    obtain ⟨progress, hprogress⟩ := exec_publishProgress ctx s
    have hs₁ : ({ s with progress } : ReaderState).tokens = text.tokens ++ texts.flatMap (·.tokens) := hs
    obtain ⟨answer, s₂, hread, ht₂, hdoes⟩ := exec_statement hlayouts hgoes htext hs₁
    obtain ⟨t, ts, htokens⟩ := text.exists_tokens
    have hshorter : s₂.tokens.length < n := by
      rw [hs, htokens, List.length_append, List.length_cons] at hn
      rw [ht₂]
      omega
    obtain ⟨answers, s', hreads, hmore⟩ := ih htexts ht₂ hshorter
    refine ⟨answer :: answers, s', .cons _ hs hprogress hread ht₂ hdoes hreads, fun before => ?_⟩
    have hpeek : s.tokens.head? = some t := by rw [hs, htokens]; rfl
    rw [statements, exec_bind_ok (exec_peek? s), hpeek]
    dsimp only
    rw [exec_bind_ok hprogress, exec_bind_ok (exec_get _), exec_bind_ok (exec_attempt _ _), hread]
    dsimp only
    rw [hmore, List.append_assoc]
    cases answer <;> rfl

end Reader

/-- A type whose fields have names of their own and start without references. -/
structure NodeType.WellFormed (t : NodeType) : Prop where
  distinct : Specification.duplicate? [] t.fields = none
  free : t.layout.IsFree

namespace World

variable {w : World} {env : Environment}

/-- Nothing is going on, and all ids that are known anywhere were handed out. Types start without
references, and the type of roots, if it was met, has the fields of roots. -/
structure AtRest (w : World) : Prop where
  idle : w.cascade = []
  ids : ∀ id ∈ w.liveIds, id.value ≤ w.registry.lastId
  references : ∀ id ∈ w.references, id.value ≤ w.registry.lastId
  names : ∀ e ∈ w.registry.names, e.2.value ≤ w.registry.lastId
  layouts : ∀ n ∈ w.nodes, n.spec.IsFree
  tables : ∀ s ∈ w.specifications, s.IsFree
  roots : ∀ s ∈ w.specifications, s.typeName = Scene.typeName → s = Scene.nodeType.layout

theorem AtRest.empty : AtRest {} where
  idle := rfl
  ids := by simp [liveIds]
  references := by simp [World.references]
  names := by simp
  layouts := by simp
  tables := by simp
  roots := by simp

theorem isFree_layout {types : Catalog} (hr : types.Regular) {t : NodeType} (ht : t ∈ types) :
    t.layout.IsFree := hr.initial t ht

/-- A sound world between two calls is at rest, if only ids that were handed out go by a name. -/
theorem Sound.atRest {types : Catalog} (hr : types.Regular) (hroot : Scene.nodeType ∈ types)
    (hs : Sound types w) (hidle : w.cascade = []) (hnames : ∀ e ∈ w.registry.names, e.2.value ≤ w.registry.lastId) :
    w.AtRest where
  idle := hidle
  ids := hs.issued
  references id hid := hs.issued id (mem_liveIds.2 (hs.references id hid))
  names := hnames
  layouts n hn := by
    obtain ⟨t, ht, hspec, -⟩ := hs.typed n hn
    exact hspec ▸ isFree_layout hr ht
  tables s hs' := by
    obtain ⟨t, ht, rfl⟩ := hs.table s hs'
    exact isFree_layout hr ht
  roots s hs' hname := by
    obtain ⟨t, ht, rfl⟩ := hs.table s hs'
    have hname : t.name = Scene.nodeType.name := hname
    rw [NodeType.layout, NodeType.layout, hname, hr.layouts t ht Scene.nodeType hroot hname]

/-- The layout of roots is the one that all roots have. -/
theorem AtRest.create_eq (h : w.AtRest) (library filename : String) (renders : Bool) (time : Timestamp) :
    ∃ specifications, (∀ s ∈ specifications, s.IsFree) ∧
      Scene.create w library filename renders time =
        ({ root := ⟨w.registry.lastId + 1⟩, time },
          { w.nextId.2 with specifications }.addNode ⟨w.registry.lastId + 1⟩ Scene.nodeType.layout .grouping
            { library, filename, scene := ⟨w.registry.lastId + 1⟩, renders }) := by
  have hfree : Scene.nodeType.layout.IsFree :=
    isFree_layout Catalog.regular_withScenes (t := Scene.nodeType) List.mem_cons_self
  have hfields : Specification.ofFields Scene.typeName groupingFields = .ok Scene.nodeType.layout := rfl
  unfold Scene.create
  dsimp only
  unfold specification
  cases hfind : w.nextId.2.specifications.find? (·.typeName == Scene.typeName) with
  | some s =>
    have hs : s ∈ w.specifications := List.mem_of_find?_eq_some hfind
    obtain rfl := h.roots s hs (by simpa using List.find?_some hfind)
    exact ⟨w.specifications, h.tables, rfl⟩
  | none =>
    rw [hfields]
    refine ⟨w.specifications ++ [Scene.nodeType.layout], fun s hs => ?_, rfl⟩
    exact (List.mem_append.1 hs).elim (h.tables s) fun hs => List.mem_singleton.1 hs ▸ hfree

/-- A new root is bare. -/
theorem AtRest.bareRoot (h : w.AtRest) (library filename : String) (renders : Bool) (time : Timestamp) :
    BareRoot { library, filename, scene := ⟨w.registry.lastId + 1⟩, renders }
      (Scene.create w library filename renders time).2 := by
  obtain ⟨specifications, htables, hcreate⟩ := h.create_eq library filename renders time
  rw [hcreate]
  have hfree : Scene.nodeType.layout.IsFree :=
    isFree_layout Catalog.regular_withScenes (t := Scene.nodeType) List.mem_cons_self
  have hnone : w.node? ⟨w.registry.lastId + 1⟩ = none := by
    cases hn : w.node? ⟨w.registry.lastId + 1⟩ with
    | none => rfl
    | some n =>
      have hle := h.ids _ (mem_liveIds.2 (isLive_of_node? hn))
      exact absurd hle (Nat.not_succ_le_self _)
  refine ⟨⟨⟨_, ?_, rfl⟩, fun hr => ?_, List.mem_cons_self⟩, fun e he hroot => ?_, Nat.le_refl _, h.idle,
    htables, fun n hn => ?_⟩
  · refine (node?_addNode _ _ _ _ _ _).trans ?_
    rw [if_pos rfl]
    exact congrArg (Option.or · _) hnone
  · obtain ⟨n, hn, hr⟩ := List.mem_flatMap.1 hr
    rcases List.mem_append.1 hn with hn | hn
    · exact absurd (h.references _ (references_subset_of_mem hn hr)) (Nat.not_succ_le_self _)
    · rw [List.mem_singleton.1 hn, Node.references_fresh hfree] at hr
      cases hr
  · have hle := h.names e he
    rw [hroot] at hle
    exact absurd hle (Nat.not_succ_le_self _)
  · rcases List.mem_append.1 hn with hn | hn
    · exact h.layouts n hn
    · rw [List.mem_singleton.1 hn]
      exact hfree

/-- A bare root takes other nodes as its children. -/
theorem BareRoot.setChildren (h : BareRoot env w) {ids : List NodeId} (hids : env.scene ∉ ids)
    (time : Timestamp) : ∃ u, w.setField env.scene childrenField (.nodes ids time) = (.ok (), u) ∧
      Secluded env.scene (Tops ids) u := by
  refine ⟨_, setField_root h.node (by rw [h.idle]; exact List.not_mem_nil) hids time,
    ⟨(Node.fresh env.scene Scene.nodeType.layout .grouping env).store childrenField (.nodes ids time),
      ?_, ?_, ?_⟩, fun hr => ?_, h.secluded.held⟩
  · refine (node?_modify_self w env.scene fun n => Node.store_id n _ _).trans ?_
    rw [h.node]
    rfl
  · exact Node.store_parents ..
  · have hfield : ((Node.fresh env.scene Scene.nodeType.layout .grouping env).store childrenField
        (.nodes ids time)).field? childrenField = some (.nodes ids time) := by
      rw [Node.field?_store, if_pos rfl]
      rfl
    have hkind : (Field.nodes ids time).kind = ⟨.node, .multi⟩ := rfl
    rw [Node.nodesIn, hfield]
    dsimp only
    rw [if_pos hkind, Field.references_nodes]
  · obtain ⟨n, hn, hr⟩ := List.mem_flatMap.1 hr
    obtain ⟨m, hm, rfl⟩ := List.mem_map.1 hn
    split at hr
    · rcases Node.references_store hr with hr | hr
      · exact h.secluded.not_mem_references hm hr
      · rw [Field.references_nodes] at hr
        exact hids hr
    · exact h.secluded.not_mem_references hm hr

end World

namespace Document

open Reader (exec ReadsEach Declares)

/-- The tokens of a document after its header line. -/
def tokens (d : Document) (header : Header) : List Token :=
  tokensOf (some header) (Cursor.ofText d.text).readLine.2.rest

theorem tokens_start (d : Document) (header : Header) (w : World) :
    (d.start header w).tokens = d.tokens header := tokens_lexemes (some header) _

/-- **Errors stay where they are.** A document is a sequence of complete statements, where the body of a
declaration may hold any tokens as long as its braces pair up, and the host does not ask to stop. Then
each statement is read from its first token to its last, and the children of the scene are, in their
order, the nodes of the declarations among them that are not skipped. A declaration in the value of a
field also ends at its own closing brace, whatever follows. -/
theorem read_statements {d : Document} {w : World} {header : Header} {texts : List StatementText}
    (hw : w.AtRest) (hcatalog : ∀ t ∈ d.catalog, t.WellFormed)
    (hcontrol : ∀ asked, d.control.isCancelled asked = false) (hheader : d.header = .ok header)
    (htexts : ∀ text ∈ texts, text.IsComplete) (htokens : d.tokens header = texts.flatMap (·.tokens)) :
    (∃ answers t, ReadsEach (d.context header w) texts (d.start header w) answers t ∧
      exec (Reader.statements (d.context header w) ((d.start header w).lexemes.length + 1) [])
        (d.start header w) = (.ok (answers.filterMap id), t) ∧
      (d.read w).result = .ok t.scene ∧ t.scene.children (d.read w).world = answers.filterMap id) ∧
    ∀ depth name typeName body rest s, Balanced body →
      s.tokens = StatementText.declarationTokens name typeName body ++ rest → s.tokens.length ≤ depth →
        ∃ answer s', exec (Reader.declarationUpTo (d.context header w) (depth + 1)) s = (.ok answer, s') ∧
          s'.tokens = rest ∧
            Declares (d.context header w) (Reader.declarationUpTo (d.context header w) depth) name typeName s
              answer s' := by
  have hlayouts : Reader.LaysOut (d.context header w) := fun t ht => (hcatalog t ht).distinct
  refine ⟨?_, fun depth name typeName body rest s hbody hs hlt =>
    Reader.exec_declarationUpTo hlayouts hcontrol depth hbody hs hlt⟩
  have hstart := (tokens_start d header w).trans htokens
  obtain ⟨answers, t, hreads, hstatements⟩ :=
    Reader.exec_statements hlayouts hcontrol htexts hstart (d.start header w).length_tokens_lt
  have hrun : exec (Reader.statements (d.context header w) ((d.start header w).lexemes.length + 1) [])
      (d.start header w) = (.ok (answers.filterMap id), t) := hstatements []
  -- the statements leave the root alone
  have hinvariant : Reader.Invariant (d.context header w) (BareRoot (d.context header w).environment)
      (· ≠ (d.context header w).environment.scene) :=
    World.BareRoot.invariant fun t ht => (hcatalog t ht).free
  have hroot : (d.start header w).scene.root = (d.context header w).environment.scene :=
    root_create w d.library d.file d.renders _
  have hnone : ∀ id ∈ ([] : List NodeId), id ≠ (d.context header w).environment.scene := by simp
  have hnew : BareRoot (d.context header w).environment (d.start header w).world :=
    hw.bareRoot d.library d.file d.renders (if d.time.isUnset then d.now else d.time)
  obtain ⟨hbare, hscene, hown⟩ := hinvariant.statements ((d.start header w).lexemes.length + 1) hnone
    (d.start header w) hnew hroot
  rw [hrun] at hbare hscene hown
  have hids : (d.context header w).environment.scene ∉ answers.filterMap id :=
    fun hmem => hown _ rfl _ hmem rfl
  -- the root takes the nodes as its children and keeps them
  obtain ⟨u, hset, hsecluded⟩ := hbare.setChildren hids t.scene.time
  have hset' : t.scene.setChildren t.world (answers.filterMap id) = (.ok (), u) := by
    rw [Scene.setChildren, hscene]
    exact hset
  obtain ⟨e, s', -, hdocument, hscene', hworld⟩ := Reader.exec_document_of_statements hrun hset'
  have hkept := (hsecluded.dropAll hids).initializeUpTo t.scene.time
    (u.dropAll (answers.filterMap id)).uninitializedCount (d.context header w).environment.scene
  obtain ⟨hresult, hworld'⟩ := read_eq w hheader
  rw [hdocument] at hresult hworld'
  refine ⟨answers, t, hreads, hrun, hresult.trans (congrArg Except.ok hscene'), ?_⟩
  have hlast : (d.read w).world = (t.scene.setUp (u.dropAll (answers.filterMap id))).enter e :=
    hworld'.trans hworld
  rw [hlast, Scene.children, Scene.setUp, hscene]
  exact (hkept.enter e).children

/-- A document with malformed declarations among its statements. -/
def malformed : Document where
  text := "#X3D V3.0 utf8\nPROFILE Core\n" ++
    "Group \x7b children [ Box \x7b ] \x7d USE \x7d\nNope \x7b \x7d\nDEF A Group \x7b \x7d\n"
  file := "malformed.x3dv"
  check := .any
  catalog := Catalog.standard
  time := .unset
  now := .unset

/-- What the statements of `malformed` look like. -/
def malformedTexts : List StatementText :=
  [.profile "Core",
    .declaration none "Group" [.identifier "children", .symbol .listBegin, .identifier "Box",
      .symbol .nodeBegin, .symbol .listEnd, .symbol .nodeEnd, .keyword .use],
    .declaration none "Nope" [], .declaration (some "A") "Group" []]

theorem wellFormed_standard : ∀ t ∈ Catalog.standard, t.WellFormed := by
  have hdistinct : ∀ t ∈ Catalog.standard, Specification.duplicate? [] t.fields = none := by decide
  exact fun t ht => ⟨hdistinct t ht,
    World.isFree_layout Catalog.regular_withScenes (List.mem_cons_of_mem _ ht)⟩

/-- The second declaration of `malformed` does not reach into the third, nor into the last. -/
theorem read_statements_malformed :
    ∃ answers t, ReadsEach (malformed.context .x3d {}) malformedTexts (malformed.start .x3d {}) answers t ∧
      exec (Reader.statements (malformed.context .x3d {}) ((malformed.start .x3d {}).lexemes.length + 1) [])
        (malformed.start .x3d {}) = (.ok (answers.filterMap id), t) ∧
      (malformed.read {}).result = .ok t.scene ∧
        t.scene.children (malformed.read {}).world = answers.filterMap id := by
  have hbody : Balanced [.identifier "children", .symbol .listBegin, .identifier "Box",
      .symbol .nodeBegin, .symbol .listEnd, .symbol .nodeEnd, .keyword .use] :=
    .plain rfl (.plain rfl (.plain rfl (.group (.plain rfl .nil) (.plain rfl .nil))))
  have htexts : ∀ text ∈ malformedTexts, text.IsComplete := by
    simp only [malformedTexts, List.forall_mem_cons, List.not_mem_nil, false_imp_iff, implies_true, and_true]
    exact ⟨trivial, hbody, Balanced.nil, Balanced.nil⟩
  have hheader : malformed.header = .ok .x3d := by rfl
  have htokens : malformed.tokens .x3d = malformedTexts.flatMap (·.tokens) := by rfl
  have hcontrol : ∀ asked, malformed.control.isCancelled asked = false := fun _ => rfl
  exact (read_statements World.AtRest.empty wellFormed_standard hcontrol hheader htexts htokens).1

end Document

end SceneGraph
