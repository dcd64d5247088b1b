import SceneGraph.Proofs.Document.Statements

/-!
# Invariants of readings

Readers change the world in a few ways only. What survives each of them (`Reader.Invariant`) survives the
reading of all statements of a document, whether they are read or fail.

* `Reader.Invariant`: the ways in which readers change a world; `Own` are the nodes that they change.
* `Reader.Invariant.statements`: an invariant survives any number of statements, and the nodes that they
  answer with are `Own`.
-/

namespace SceneGraph

namespace Reader

/-- An invariant of worlds that survives whatever readers do. Readers name, fill, extend and give up only
nodes that are their own: those that they have made, or found by name. -/
structure Invariant (ctx : DocumentContext) (I : World → Prop) (Own : NodeId → Prop) : Prop where
  enter : ∀ w e, I w → I (w.enter e)
  create : ∀ w typeName id w', I w →
    w.createOfType ctx.catalog typeName ctx.environment = .ok (id, w') → I w' ∧ ∀ r ∈ id, Own r
  hold : ∀ w name n, I w → w.findInScene? name ctx.environment.scene = some n → I (w.hold n.id) ∧ Own n.id
  setName : ∀ w id name, I w → Own id → I (w.setName id name)
  initField : ∀ w id name value, I w → Own id → (∀ r ∈ value.references, Own r) →
    I (w.initField id name value).2
  addField : ∀ w id name k, I w → Own id → I (w.addField id name (.initial k)).2
  connect : ∀ w r a output b input, I w →
    w.resolveRoute ctx.environment.scene r = .ok (a, output, b, input) →
      I (w.addConnection a.id output ⟨b.id, input⟩).2
  discard : ∀ w id, I w → Own id → I (w.discard id)
  dropAll : ∀ w ids, I w → (∀ id ∈ ids, Own id) → I (w.dropAll ids)

/-- In a reading of the scene of the context, the reader keeps `I`, and its answer satisfies `Q`. -/
def Keeps (ctx : DocumentContext) (I : World → Prop) {α : Type} (p : Reader α) (Q : α → Prop) : Prop :=
  ∀ s, I s.world → s.scene.root = ctx.environment.scene →
    I (exec p s).2.world ∧ (exec p s).2.scene.root = ctx.environment.scene ∧
      ∀ a, (exec p s).1 = .ok a → Q a

variable {α β : Type} {ctx : DocumentContext} {I : World → Prop} {Own : NodeId → Prop}

namespace Keeps

variable {p : Reader α} {q : α → Reader β} {P : α → Prop} {Q : β → Prop}

theorem bind (hp : Keeps ctx I p P) (hq : ∀ a, P a → Keeps ctx I (q a) Q) : Keeps ctx I (p >>= q) Q := by
  intro s hI hroot
  obtain ⟨hI', hroot', ha⟩ := hp s hI hroot
  rw [exec_bind]
  generalize exec p s = r at hI' hroot' ha ⊢
  obtain ⟨e | a, s'⟩ := r
  · exact ⟨hI', hroot', nofun⟩
  · exact hq a (ha a rfl) s' hI' hroot'

theorem pure {a : α} (ha : P a) : Keeps ctx I (Pure.pure a) P := fun _ hI hroot =>
  ⟨hI, hroot, fun _ h => Except.ok.inj h ▸ ha⟩

theorem throw (e : ReadError) : Keeps ctx I (throw e : Reader α) P := fun _ hI hroot => ⟨hI, hroot, nofun⟩

theorem imp {P' : α → Prop} (h : Keeps ctx I p P) (hP : ∀ a, P a → P' a) : Keeps ctx I p P' := by
  intro s hI hroot
  obtain ⟨hI', hroot', ha⟩ := h s hI hroot
  exact ⟨hI', hroot', fun a h => hP a (ha a h)⟩

theorem map {f : α → β} (h : Keeps ctx I p fun a => Q (f a)) : Keeps ctx I (f <$> p) Q := by
  intro s hI hroot
  obtain ⟨hI', hroot', ha⟩ := h s hI hroot
  rw [exec_map]
  refine ⟨hI', hroot', fun b hb => ?_⟩
  cases hr : (exec p s).1 with
  | error e => rw [hr] at hb; cases hb
  | ok a =>
    rw [hr] at hb
    exact Except.ok.inj hb ▸ ha a hr

/-- A reader that looks at the state first. -/
theorem get_bind {q : ReaderState → Reader β}
    (h : ∀ s, I s.world → s.scene.root = ctx.environment.scene →
      I (exec (q s) s).2.world ∧ (exec (q s) s).2.scene.root = ctx.environment.scene ∧
        ∀ b, (exec (q s) s).1 = .ok b → Q b) : Keeps ctx I (get >>= q) Q := by
  intro s hI hroot
  rw [exec_bind_ok (exec_get s)]
  exact h s hI hroot

/-- World and scene are left alone. -/
theorem still (h : ∀ s, (exec p s).2.world = s.world ∧ (exec p s).2.scene = s.scene) :
    Keeps ctx I p fun _ => True := by
  intro s hI hroot
  obtain ⟨hw, hscene⟩ := h s
  exact ⟨hw ▸ hI, hscene ▸ hroot, fun _ _ => trivial⟩

theorem act {f : World → World} (h : ∀ w, I w → I (f w)) : Keeps ctx I (Reader.act f) fun _ => True :=
  fun s hI hroot => ⟨h s.world hI, hroot, fun _ _ => trivial⟩

theorem onFailure {f : World → World} (h : Keeps ctx I p P) (hf : ∀ w, I w → I (f w)) :
    Keeps ctx I (Reader.onFailure p f) P := by
  intro s hI hroot
  obtain ⟨hI', hroot', ha⟩ := h s hI hroot
  rw [exec_onFailure]
  generalize exec p s = r at hI' hroot' ha ⊢
  obtain ⟨e | a, s'⟩ := r
  · exact ⟨hf _ hI', hroot', nofun⟩
  · exact ⟨hI', hroot', ha⟩

theorem attempt (h : Keeps ctx I p P) : Keeps ctx I (Reader.attempt p) fun r => ∀ a, r = .ok a → P a := by
  intro s hI hroot
  obtain ⟨hI', hroot', ha⟩ := h s hI hroot
  exact ⟨hI', hroot', fun r hr a h => ha a ((Except.ok.inj hr).trans h)⟩

theorem loop {p : Reader (Option α)} (h : Keeps ctx I p fun o => ∀ a ∈ o, P a) :
    Keeps ctx I (Reader.loop ctx p) P := by
  have huntil : ∀ n, Keeps ctx I (untilSome ctx p n) P := by
    intro n
    induction n with
    | zero => exact throw _
    | succ n ih =>
      refine h.bind fun o ho => ?_
      cases o with
      | some a => exact pure (ho a rfl)
      | none => exact ih
  exact get_bind fun s hI hroot => huntil _ s hI hroot

/-! ### Tokens and values -/

theorem pop : Keeps ctx I (pop ctx) fun _ => True := still fun s => by
  obtain ⟨s', hrun, hw, hscene, -⟩ := exec_pop_any ctx s
  rw [hrun]
  exact ⟨hw, hscene⟩

theorem peek? : Keeps ctx I peek? fun _ => True := still fun s => by
  rw [exec_peek? s]
  exact ⟨rfl, rfl⟩

theorem position : Keeps ctx I (position ctx) fun _ => True := still fun _ => ⟨rfl, rfl⟩

theorem last : Keeps ctx I last fun _ => True := still fun _ => ⟨rfl, rfl⟩

theorem unexpected (expected : String) : Keeps ctx I (unexpected ctx expected : Reader α) P := by
  refine peek?.bind fun t _ => ?_
  cases t with
  | some t => exact position.bind fun p _ => throw _
  | none => exact throw _

theorem token (expected : String) (accept : Token → Option α) :
    Keeps ctx I (token ctx expected accept) fun _ => True := by
  refine peek?.bind fun t _ => ?_
  split
  · exact pop.bind fun _ _ => pure trivial
  · exact unexpected expected

theorem identifier (expected : String) : Keeps ctx I (identifier ctx expected) fun _ => True :=
  token expected _

theorem quoted (expected : String) : Keeps ctx I (quoted ctx expected) fun _ => True := token expected _

theorem symbol (c : Symbol) : Keeps ctx I (symbol ctx c) fun _ => True := token _ _

theorem keyword (k : Keyword) : Keeps ctx I (keyword ctx k) fun _ => True := token _ _

theorem optionalSymbol (c : Symbol) : Keeps ctx I (optionalSymbol ctx c) fun _ => True := by
  refine peek?.bind fun t _ => ?_
  split
  · exact pop.bind fun _ _ => pure trivial
  · exact pure trivial

theorem optionalKeyword (k : Keyword) : Keeps ctx I (optionalKeyword ctx k) fun _ => True := by
  refine peek?.bind fun t _ => ?_
  split
  · exact pop.bind fun _ _ => pure trivial
  · exact pure trivial

theorem skipBody : Keeps ctx I (skipBody ctx) fun _ => True := still fun s => by
  obtain ⟨s', hw, hscene, -, hrun | ⟨e, -, hrun⟩⟩ := Reads.exec_closeBraces ctx s.lexemes 1 s
  · have hskip : exec (Reader.skipBody ctx) s = (.ok (), s') := hrun
    rw [hskip]
    exact ⟨hw, hscene⟩
  · have hskip : exec (Reader.skipBody ctx) s = (.error e, s') := hrun
    rw [hskip]
    exact ⟨hw, hscene⟩

theorem float : Keeps ctx I (float ctx) fun _ => True := (token _ _).map

theorem vector2 : Keeps ctx I (vector2 ctx) fun _ => True :=
  float.bind fun _ _ => float.bind fun _ _ => pure trivial

theorem vector3 : Keeps ctx I (vector3 ctx) fun _ => True :=
  float.bind fun _ _ => float.bind fun _ _ => float.bind fun _ _ => pure trivial

theorem vector4 : Keeps ctx I (vector4 ctx) fun _ => True :=
  float.bind fun _ _ => float.bind fun _ _ => float.bind fun _ _ => float.bind fun _ _ => pure trivial

theorem items {item : Reader α} (h : Keeps ctx I item P) (n : Nat) :
    Keeps ctx I (items ctx item n) fun as => ∀ a ∈ as, P a := by
  induction n with
  | zero => exact throw _
  | succ n ih =>
    refine (optionalSymbol _).bind fun b _ => ?_
    split
    · exact pure (by simp)
    · exact h.bind fun a ha => ih.bind fun as has => pure (List.forall_mem_cons.2 ⟨ha, has⟩)

theorem list {item : Reader α} (h : Keeps ctx I item P) :
    Keeps ctx I (list ctx item) fun as => ∀ a ∈ as, P a := by
  refine (optionalSymbol _).bind fun b _ => ?_
  split
  · exact get_bind fun s hI hroot => items h _ s hI hroot
  · exact h.bind fun a ha => pure (by simpa using ha)

end Keeps

/-- A reader of a node answers with one of its own, or with none. -/
abbrev KeepsNode (ctx : DocumentContext) (I : World → Prop) (Own : NodeId → Prop)
    (p : Reader (Option NodeId)) : Prop := Keeps ctx I p fun o => ∀ r ∈ o, Own r

namespace Invariant

variable (h : Invariant ctx I Own)
include h

theorem note (e : Entry) : Keeps ctx I (act (·.enter e)) fun _ => True := .act fun w => h.enter w e

theorem warn (p : Position) (text : String) : Keeps ctx I (warn ctx p text) fun _ => True := h.note _

theorem logError (e : ReadError) : Keeps ctx I (logError ctx e) fun _ => True := h.note _

theorem drop {id : NodeId} (hid : Own id) (w : World) (hI : I w) : I (w.drop id) :=
  h.dropAll w [id] hI fun _ hr => List.mem_singleton.1 hr ▸ hid

theorem rotation : Keeps ctx I (rotation ctx) fun _ => True := by
  refine Keeps.vector3.bind fun axis _ => Keeps.float.bind fun angle _ => ?_
  split
  · exact .pure trivial
  · exact Keeps.last.bind fun p _ => (h.warn p _).bind fun _ _ => .pure trivial

/-- A value that is no node. -/
theorem plainValue (node : Reader (Option NodeId)) {t : FieldType} (ht : t ≠ .node) :
    Keeps ctx I (Reader.value ctx node t) fun _ => True := by
  cases t with
  | node => exact absurd rfl ht
  | boolean => exact .token _ _
  | int => exact .token _ _
  | float => exact .float
  | time => exact .token _ _
  | string => exact .token _ _
  | color => exact Keeps.vector3.bind fun _ _ => .pure trivial
  | rotation => exact h.rotation
  | vector2 => exact .vector2
  | vector3 => exact .vector3
  | vector4 => exact .vector4
  | matrix3 =>
    exact Keeps.vector3.bind fun _ _ => Keeps.vector3.bind fun _ _ => Keeps.vector3.bind fun _ _ =>
      .pure trivial
  | matrix4 =>
    exact Keeps.vector4.bind fun _ _ => Keeps.vector4.bind fun _ _ => Keeps.vector4.bind fun _ _ =>
      Keeps.vector4.bind fun _ _ => .pure trivial

theorem nodeItems {node : Reader (Option NodeId)} (hnode : KeepsNode ctx I Own node) (n : Nat)
    {before : List NodeId} (hbefore : ∀ r ∈ before, Own r) :
    Keeps ctx I (nodeItems ctx node n before) fun ids => ∀ r ∈ ids, Own r := by
  induction n generalizing before with
  | zero => exact .throw _
  | succ n ih =>
    refine (Keeps.optionalSymbol _).bind fun b _ => ?_
    split
    · exact .pure hbefore
    · refine (Keeps.onFailure hnode fun w hI => h.dropAll w before hI hbefore).bind fun next hnext => ?_
      exact ih (List.forall_mem_append.2 ⟨hbefore, fun r hr => hnext r (Option.mem_toList.1 hr)⟩)

theorem nodeList {node : Reader (Option NodeId)} (hnode : KeepsNode ctx I Own node) :
    Keeps ctx I (nodeList ctx node) fun ids => ∀ r ∈ ids, Own r := by
  refine (Keeps.optionalSymbol _).bind fun b _ => ?_
  split
  · exact .get_bind fun s hI hroot => h.nodeItems hnode _ (by simp) s hI hroot
  · exact Keeps.bind hnode fun next hnext => .pure fun r hr => hnext r (Option.mem_toList.1 hr)

/-- The nodes in the content of a field are the reader's own. -/
theorem content {node : Reader (Option NodeId)} (hnode : KeepsNode ctx I Own node) (k : Kind) :
    Keeps ctx I (content ctx node k) fun f => ∀ r ∈ f.references, Own r := by
  obtain ⟨t, d⟩ := k
  by_cases ht : t = .node
  · subst ht
    cases d with
    | single =>
      refine Keeps.bind hnode fun v hv => .pure fun r hr => ?_
      have hrefs : (Field.single .node v ctx.time).references = v.toList := by cases v <;> rfl
      rw [hrefs] at hr
      exact hv r (Option.mem_toList.1 hr)
    | multi =>
      refine (h.nodeList hnode).bind fun ids hids => .pure fun r hr => ?_
      rw [Field.references_nodes] at hr
      exact hids r hr
  · have hnone : ∀ f : Field, f.kind.type = t → ∀ r ∈ f.references, Own r := fun f hf r hr => by
      rw [Field.references_eq_nil (hf ▸ ht)] at hr
      cases hr
    cases d with
    | single => exact (h.plainValue node ht).bind fun v _ => .pure (hnone _ rfl)
    | multi =>
      have hcontent : Reader.content ctx node ⟨t, .multi⟩ =
          (do return .multi t (← Reader.list ctx (Reader.value ctx node t)) ctx.time) := by
        cases t <;> first | rfl | exact absurd rfl ht
      rw [hcontent]
      exact (Keeps.list (h.plainValue node ht)).bind fun vs _ => .pure (hnone _ rfl)

/-! ### Routes and fields -/

theorem installRoute (p : Position) (r : RouteText) :
    Keeps ctx I (installRoute ctx p r) fun _ => True := by
  refine .get_bind fun s hI hroot => ?_
  split
  · exact h.warn p _ s hI hroot
  rename_i a output b input hr
  rw [hroot] at hr
  have hI' := h.connect s.world r a output b input hI hr
  rw [exec_bind_ok (exec_set s _)]
  split
  · exact ⟨hI', hroot, fun _ _ => trivial⟩
  · exact ⟨h.enter _ _ hI', hroot, fun _ _ => trivial⟩

theorem route : Keeps ctx I (route ctx) fun _ => True :=
  Keeps.last.bind fun _ _ => (Keeps.identifier _).bind fun _ _ => (Keeps.symbol _).bind fun _ _ =>
    (Keeps.identifier _).bind fun _ _ => (Keeps.keyword _).bind fun _ _ => (Keeps.identifier _).bind fun _ _ =>
      (Keeps.symbol _).bind fun _ _ => (Keeps.identifier _).bind fun _ _ => h.installRoute _ _

theorem use : KeepsNode ctx I Own (use ctx) := by
  refine (Keeps.identifier _).bind fun name _ => .get_bind fun s hI hroot => ?_
  split
  · rename_i id hfind
    rw [Scene.find?, hroot] at hfind
    obtain ⟨n, hn, rfl⟩ := Option.map_eq_some_iff.1 hfind
    obtain ⟨hI', hown⟩ := h.hold s.world name n hI hn
    exact ⟨hI', hroot, fun o ho r hr => by
      obtain rfl : some n.id = o := Except.ok.inj ho
      exact Option.some.inj hr ▸ hown⟩
  · exact ((h.warn _ _).bind fun _ _ => .pure (by simp)) s hI hroot

theorem nodeValue {declaration : Reader (Option NodeId)} (hdeclaration : KeepsNode ctx I Own declaration) :
    KeepsNode ctx I Own (nodeValue ctx declaration) := by
  refine (Keeps.optionalKeyword _).bind fun b _ => ?_
  split
  · exact h.use
  · exact hdeclaration

theorem fieldValue {declaration : Reader (Option NodeId)} (hdeclaration : KeepsNode ctx I Own declaration)
    {id : NodeId} (hid : Own id) (name : String) :
    Keeps ctx I (fieldValue ctx declaration id name) fun _ => True := by
  refine Keeps.position.bind fun p _ => .get_bind fun s hI hroot => ?_
  split
  · rw [exec_bind_ok (exec_get s)]
    exact ⟨hI, hroot, nofun⟩
  · refine ((h.content (h.nodeValue hdeclaration) _).bind fun value hvalue => ?_) s hI hroot
    refine .get_bind fun s hI hroot => ?_
    have hI' := h.dropAll _ value.references (h.initField s.world id name value hI hid hvalue) hvalue
    rw [exec_bind_ok (exec_set s _)]
    split
    · exact ⟨hI', hroot, fun _ _ => trivial⟩
    · exact ⟨hI', hroot, nofun⟩

theorem declareField {id : NodeId} (hid : Own id) (name : String) (k : Kind) (p : Position) :
    Keeps ctx I (declareField id name k p) fun _ => True := by
  refine .get_bind fun s hI hroot => ?_
  have hI' := h.addField s.world id name k hI hid
  rw [exec_bind_ok (exec_set s _)]
  split
  · exact ⟨hI', hroot, fun _ _ => trivial⟩
  · exact ⟨hI', hroot, nofun⟩

/-! ### Declarations -/

theorem bodyEntry {declaration : Reader (Option NodeId)} (hdeclaration : KeepsNode ctx I Own declaration)
    {id : NodeId} (hid : Own id) : Keeps ctx I (bodyEntry ctx declaration id) fun _ => True := by
  have hfield : ∀ name, Keeps ctx I (do Reader.fieldValue ctx declaration id name; return (none : Option Unit))
      fun _ => True := fun name => (h.fieldValue hdeclaration hid name).bind fun _ _ => .pure trivial
  refine Keeps.position.bind fun p _ => Keeps.peek?.bind fun t _ => ?_
  split
  · exact Keeps.pop.bind fun _ _ => .pure trivial
  · exact Keeps.pop.bind fun _ _ => h.route.bind fun _ _ => .pure trivial
  · exact Keeps.pop.bind fun _ _ => (Keeps.identifier _).bind fun name _ =>
      (h.declareField hid name _ p).bind fun _ _ => hfield name
  · rename_i name
    refine Keeps.pop.bind fun _ _ => .get_bind fun s hI hroot => ?_
    split
    · split
      · exact hfield name s hI hroot
      · exact ⟨hI, hroot, nofun⟩
    · exact hfield name s hI hroot
  · exact Keeps.pop.bind fun _ _ => (h.note _).bind fun _ _ => .pure trivial
  · exact .unexpected _

theorem body {declaration : Reader (Option NodeId)} (hdeclaration : KeepsNode ctx I Own declaration)
    {id : NodeId} (hid : Own id) : Keeps ctx I (body ctx declaration id) fun _ => True :=
  .loop ((h.bodyEntry hdeclaration hid).imp fun _ _ _ _ => trivial)

theorem closeBody {id : NodeId} (hid : Own id) (typeName : String) (p : Position)
    (r : Except ReadError Unit) : KeepsNode ctx I Own (closeBody ctx id typeName p r) := by
  cases r with
  | ok _ => exact .pure fun r hr => Option.some.inj hr ▸ hid
  | error e =>
    have hskip : KeepsNode ctx I Own (do
        act (·.discard id)
        Reader.logError ctx e
        onFailure (skipBody ctx) (·.drop id)
        Reader.warn ctx p s!"skipped {typeName} node"
        act (·.drop id)
        return none) :=
      (Keeps.act fun w hI => h.discard w id hI hid).bind fun _ _ => (h.logError e).bind fun _ _ =>
        (Keeps.skipBody.onFailure fun w hI => h.drop hid w hI).bind fun _ _ => (h.warn p _).bind fun _ _ =>
          (Keeps.act fun w hI => h.drop hid w hI).bind fun _ _ => .pure (by simp)
    have hgiveUp : KeepsNode ctx I Own (do act (fun w => (w.discard id).drop id); throw e) :=
      (Keeps.act fun w hI => h.drop hid _ (h.discard w id hI hid)).bind fun _ _ => .throw _
    cases e with
    | layout e => exact (Keeps.act fun w hI => h.drop hid w hI).bind fun _ _ => .throw _
    | cancelled => exact hgiveUp
    | endOfFile p => exact hgiveUp
    | _ => exact hskip

theorem request (typeName : String) : KeepsNode ctx I Own (request ctx typeName) := by
  intro s hI hroot
  rw [Reader.request, exec_bind_ok (exec_modify _ s), exec_bind_ok (exec_act _ _),
    exec_bind_ok (exec_get _)]
  have hI' : I (s.world.step (.asked typeName)) := h.enter _ _ hI
  generalize hcreate : World.createOfType _ ctx.catalog typeName ctx.environment = r
  obtain e | ⟨id, w⟩ := r
  · exact ⟨hI', hroot, fun o ho => by cases ho⟩
  · obtain ⟨hI'', hown⟩ := h.create _ typeName id w hI' hcreate
    exact ⟨hI'', hroot, fun o ho => Except.ok.inj ho ▸ hown⟩

theorem afterName {nested : Reader (Option NodeId)} (hnested : KeepsNode ctx I Own nested)
    (name : Option String) : KeepsNode ctx I Own (afterName ctx nested name) := by
  refine (Keeps.identifier _).bind fun typeName _ => Keeps.last.bind fun p _ =>
    (h.request typeName).bind fun o ho => ?_
  cases o with
  | none =>
    exact (Keeps.symbol _).bind fun _ _ => Keeps.skipBody.bind fun _ _ => (h.warn p _).bind fun _ _ =>
      .pure (by simp)
  | some id =>
    have hid : Own id := ho id rfl
    have hrest : KeepsNode ctx I Own (do
        onFailure (symbol ctx .nodeBegin) (·.drop id)
        Reader.closeBody ctx id typeName p (← attempt (Reader.body ctx nested id))) :=
      ((Keeps.symbol _).onFailure fun w hI => h.drop hid w hI).bind fun _ _ =>
        (h.body hnested hid).attempt.bind fun r _ => h.closeBody hid typeName p r
    cases name with
    | none => exact hrest
    | some name => exact (Keeps.act fun w hI => h.setName w id name hI hid).bind fun _ _ => hrest

theorem declarationUpTo (depth : Nat) : KeepsNode ctx I Own (declarationUpTo ctx depth) := by
  induction depth with
  | zero => exact .throw _
  | succ depth ih =>
    rw [declarationUpTo_succ]
    have hname : ∀ name, KeepsNode ctx I Own (Reader.afterName ctx (Reader.declarationUpTo ctx depth) name) :=
      fun name => h.afterName ih name
    refine .get_bind fun s hI hroot => ?_
    split
    · exact ⟨hI, hroot, nofun⟩
    · refine ((Keeps.optionalKeyword .null).bind fun b _ => ?_) s hI hroot
      split
      · exact .pure (by simp)
      · refine (Keeps.optionalKeyword .define).bind fun isNamed _ => ?_
        dsimp only
        split
        · have hword : Keeps ctx I (some <$> Reader.identifier ctx "a node name after DEF") fun _ => True :=
            (Keeps.identifier _).map
          exact hword.bind fun name _ => hname name
        · have hnameless : Keeps ctx I (pure none : Reader (Option String)) fun _ => True := .pure trivial
          exact hnameless.bind fun name _ => hname name

/-! ### Statements -/

omit h in
/-- Only the scene itself changes, not its root. -/
theorem modifyScene {f : Scene → Scene} (hf : ∀ scene, (f scene).root = scene.root) :
    Keeps ctx I (modify fun s => { s with scene := f s.scene }) fun _ => True :=
  fun s hI hroot => ⟨hI, (hf s.scene).trans hroot, fun _ _ => trivial⟩

omit h in
theorem root_insertMetadata (scene : Scene) (key value : String) :
    (scene.insertMetadata key value).root = scene.root := by
  unfold Scene.insertMetadata
  split <;> rfl

theorem statement : KeepsNode ctx I Own (statement ctx) := by
  have hnone : ∀ {p : Reader Unit}, Keeps ctx I p (fun _ => True) →
      KeepsNode ctx I Own (do p; return none) := fun hp => hp.bind fun _ _ => .pure (by simp)
  refine (Keeps.optionalKeyword _).bind fun _ _ => ?_
  split
  · exact hnone h.route
  refine (Keeps.optionalKeyword _).bind fun _ _ => ?_
  split
  · refine hnone ((Keeps.quoted _).bind fun key _ => (Keeps.quoted _).bind fun value _ => ?_)
    exact modifyScene (f := (·.insertMetadata key value)) fun scene => root_insertMetadata scene key value
  refine (Keeps.optionalKeyword _).bind fun _ _ => ?_
  split
  · refine hnone ((Keeps.identifier _).bind fun name _ => ?_)
    exact modifyScene (f := fun scene => { scene with profile := some name }) fun _ => rfl
  · exact .get_bind fun s hI hroot => h.declarationUpTo _ s hI hroot

omit h in
theorem publishProgress : Keeps ctx I (publishProgress ctx) fun _ => True := .still fun s => by
  obtain ⟨progress, hrun⟩ := exec_publishProgress ctx s
  rw [hrun]
  exact ⟨rfl, rfl⟩

/-- **An invariant survives all statements** of a document. -/
theorem statements (n : Nat) {before : List NodeId} (hbefore : ∀ r ∈ before, Own r) :
    Keeps ctx I (statements ctx n before) fun ids => ∀ r ∈ ids, Own r := by
  induction n generalizing before with
  | zero => exact .pure hbefore
  | succ n ih =>
    refine Keeps.peek?.bind fun t _ => ?_
    split
    · exact .pure hbefore
    refine publishProgress.bind fun _ _ => .get_bind fun s hI hroot => ?_
    refine (h.statement.attempt.bind fun r hr => ?_) s hI hroot
    split
    · rename_i node
      refine ih (List.forall_mem_append.2 ⟨hbefore, fun r hr' => ?_⟩)
      exact hr node rfl r (Option.mem_toList.1 hr')
    · have hfatal : ∀ e : ReadError, Keeps ctx I (do act (·.dropAll before); throw e) fun ids : List NodeId =>
          ∀ r ∈ ids, Own r := fun e => (Keeps.act fun w hI => h.dropAll w before hI hbefore).bind fun _ _ =>
        .throw e
      split
      · exact hfatal _
      · exact hfatal _
      · exact (h.logError _).bind fun _ _ => .pure hbefore
      · refine (h.logError _).bind fun _ _ => .get_bind fun s hI hroot => ?_
        split
        · exact (Keeps.pop.bind fun _ _ => ih hbefore) s hI hroot
        · exact ih hbefore s hI hroot

end Invariant

end Reader

end SceneGraph
