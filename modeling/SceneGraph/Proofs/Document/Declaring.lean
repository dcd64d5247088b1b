import SceneGraph.Document.Reading
import SceneGraph.Proofs.Document.Reading

/-!
# What declarations do to the world

`Reader.Reads` for routes, fields, bodies and declarations, by induction on how deep declarations nest.
A declaration edits only nodes that were made after it started, and whatever goes wrong in it costs no
other node.
-/

namespace SceneGraph

open World (Drafted Edits)

namespace World

variable {header : Header} {env : Environment} {low : Nat} {w w' : World} {name : String} {value : Field}

/-! ### Single steps -/

/-- The layout of a built-in type is looked up or learned. -/
theorem edits_specification (h : Drafted header env w) {t : NodeType} (ht : t ∈ Catalog.standard)
    {spec : Specification} (hs : w.specification t.name t.fields = .ok (spec, w')) (b : Bool) :
    spec = t.layout ∧ Edits header env low b w w' ∧ w'.held = w.held ∧
      w'.registry = w.registry := by
  have hlayout := (leads_specification Catalog.regular_withScenes h.orderly.sound
    (List.mem_cons_of_mem _ ht) hs).1
  refine ⟨hlayout, ?_⟩
  obtain ⟨rfl, -⟩ | ⟨-, -, rfl⟩ := specification_cases hs
  · exact ⟨.refl, rfl, rfl⟩
  · exact ⟨hlayout ▸ .single (.learned w t ht), rfl, rfl⟩

/-- A node that is found by its name in the scene was made after the root. -/
theorem Drafted.of_findInScene? (h : Drafted header env w) {n : Node}
    (hn : w.findInScene? name env.scene = some n) :
    w.node? n.id = some n ∧ env.scene.value < n.id.value := by
  have hscene : n.environment.scene = env.scene := by simpa using List.find?_some hn
  obtain ⟨id, hid, hnode⟩ := List.mem_filterMap.1 (List.mem_of_find?_eq_some hn)
  obtain rfl := id_of_node? hnode
  obtain ⟨e, he, heid⟩ := List.mem_map.1 hid
  have hne := (h.names e (List.mem_filter.1 he).1).2
  refine ⟨hnode, Nat.lt_of_not_le fun hle => ?_⟩
  rcases Nat.lt_or_eq_of_le hle with hlt | heq
  · have hstranger := h.strangers n (mem_nodes_of_node? hnode) hlt
    rw [hscene] at hstranger
    omega
  · exact hne (heid.trans (NodeId.eq_of_value heq))

/-- The ends of a route of the scene. -/
theorem Drafted.of_resolveRoute (h : Drafted header env w) {r : RouteText} {a b : Node}
    {output input : String} (hr : w.resolveRoute env.scene r = .ok (a, output, b, input)) :
    (w.node? a.id = some a ∧ env.scene.value < a.id.value) ∧
      (w.node? b.id = some b ∧ env.scene.value < b.id.value) ∧ a.Feeds output b input := by
  unfold resolveRoute at hr
  split at hr
  · cases hr
  rename_i a' ha
  dsimp only at hr
  split at hr
  · cases hr
  rename_i k hk
  split at hr
  · cases hr
  rename_i b' hb
  split at hr
  · cases hr
  rename_i k' hk'
  split at hr
  · cases hr
  rename_i hkinds
  split at hr
  · cases hr
  rename_i hget
  split at hr
  · cases hr
  rename_i hset
  simp only [Except.ok.injEq, Prod.mk.injEq] at hr
  obtain ⟨rfl, rfl, rfl, rfl⟩ := hr
  obtain rfl := not_not.1 hkinds
  exact ⟨h.of_findInScene? ha, h.of_findInScene? hb, ⟨k, hk, hk'⟩, by simpa using hget, by simpa using hset⟩

theorem edits_initField (h : Drafted header env w) (hlow : env.scene.value < low) {id : NodeId}
    (hid : low ≤ id.value) (hlive : ∀ r ∈ value.references, w.isLive r = true)
    (hvalue : value.IsDraft env.scene) (b : Bool) :
    Edits header env low b w (w.initField id name value).2 ∧ (w.initField id name value).2.held = w.held := by
  obtain heq | ⟨n, old, hn, hold, hkind, heq⟩ := initField_cases w id name value <;> rw [heq]
  · exact ⟨.refl, rfl⟩
  · obtain rfl := id_of_node? hn
    have hstore : Edits header env low b w
        ((w.modify n.id (·.store name value)).step (.stored n.id name value)) :=
      .tail (.single (.stored w n name old value hn hold hkind hlive hvalue hid)) (.noted _ _)
    have hrefs : ∀ r ∈ old.references, env.scene.value < r.value :=
      ((h.drafts n (mem_nodes_of_node? hn) (by omega)).fields old
        (Node.mem_allFields_of_field? hold)).inner
    refine ⟨hstore.trans (edits_release (h.edits hlow hstore) hlow b _ hrefs), ?_⟩
    exact (proceeds_release Catalog.withScenes _ _).held

theorem edits_addField {id : NodeId} (hid : low ≤ id.value) {k : Kind}
    (hname : IsIdentifier (some header) name) (hk : (Keyword.kind k).isEnabled (some header) = true)
    (b : Bool) :
    Edits header env low b w (w.addField id name (.initial k)).2 ∧
      (w.addField id name (.initial k)).2.held = w.held := by
  obtain ⟨-, heq⟩ | ⟨e, heq⟩ | ⟨n, hn, hdynamic, hnew, heq⟩ := addField_cases w id name (.initial k) <;> rw [heq]
  · exact ⟨.refl, rfl⟩
  · exact ⟨.refl, rfl⟩
  · obtain rfl := id_of_node? hn
    exact ⟨.single (.extended w n name k hn hdynamic hnew hname hk hid), rfl⟩

/-- A node is given up. -/
theorem edits_discard (h : Drafted header env w) (hlow : env.scene.value < low) {n : Node}
    (hn : w.node? n.id = some n) (hid : low ≤ n.id.value) :
    Edits header env low true w (w.discard n.id) ∧ (w.discard n.id).held = w.held := by
  have hname : Edits header env low true w (w.setName n.id "") :=
    .single (.named w n "" hn (.inl rfl) (by omega))
  obtain ⟨m, hm, hmid⟩ : ∃ m, (w.setName n.id "").node? n.id = some m ∧ m.id = n.id := by
    obtain ⟨heq, -⟩ | ⟨k, -, -, heq⟩ := setName_cases w n.id "" <;> rw [heq]
    · exact ⟨n, hn, rfl⟩
    · refine ⟨{ n with name := "" }, ?_, rfl⟩
      have hnode := node?_modify_self w n.id (f := fun n => { n with name := "" }) fun _ => rfl
      exact hnode.trans (by rw [hn]; rfl)
  have hdrafted := h.edits hlow hname
  have hlow' : low ≤ m.id.value := hmid.symm ▸ hid
  have hforget : Edits header env low true w ((w.setName n.id "").modify n.id Node.forget) := by
    rw [← hmid] at hm ⊢
    exact .tail (hmid.symm ▸ hname) (.emptied _ m hm rfl hlow')
  have hrefs : ∀ r ∈ (w.setName n.id "").referencesOf n.id, env.scene.value < r.value := by
    intro r hr
    rw [referencesOf, hm] at hr
    obtain ⟨f, hf, hr⟩ := List.mem_flatMap.1 hr
    exact ((hdrafted.drafts m (mem_nodes_of_node? hm) (by omega)).fields f hf).inner r hr
  have hheld : (w.setName n.id "").held = w.held := (proceeds_setName Catalog.withScenes w n.id "").held
  refine ⟨hforget.trans (edits_release (h.edits hlow hforget) hlow true _ hrefs), ?_⟩
  exact (proceeds_release Catalog.withScenes _ _).held.trans hheld

end World

namespace Reader

variable {α : Type} {ctx : DocumentContext} {header : Header} {low : Nat} {s : ReaderState}

/-- What follows the name of a declaration. -/
def afterName (ctx : DocumentContext) (nested : Reader (Option NodeId)) (name : Option String) :
    Reader (Option NodeId) := do
  let typeName ← identifier ctx "a node type"
  let p ← last
  match ← request ctx typeName with
  | none =>
    symbol ctx .nodeBegin
    skipBody ctx
    warn ctx p s!"skipped unknown node type '{typeName}'"
    return none
  | some id =>
    match name with
    | some name => act (·.setName id name)
    | none => pure ()
    onFailure (symbol ctx .nodeBegin) (·.drop id)
    closeBody ctx id typeName p (← attempt (body ctx nested id))

theorem declarationUpTo_succ (depth : Nat) :
    declarationUpTo ctx (depth + 1) = (do
      if ctx.control.isCancelled (← get).asked then throw .cancelled
      else if ← optionalKeyword ctx .null then return none
      else
        let isNamed ← optionalKeyword ctx .define
        let name ← if isNamed then some <$> identifier ctx "a node name after DEF" else pure none
        afterName ctx (declarationUpTo ctx depth) name) := rfl

/-- Afterwards a node that was made meanwhile is given up. -/
theorem Passes.discard {s' : ReaderState} {rest kept : List NodeId} {failed : Bool} {id : NodeId}
    (h : Passes ctx header low ([id] ++ rest) s s' kept failed)
    (hlow : ctx.environment.scene.value < low) (ho : Open ctx header s) (hid : low ≤ id.value) :
    Passes ctx header low ([id] ++ rest) s { s' with world := s'.world.discard id } kept true := by
  obtain ⟨b, he, -⟩ := h.edits
  obtain ⟨leaked, hheld⟩ := h.held
  have hdrafted := (h.open hlow ho).drafted
  have hlive := hdrafted.orderly.sound.held id (hheld.mem_iff.2 (by simp))
  obtain ⟨n, hn⟩ := World.isLive_iff.1 hlive
  obtain rfl := World.id_of_node? hn
  obtain ⟨hdiscard, hheld'⟩ := World.edits_discard hdrafted hlow hn hid
  exact ⟨⟨leaked, hheld' ▸ hheld⟩, ⟨true, (he.weaken fun _ => rfl).trans hdiscard, fun _ => .inl rfl⟩,
    h.tokens, h.scene, h.tidy⟩

namespace Reads

variable (hlow : ctx.environment.scene.value < low)
include hlow

/-! ### Routes and statements -/

omit hlow in
theorem installRoute (p : Position) (r : RouteText) :
    ReadsOnly ctx header low (installRoute ctx p r) fun _ => True := by
  refine get_bind fun s ho hlast rest hheld hroot => ?_
  split
  · exact warn p _ s rest ho hlast hheld hroot
  rename_i a output b input hr
  rw [ho.root] at hr
  obtain ⟨⟨ha, hida⟩, ⟨hb, hidb⟩, hfeeds⟩ := ho.drafted.of_resolveRoute hr
  have he : Edits header ctx.environment low false s.world
      (s.world.addConnection a.id output ⟨b.id, input⟩).2 := by
    unfold World.addConnection
    rw [ha]
    exact .single (.connected s.world a b output input ha hb hida hidb hfeeds)
  have hheld' : (s.world.addConnection a.id output ⟨b.id, input⟩).2.held = s.world.held :=
    (World.proceeds_addConnection Catalog.withScenes _ _ _ _).held
  have hpass : Passes ctx header low rest s
      { s with world := (s.world.addConnection a.id output ⟨b.id, input⟩).2 } [] false :=
    .of_edits he (hheld' ▸ hheld) false
  rw [exec_bind_ok (exec_set s _)]
  split
  · exact ⟨hpass, trivial⟩
  · exact ⟨hpass.trans (.of_edits (.single (.noted _ _)) (hheld' ▸ hheld) false), trivial⟩

theorem route : ReadsOnly ctx header low (route ctx) fun _ => True := by
  intro s rest ho hlast hheld hroot
  rw [Reader.route, exec_bind_ok (exec_last s)]
  exact ((identifier hlow _).bind hlow fun _ _ => (symbol hlow _).bind hlow fun _ _ =>
    (identifier hlow _).bind hlow fun _ _ => (keyword hlow _).bind hlow fun _ _ =>
      (identifier hlow _).bind hlow fun _ _ => (symbol hlow _).bind hlow fun _ _ =>
        (identifier hlow _).bind hlow fun _ _ => installRoute _ _) s rest ho hlast hheld hroot

omit hlow in
/-- Only the scene itself changes, and stays tidy. -/
theorem modifyScene {f : Scene → Scene} (hroot : ∀ scene, (f scene).root = scene.root)
    (htidy : ∀ scene, scene.Tidy header → (f scene).Tidy header) :
    ReadsOnly ctx header low (modify fun s => { s with scene := f s.scene }) fun _ => True :=
  fun s _ _ _ hheld _ =>
    ⟨⟨⟨[], hheld⟩, ⟨false, .refl, nofun⟩, List.suffix_rfl, hroot s.scene, htidy s.scene⟩, trivial⟩

theorem metadata : ReadsOnly ctx header low (metadata ctx) fun _ => True := by
  refine (quoted hlow _).bind hlow fun key _ => (quoted hlow _).bind hlow fun value _ => ?_
  refine modifyScene (f := (·.insertMetadata key value)) (fun scene => ?_) fun scene h => ?_
  · unfold Scene.insertMetadata
    split <;> rfl
  · unfold Scene.insertMetadata
    split
    · refine ⟨h.profile, ?_⟩
      dsimp only
      rw [List.map_map, List.map_congr_left (g := (·.1))]
      · exact h.keys
      · intro e _
        dsimp only [Function.comp]
        split <;> rfl
    · rename_i hnew
      refine ⟨h.profile, ?_⟩
      rw [List.map_append, List.map_singleton, List.nodup_append]
      refine ⟨h.keys, List.nodup_singleton _, fun a ha b hb hab => ?_⟩
      rw [List.mem_singleton.1 hb] at hab
      obtain ⟨e, he, rfl⟩ := List.mem_map.1 ha
      exact hnew (List.any_eq_true.2 ⟨e, he, beq_iff_eq.2 hab⟩)

theorem profile : ReadsOnly ctx header low (profile ctx) fun _ => True := by
  refine (identifier hlow _).bind hlow fun name hname => ?_
  refine modifyScene (f := fun scene => { scene with profile := some name }) (fun _ => rfl) fun scene h => ?_
  exact ⟨fun p hp => Option.some.inj hp ▸ hname, h.keys⟩

/-! ### Fields -/

theorem use : OfNode ctx header low (use ctx) := by
  refine (identifier hlow _).bind hlow fun name _ => get_bind fun s ho hlast rest hheld hroot => ?_
  split
  · rename_i id hfind
    rw [Scene.find?, ho.root] at hfind
    obtain ⟨n, hn, rfl⟩ := Option.map_eq_some_iff.1 hfind
    obtain ⟨hnode, hid⟩ := ho.drafted.of_findInScene? hn
    have hheld' : (s.world.hold n.id).held.Perm ([n.id] ++ rest) := hheld.cons n.id
    rw [exec_bind_ok (exec_act _ s)]
    refine ⟨.of_edits (.single (.held s.world n.id (World.isLive_of_node? hnode))) hheld' false,
      fun r hr => ?_⟩
    rwa [← Option.some.inj hr]
  · exact (warn _ _).bind hlow (fun _ _ => .pure none rfl (by simp)) s rest ho hlast hheld hroot

theorem nodeValue {declaration : Reader (Option NodeId)} (h : OfNode ctx header low declaration) :
    OfNode ctx header low (nodeValue ctx declaration) := by
  refine (optionalKeyword hlow _).bind hlow fun b _ => ?_
  split
  · exact use hlow
  · exact h

theorem fieldValue {declaration : Reader (Option NodeId)} (h : OfNode ctx header low declaration)
    {id : NodeId} (hid : low ≤ id.value) (name : String) :
    ReadsOnly ctx header low (fieldValue ctx declaration id name) fun _ => True := by
  intro s rest ho hlast hheld hroot
  rw [Reader.fieldValue, exec_bind_ok (exec_position ctx s), exec_bind_ok (exec_get s)]
  split
  · rw [exec_bind_ok (exec_get s)]
    exact .refl hheld _
  · refine (content hlow (nodeValue hlow h) _).bind hlow (fun value hvalue => ?_) s rest ho hlast hheld hroot
    refine get_bind fun s ho hlast rest hheld hroot => ?_
    have hlive := fun r hr => ho.drafted.orderly.sound.held r
      (hheld.mem_iff.2 (List.mem_append_left rest hr))
    obtain ⟨he, hheld'⟩ := World.edits_initField ho.drafted hlow hid hlive hvalue.2 false
    have hpass : Passes ctx header low (value.references ++ rest) s
        { s with world := (s.world.initField id name value).2 } [] false :=
      .of_edits he (hheld' ▸ hheld) false
    have hdrop := hpass.dropAll hlow ho hvalue.2.inner hroot
    rw [exec_bind_ok (exec_set s _)]
    split
    · exact ⟨hdrop, trivial⟩
    · exact hdrop.fail _

omit hlow in
theorem declareField {id : NodeId} (hid : low ≤ id.value) {name : String}
    (hname : IsIdentifier (some header) name) {k : Kind}
    (hk : (Keyword.kind k).isEnabled (some header) = true) (p : Position) :
    ReadsOnly ctx header low (declareField id name k p) fun _ => True := by
  refine get_bind fun s ho hlast rest hheld hroot => ?_
  obtain ⟨he, hheld'⟩ := @World.edits_addField header ctx.environment low s.world name id hid k hname hk false
  have hpass : Passes ctx header low rest s
      { s with world := (s.world.addField id name (.initial k)).2 } [] false :=
    .of_edits he (hheld' ▸ hheld) false
  rw [exec_bind_ok (exec_set s _)]
  split
  · exact ⟨hpass, trivial⟩
  · exact hpass.fail _

/-! ### Declarations -/

theorem bodyEntry {declaration : Reader (Option NodeId)} (h : OfNode ctx header low declaration)
    {id : NodeId} (hid : low ≤ id.value) :
    ReadsOnly ctx header low (bodyEntry ctx declaration id) fun _ => True := by
  intro s rest ho hlast hheld hroot
  rw [Reader.bodyEntry, exec_bind_ok (exec_position ctx s), exec_bind_ok (exec_peek? s)]
  have hvalid : ∀ t, s.tokens.head? = some t → t.Valid (some header) :=
    fun t ht => ho.valid t (List.mem_of_mem_head? ht)
  split
  · exact pop.bind hlow (fun _ _ => .answer _ trivial) s rest ho hlast hheld hroot
  · exact pop.bind hlow (fun _ _ => (route hlow).bind hlow fun _ _ => .answer _ trivial) s rest ho hlast
      hheld hroot
  · rename_i k hk
    have henabled := hvalid _ hk
    exact pop.bind hlow (fun _ _ => (identifier hlow _).bind hlow fun name hname =>
      (declareField hid hname henabled _).bind hlow fun _ _ =>
        (fieldValue hlow h hid name).bind hlow fun _ _ => .answer _ trivial) s rest ho hlast hheld hroot
  · rename_i name hname
    have hfield : ReadsOnly ctx header low (do
        Reader.fieldValue ctx declaration id name
        return (none : Option Unit)) fun _ => True :=
      (fieldValue hlow h hid name).bind hlow fun _ _ => .answer _ trivial
    refine pop.bind hlow (fun _ _ => get_bind fun s ho hlast rest hheld hroot => ?_) s rest ho hlast hheld
      hroot
    split
    · split
      · exact hfield s rest ho hlast hheld hroot
      · exact .refl hheld _
    · exact hfield s rest ho hlast hheld hroot
  · exact pop.bind hlow (fun _ _ => (enter _).bind hlow fun _ _ => .answer _ trivial) s rest ho hlast hheld
      hroot
  · exact unexpected _ s rest ho hlast hheld hroot

theorem body {declaration : Reader (Option NodeId)} (h : OfNode ctx header low declaration)
    {id : NodeId} (hid : low ≤ id.value) :
    ReadsOnly ctx header low (body ctx declaration id) fun _ => True := by
  have huntil : ∀ n, ReadsOnly ctx header low (untilSome ctx (Reader.bodyEntry ctx declaration id) n)
      fun _ => True := by
    intro n
    induction n with
    | zero => exact .throw
    | succ n ih =>
      refine (bodyEntry hlow h hid).bind hlow fun a _ => ?_
      split
      · exact .answer _ trivial
      · exact ih
  exact get_bind fun s ho hlast rest hheld hroot => huntil _ s rest ho hlast hheld hroot

omit hlow in
/-- Skipping takes tokens only, and fails only at the end of the text. -/
theorem exec_closeBraces (ctx : DocumentContext) (lexemes : List Lexeme) (unclosed : Nat) (s : ReaderState) :
    ∃ s', s'.world = s.world ∧ s'.scene = s.scene ∧ s'.tokens <:+ s.tokens ∧
      (exec (closeBraces ctx lexemes unclosed) s = (.ok (), s') ∨
        ∃ e, e.isFatal = true ∧ exec (closeBraces ctx lexemes unclosed) s = (.error e, s')) := by
  induction lexemes generalizing unclosed s with
  | nil =>
    cases unclosed with
    | zero => exact ⟨s, rfl, rfl, List.suffix_rfl, .inl rfl⟩
    | succ unclosed =>
      obtain ⟨s', hrun, hw, hscene, ht⟩ := exec_pop_any ctx s
      exact ⟨s', hw, hscene, ht, .inr ⟨_, rfl, by rw [closeBraces, exec_bind_ok hrun]; rfl⟩⟩
  | cons l rest ih =>
    cases unclosed with
    | zero => exact ⟨s, rfl, rfl, List.suffix_rfl, .inl rfl⟩
    | succ unclosed =>
      obtain ⟨s', hrun, hw, hscene, ht⟩ := exec_pop_any ctx s
      obtain ⟨s'', hw', hscene', ht', hrun'⟩ := ih (if l.token.isSymbol .nodeBegin then unclosed + 2
        else if l.token.isSymbol .nodeEnd then unclosed else unclosed + 1) s'
      refine ⟨s'', hw'.trans hw, hscene'.trans hscene, ht'.trans ht, ?_⟩
      rw [closeBraces, exec_bind_ok hrun]
      exact hrun'

omit hlow in
theorem skipBody : ReadsOnly ctx header low (skipBody ctx) fun _ => True := by
  refine get_bind fun s ho hlast rest hheld hroot => ?_
  obtain ⟨s', hw, hscene, ht, hrun | ⟨e, -, hrun⟩⟩ := exec_closeBraces ctx s.lexemes 1 s
  · rw [hrun]
    exact ⟨.of_tokens hheld hw hscene ht false, trivial⟩
  · rw [hrun]
    exact .of_tokens hheld hw hscene ht _

omit hlow in
/-- A declaration is skipped after an error that does not end the reading. -/
theorem skipDeclaration {s' : ReaderState} {rest kept : List NodeId} {id : NodeId}
    (hlow : ctx.environment.scene.value < low) (ho : Open ctx header s) (hid : low ≤ id.value)
    (hroot : ctx.environment.scene ∈ rest)
    (h : Passes ctx header low ([id] ++ rest) s s' kept true) (typeName : String) (p : Position) :
    Ends ctx header low rest Option.toList (fun o => ∀ r ∈ o, low ≤ r.value) s (exec (do
      Reader.onFailure (Reader.skipBody ctx) (·.drop id)
      Reader.warn ctx p s!"skipped {typeName} node"
      Reader.act (·.drop id)
      return none) s') := by
  have hmine : ∀ r ∈ [id], ctx.environment.scene.value < r.value := by
    intro r hr
    rw [List.mem_singleton.1 hr]
    omega
  have hrun : exec (Reader.skipBody ctx) s' = exec (closeBraces ctx s'.lexemes 1) s' := rfl
  obtain ⟨s'', hw, hscene, ht, hbraces⟩ := exec_closeBraces ctx s'.lexemes 1 s'
  have h := h.take hw hscene ht
  rw [exec_bind, exec_onFailure, hrun]
  rcases hbraces with hok | ⟨e, he, herror⟩
  · rw [hok]
    have hnote := h.enter (.warning ctx.file p s!"skipped {typeName} node")
    have hskip : s.world.Skipped ctx.file
        (s''.world.enter (.warning ctx.file p s!"skipped {typeName} node")) := by
      obtain ⟨b, he, -⟩ := h.edits
      obtain ⟨entries, hentries⟩ := World.journal_edits he
      exact ⟨_ :: entries, congrArg (List.cons _) hentries.symm, _, List.mem_cons_self, p, typeName, .inl rfl⟩
    exact ⟨((hnote.skip hskip false).dropAll hlow ho hmine hroot).forsake, fun r hr => by cases hr⟩
  · rw [herror]
    have hdrop := h.dropAll hlow ho hmine hroot
    rw [← he] at hdrop
    exact hdrop.forsake

/-- A body that was read, or not, and what becomes of its node. -/
theorem closeBody {declaration : Reader (Option NodeId)} (h : OfNode ctx header low declaration)
    {id : NodeId} (hid : low ≤ id.value) (typeName : String) (p : Position) :
    Reads ctx header low [id]
      (do closeBody ctx id typeName p (← attempt (Reader.body ctx declaration id))) Option.toList
      fun o => ∀ r ∈ o, low ≤ r.value := by
  intro s rest ho hlast hheld hroot
  have hmine : ∀ r ∈ [id], ctx.environment.scene.value < r.value := by
    intro r hr
    rw [List.mem_singleton.1 hr]
    omega
  have hbody := body hlow h hid s ([id] ++ rest) ho hlast hheld (List.mem_append_right _ hroot)
  rw [exec_bind_ok (exec_attempt _ s)]
  generalize exec (Reader.body ctx declaration id) s = r at hbody ⊢
  obtain ⟨e | _, s'⟩ := r
  · have hbody : Passes ctx header low ([id] ++ rest) s s' [] e.isFatal := hbody
    have hdiscard := hbody.discard hlow ho hid
    have hdrop := hbody.dropAll hlow ho hmine hroot
    have hgiveUp := hdiscard.dropAll hlow ho hmine hroot
    have hskip := skipDeclaration hlow ho hid hroot
      (hdiscard.enter (.log .error s!"Error in \"{ctx.file}\", {e.message}")) typeName p
    cases e with
    | layout e => exact hdrop.forsake
    | cancelled => exact hgiveUp.forsake
    | endOfFile p => exact hgiveUp.forsake
    | _ => exact hskip
  · exact ⟨hbody.1.reframe, fun r hr => Option.some.inj hr ▸ hid⟩

/-- A new node is held, and made after all that was there before. -/
theorem request (hcatalog : ctx.catalog = Catalog.standard) (typeName : String) :
    Reads ctx header low [] (request ctx typeName) Option.toList fun o => ∀ r ∈ o, low ≤ r.value := by
  have hasked : ReadsOnly ctx header low
      (modify fun s => { s with asked := s.asked + 1, checkpoints := s.progress :: s.checkpoints })
      fun _ => True :=
    fun s rest _ _ hheld _ => ⟨⟨⟨[], hheld⟩, ⟨false, .refl, nofun⟩, List.suffix_rfl, rfl, id⟩, trivial⟩
  refine hasked.bind hlow fun _ _ => (enter _).bind hlow fun _ _ =>
    get_bind fun s ho hlast rest hheld hroot => ?_
  rw [hcatalog]
  split
  · rename_i made w hcreate
    obtain ⟨rfl, rfl⟩ | ⟨t, ht, spec, w', hspec, rfl, rfl⟩ := World.createOfType_cases hcreate
    · exact ⟨.refl hheld false, fun r hr => by cases hr⟩
    · obtain ⟨rfl, he, hheld', hregistry⟩ := World.edits_specification ho.drafted ht hspec false
      have hcreated := Relation.ReflTransGen.tail he (.created w' t ht)
      have hkept : (w'.create t.layout t.behavior ctx.environment).2.held.Perm
          ([⟨w'.registry.lastId + 1⟩] ++ rest) := by
        have hnew : (w'.create t.layout t.behavior ctx.environment).2.held =
            ⟨w'.registry.lastId + 1⟩ :: w'.held := rfl
        rw [hnew, hheld']
        exact hheld.cons _
      refine ⟨.of_edits hcreated hkept false, fun r hr => ?_⟩
      rw [← Option.some.inj hr]
      change low ≤ w'.registry.lastId + 1
      rwa [hregistry]
  · exact .refl hheld _

omit hlow in
/-- The node of a declaration takes its name. -/
theorem setName {id : NodeId} (hid : ctx.environment.scene.value < id.value) {name : String}
    (hname : IsIdentifier (some header) name) :
    Reads ctx header low [id] (Reader.act (·.setName id name)) (fun _ => [id]) fun _ => True := by
  refine act fun w hdrafted _ rest hheld hroot => ?_
  obtain ⟨n, hn⟩ := World.isLive_iff.1 (hdrafted.orderly.sound.held id (hheld.mem_iff.2 (by simp)))
  obtain rfl := World.id_of_node? hn
  have hheld' := (World.proceeds_setName Catalog.withScenes w n.id name).held
  exact ⟨.single (.named w n name hn (.inr hname) hid), hheld' ▸ hheld⟩

theorem afterName (hcatalog : ctx.catalog = Catalog.standard) {nested : Reader (Option NodeId)}
    (hnested : OfNode ctx header low nested) {name : Option String}
    (hname : ∀ s ∈ name, IsIdentifier (some header) s) :
    Reads ctx header low [] (afterName ctx nested name) Option.toList fun o => ∀ r ∈ o, low ≤ r.value := by
  refine (identifier hlow _).bind hlow fun typeName _ => ?_
  intro s rest ho hlast hheld hroot
  rw [exec_bind_ok (exec_last s)]
  refine ((request hlow hcatalog typeName).bind hlow fun o ho => ?_) s rest ho hlast hheld hroot
  split
  · exact (symbol hlow _).bind hlow fun _ _ => skipBody.bind hlow fun _ _ =>
      (warn _ _).bind hlow fun _ _ => .pure none rfl nofun
  · rename_i id
    have hid : low ≤ id.value := ho id rfl
    have hroot : ctx.environment.scene.value < id.value := by omega
    have hbody : Reads ctx header low [id] (do
        Reader.onFailure (Reader.symbol ctx .nodeBegin) (·.drop id)
        Reader.closeBody ctx id typeName s.last (← attempt (Reader.body ctx nested id))) Option.toList
        fun o => ∀ r ∈ o, low ≤ r.value :=
      ((symbol hlow _).onFailure hlow (fun r hr => by rwa [List.mem_singleton.1 hr])).bind hlow
        fun _ _ => closeBody hlow hnested hid typeName s.last
    cases name with
    | none => exact hbody
    | some name => exact (setName hroot (hname name rfl)).bind hlow fun _ _ => hbody

/-- **Declarations**, by induction on how deep they nest: a declared node is held, and made after all
that was there before. -/
theorem declarationUpTo (hcatalog : ctx.catalog = Catalog.standard) (depth : Nat) :
    Reads ctx header low [] (declarationUpTo ctx depth) Option.toList
      fun o => ∀ r ∈ o, low ≤ r.value := by
  induction depth with
  | zero => exact .throw
  | succ depth ih =>
    have hnested : OfNode ctx header low (Reader.declarationUpTo ctx depth) :=
      ih.imp fun o ho r hr => by
        have hr := ho r hr
        omega
    rw [declarationUpTo_succ]
    refine get_bind fun s ho hlast rest hheld hroot => ?_
    split
    · exact .refl hheld _
    refine ((optionalKeyword hlow _).bind hlow fun b _ => ?_) s rest ho hlast hheld hroot
    split
    · exact .pure none rfl nofun
    refine (optionalKeyword hlow _).bind hlow fun b _ => ?_
    dsimp only
    split
    · exact ((identifier hlow _).imp fun s hs s' hs' => Option.some.inj hs' ▸ hs).map.bind hlow
        fun name hname => afterName hlow hcatalog hnested hname
    · exact (answer none nofun).bind hlow fun name hname => afterName hlow hcatalog hnested hname

theorem declaration (hcatalog : ctx.catalog = Catalog.standard) :
    Reads ctx header low [] (declaration ctx) Option.toList fun o => ∀ r ∈ o, low ≤ r.value :=
  get_bind fun s ho hlast rest hheld hroot =>
    declarationUpTo hlow hcatalog _ s rest ho hlast hheld hroot

/-- **Statements**: only a declaration answers with a node, which is held and made after all that was
there before. -/
theorem statement (hcatalog : ctx.catalog = Catalog.standard) :
    Reads ctx header low [] (statement ctx) Option.toList fun o => ∀ r ∈ o, low ≤ r.value := by
  have hnothing : Reads ctx header low [] (Pure.pure none : Reader (Option NodeId)) Option.toList
      fun o => ∀ r ∈ o, low ≤ r.value := .pure none rfl nofun
  refine (optionalKeyword hlow _).bind hlow fun _ _ => ?_
  split
  · exact (route hlow).bind hlow fun _ _ => hnothing
  refine (optionalKeyword hlow _).bind hlow fun _ _ => ?_
  split
  · exact (metadata hlow).bind hlow fun _ _ => hnothing
  refine (optionalKeyword hlow _).bind hlow fun _ _ => ?_
  split
  · exact (profile hlow).bind hlow fun _ _ => hnothing
  · exact declaration hlow hcatalog

end Reads

end Reader

end SceneGraph
