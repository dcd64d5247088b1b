import SceneGraph.Proofs.Document.SetUp
import SceneGraph.Proofs.Document.Statements

/-!
# The root of a scene

A scene starts out as a root without children (`World.Ready.drafted`). When all statements are read, the
top-level nodes become its children (`World.Assembles`), and everything is set up.

* `Reader.exec_document`: what reading a document does after its last statement.
-/

namespace SceneGraph

namespace World

/-- Nothing is going on in a world, and every id that is in use has been handed out. -/
structure Ready (w : World) : Prop where
  orderly : Orderly w
  idle : w.cascade = []
  scenes : ∀ n ∈ w.nodes, n.environment.scene.value ≤ w.registry.lastId
  names : ∀ e ∈ w.registry.names, e.2.value ≤ w.registry.lastId

theorem Ready.empty : Ready {} where
  orderly := ⟨.empty _, Mirrored.empty.counts, fun id hcycle => by
    obtain ⟨c, hc, -⟩ := Relation.TransGen.head'_iff.1 hcycle
    cases hc⟩
  idle := rfl
  scenes n hn := by cases hn
  names e he := by cases he

variable {header : Header} {env : Environment} {w w' : World} {ids : List NodeId} {time : Timestamp}

/-! ### A bare root -/

/-- The next id is the root's, and its layout is that of all roots. -/
theorem create_eq (h : Sound Catalog.withScenes w) (library filename : String) (renders : Bool)
    (time : Timestamp) :
    ∃ specifications, Scene.create w library filename renders time =
      ({ root := ⟨w.registry.lastId + 1⟩, time },
        { w.nextId.2 with specifications }.addNode ⟨w.registry.lastId + 1⟩ Scene.nodeType.layout .grouping
          { library, filename, scene := ⟨w.registry.lastId + 1⟩, renders }) := by
  have hroot : Scene.nodeType ∈ Catalog.withScenes := List.mem_cons_self
  have hissued : Sound Catalog.withScenes w.nextId.2 := h.nextId
  unfold Scene.create
  dsimp only
  split
  · rename_i r hspec
    obtain ⟨spec, v⟩ := r
    obtain ⟨rfl, -⟩ := leads_specification Catalog.regular_withScenes hissued hroot hspec
    obtain ⟨table, rfl⟩ := specification_eq hspec
    exact ⟨table, rfl⟩
  · exact ⟨w.specifications, rfl⟩

/-- **A new scene is a draft** with nothing but a root. -/
theorem Ready.drafted (h : Ready w) (header : Header) (library filename : String) (renders : Bool)
    (time : Timestamp) :
    Drafted header { library, filename, scene := ⟨w.registry.lastId + 1⟩, renders }
      (Scene.create w library filename renders time).2 := by
  have horderly := h.orderly.leads (leads_createScene Catalog.regular_withScenes h.orderly.sound
    List.mem_cons_self library filename renders time)
  obtain ⟨specifications, hcreate⟩ := create_eq h.orderly.sound library filename renders time
  rw [hcreate] at horderly ⊢
  have hnew : ∀ n ∈ w.nodes, n.id.value < w.registry.lastId + 1 :=
    fun n hn => Nat.lt_succ_of_le (h.orderly.issued hn)
  have hnode : ∀ {n : Node} {m : Node}, n ∈ w.nodes ++ [m] → m.id.value = w.registry.lastId + 1 →
      w.registry.lastId + 1 < n.id.value → False := by
    intro n m hn hm hid
    rcases List.mem_append.1 hn with hn | hn
    · have hless := hnew n hn
      omega
    · rw [List.mem_singleton.1 hn, hm] at hid
      omega
  refine ⟨horderly, h.idle, ?_, List.mem_cons_self, fun n hn hid => (hnode hn rfl hid).elim,
    fun n hn hid => (hnode hn rfl hid).elim, fun n hn hid => (hnode hn rfl hid).elim, fun n hn hid => ?_,
    fun e he => ?_⟩
  · have hnone : w.node? ⟨w.registry.lastId + 1⟩ = none := by
      cases hn : w.node? ⟨w.registry.lastId + 1⟩ with
      | none => rfl
      | some n =>
        have hless := hnew n (mem_nodes_of_node? hn)
        rw [id_of_node? hn] at hless
        exact absurd hless (Nat.lt_irrefl _)
    refine (node?_addNode _ _ _ _ _ _).trans ?_
    rw [if_pos rfl]
    exact congrArg (Option.or · _) hnone
  · rcases List.mem_append.1 hn with hn | hn
    · exact Nat.lt_succ_of_le (h.scenes n hn)
    · rw [List.mem_singleton.1 hn] at hid
      exact absurd hid (Nat.lt_irrefl _)
  · have hle := h.names e he
    refine ⟨Nat.le_succ_of_le hle, fun hroot => ?_⟩
    rw [hroot] at hle
    exact absurd hle (Nat.not_succ_le_self _)

/-! ### The children of the root -/

/-- A bare root accepts every node but itself. -/
theorem accept_root (hroot : w.node? env.scene = some (.fresh env.scene Scene.nodeType.layout .grouping env))
    (hids : env.scene ∉ ids) : w.accept env.scene ids = (ids, [], w) := by
  have hancestors : w.ancestors env.scene = [env.scene] := by
    rw [ancestors, parentsOf, hroot]
    change env.scene :: preorder _ _ [] _ = _
    rw [preorder]
  have haccepted : ids.filter (!(w.ancestors env.scene).contains ·) = ids := by
    rw [List.filter_eq_self, hancestors]
    intro c hc
    have hne : c ≠ env.scene := fun h => hids (h ▸ hc)
    simpa using hne
  have hrejected : ids.filter ((w.ancestors env.scene).contains ·) = [] := by
    rw [List.filter_eq_nil_iff, hancestors]
    intro c hc
    have hne : c ≠ env.scene := fun h => hids (h ▸ hc)
    simpa using hne
  unfold accept
  dsimp only
  rw [haccepted, hrejected]
  rfl

theorem changeChildren_root
    (hroot : w.node? env.scene = some (.fresh env.scene Scene.nodeType.layout .grouping env))
    (hids : env.scene ∉ ids) (time : Timestamp) :
    w.changeChildren env.scene childrenField (.nodes ids time) =
      (true, {}, (w.modify env.scene (·.store childrenField (.nodes ids time))).step
        (.stored env.scene childrenField (.nodes ids time))) := by
  have hchildren : w.children env.scene = [] := by rw [World.children, hroot]; rfl
  have hkind : (Field.nodes ids time).kind = ⟨.node, .multi⟩ := rfl
  unfold changeChildren
  rw [if_neg (not_not.2 hkind)]
  dsimp only
  rw [if_pos rfl, hchildren, Field.references_nodes, accept_root hroot hids]
  have hlinked : (w.node? env.scene).any (·.initialized) = false := by rw [hroot]; rfl
  dsimp only
  unfold replaceChildren
  rw [hlinked]
  change (true, w.storeChildren env.scene [] ids time {}) = _
  unfold storeChildren
  rw [hroot]
  rfl

/-- A bare root takes a list of nodes as its children. -/
theorem setField_root (hroot : w.node? env.scene = some (.fresh env.scene Scene.nodeType.layout .grouping env))
    (hfree : (env.scene, childrenField) ∉ w.cascade) (hids : env.scene ∉ ids) (time : Timestamp) :
    w.setField env.scene childrenField (.nodes ids time) =
      (.ok (), { w.modify env.scene (·.store childrenField (.nodes ids time)) with
        journal := .step .left :: .step (.stored env.scene childrenField (.nodes ids time)) ::
          .step (.entered env.scene childrenField) :: w.journal }) := by
  have henter : w.enterCascade env.scene childrenField =
      some ({ w with cascade := (env.scene, childrenField) :: w.cascade }.step
        (.entered env.scene childrenField)) := by
    rw [enterCascade, if_neg (by simpa using hfree)]
  unfold setField cascadeDepth deliverUpTo
  rw [hroot]
  dsimp only
  rw [henter]
  dsimp only
  generalize hv : ({ w with cascade := (env.scene, childrenField) :: w.cascade }.step
    (.entered env.scene childrenField)) = v
  have hroot' : v.node? env.scene = some (.fresh env.scene Scene.nodeType.layout .grouping env) :=
    hv ▸ hroot
  have hreceive : v.receive (.fresh env.scene Scene.nodeType.layout .grouping env) childrenField
      (.nodes ids time) = (.ok (), {}, (v.modify env.scene (·.store childrenField (.nodes ids time))).step
        (.stored env.scene childrenField (.nodes ids time))) := by
    have haccess : (Node.fresh env.scene Scene.nodeType.layout .grouping env).access? childrenField =
        some .all := rfl
    have hexplicit : Access.all.explicit = true := rfl
    unfold receive
    rw [haccess]
    dsimp only
    rw [if_neg (by decide), if_pos hexplicit]
    have hchange : v.changeField (.fresh env.scene Scene.nodeType.layout .grouping env) childrenField
        (.nodes ids time) = v.changeChildren env.scene childrenField (.nodes ids time) := rfl
    rw [hchange, changeChildren_root hroot' hids time]
  rw [hreceive]
  dsimp only [conclude]
  -- a bare root has no routes, so the value goes no further
  have hdispatch : ((v.modify env.scene (·.store childrenField (.nodes ids time))).step
      (.stored env.scene childrenField (.nodes ids time))).dispatch? env.scene childrenField = none := by
    have hnode : ((v.modify env.scene (·.store childrenField (.nodes ids time))).step
        (.stored env.scene childrenField (.nodes ids time))).node? env.scene =
          some ((Node.fresh env.scene Scene.nodeType.layout .grouping env).store childrenField
            (.nodes ids time)) :=
      (node?_modify_self v env.scene fun n => Node.store_id n _ _).trans (by rw [hroot']; rfl)
    unfold dispatch?
    rw [hnode]
    dsimp only
    rw [Node.routesFrom_store]
    rfl
  have hid : (Node.fresh env.scene Scene.nodeType.layout .grouping env).id = env.scene := rfl
  unfold passOn
  rw [hid, hdispatch]
  dsimp only [settle, List.foldl_nil]
  rw [release]
  subst hv
  rfl

/-- Nothing goes that somebody refers to. -/
theorem release_of_references (h : ids ⊆ w.references) : release ids w = w :=
  release_of_isHeld fun id hid => by rw [isHeld, List.contains_iff_mem.2 (h hid), Bool.or_true]

theorem mem_foldl_erase {held : List NodeId} {id : NodeId} (hid : id ∉ ids) (h : id ∈ held) :
    id ∈ ids.foldl List.erase held := by
  induction ids generalizing held with
  | nil => exact h
  | cons c rest ih =>
    rw [List.mem_cons, not_or] at hid
    exact ih hid.2 ((List.mem_erase_of_ne hid.1).2 h)

/-- The top-level nodes have become the children of the root, and their handles are given back. -/
structure Assembles (root : NodeId) (ids : List NodeId) (w w' : World) : Prop where
  nodes : ∃ time, w'.nodes = (w.modify root (·.store childrenField (.nodes ids time))).nodes
  registry : w'.registry = w.registry
  held : root ∈ w'.held
  journal : ∃ entries, w'.journal = entries ++ w.journal ∧ ∀ e ∈ entries, e.isQuoting = false
  idle : w'.cascade = []
  orderly : Orderly w'

theorem Drafted.assembles (h : Drafted header env w) (hids : ∀ c ∈ ids, env.scene.value < c.value)
    (hheld : ids ⊆ w.held) (time : Timestamp) :
    (w.setField env.scene childrenField (.nodes ids time)).1 = .ok () ∧
      Assembles env.scene ids w ((w.setField env.scene childrenField (.nodes ids time)).2.dropAll ids) := by
  have hroot : env.scene ∉ ids := fun hmem => Nat.lt_irrefl _ (hids _ hmem)
  have hproceeds : Proceeds Catalog.withScenes w
      (w.setField env.scene childrenField (.nodes ids time)).2 :=
    proceeds_setField Catalog.regular_withScenes h.orderly.sound (by rwa [Field.references_nodes])
  have horderly := (h.orderly.leads hproceeds.leads).change (.unheld _ ids)
  rw [setField_root h.root (by rw [h.idle]; exact List.not_mem_nil) hroot time] at horderly ⊢
  generalize hv : ({ w.modify env.scene (·.store childrenField (.nodes ids time)) with
    journal := .step .left :: .step (.stored env.scene childrenField (.nodes ids time)) ::
      .step (.entered env.scene childrenField) :: w.journal } : World) = v at horderly ⊢
  have hnodes : v.nodes = (w.modify env.scene (·.store childrenField (.nodes ids time))).nodes := by rw [← hv]
  have hrefs : ids ⊆ v.references := by
    have hnode : v.node? env.scene = some ((Node.fresh env.scene Scene.nodeType.layout .grouping env).store
        childrenField (.nodes ids time)) := by
      rw [node?_congr hnodes, node?_modify_self w env.scene fun n => Node.store_id n _ _, h.root]
      rfl
    have hfield : ((Node.fresh env.scene Scene.nodeType.layout .grouping env).store childrenField
        (.nodes ids time)).field? childrenField = some (.nodes ids time) := by
      rw [Node.field?_store, if_pos rfl]
      rfl
    refine fun c hc => references_subset_of_mem (mem_nodes_of_node? hnode) ?_
    exact Node.references_subset_of_field? hfield (by rwa [Field.references_nodes])
  have hdrop : v.dropAll ids = { v with held := ids.foldl List.erase v.held } :=
    release_of_references (w := { v with held := ids.foldl List.erase v.held }) hrefs
  refine ⟨rfl, ?_⟩
  change Assembles env.scene ids w (v.dropAll ids)
  rw [hdrop]
  refine ⟨⟨time, hnodes⟩, by rw [← hv]; rfl, ?_, ?_, by rw [← hv]; exact h.idle, horderly⟩
  · rw [← hv]
    exact mem_foldl_erase hroot h.rootHeld
  · rw [← hv]
    refine ⟨[.step .left, .step (.stored env.scene childrenField (.nodes ids time)),
      .step (.entered env.scene childrenField)], rfl, ?_⟩
    simp [Entry.isQuoting]

end World

namespace Reader

variable {ctx : DocumentContext} {header : Header} {s s' t : ReaderState} {ids : List NodeId}

/-- After its last statement a document gives the root its children, sets everything up, and tells so. -/
theorem exec_document_ok {u : World} (hstatements : exec (statements ctx (s.lexemes.length + 1) []) s = (.ok ids, t))
    (hset : t.scene.setChildren t.world ids = (.ok (), u)) :
    exec (document ctx) s = (.ok (), { t with
      world := (t.scene.setUp (u.dropAll ids)).log .debug
        s!"parsed {ctx.file} with {(t.scene.children (t.scene.setUp (u.dropAll ids))).length} top-level nodes"
      progress := if ctx.control.watched then 1 else t.progress }) := by
  have hread : exec (onFailure (do Reader.statements ctx ((← get).lexemes.length + 1) [])
      (·.drop ctx.environment.scene)) s = (.ok ids, t) := by
    rw [exec_onFailure, exec_bind_ok (exec_get s), hstatements]
  rw [document, exec_bind_ok hread, exec_bind_ok (exec_get t), hset]
  dsimp only
  rw [exec_bind_ok (exec_set t _), exec_bind_ok (exec_act _ _)]
  split
  · rw [exec_bind_ok (exec_modify _ _), exec_bind_ok (exec_get _), exec_act]
  · rw [exec_bind_ok (exec_get _), exec_act]

/-- A document whose statements fail lets go of the root. -/
theorem exec_document_error {e : ReadError}
    (hstatements : exec (statements ctx (s.lexemes.length + 1) []) s = (.error e, t)) :
    exec (document ctx) s = (.error e, { t with world := t.world.drop ctx.environment.scene }) := by
  rw [document, exec_bind, exec_onFailure, exec_bind_ok (exec_get s), hstatements]

theorem exec_document_of_statements {u : World}
    (hstatements : exec (statements ctx (s.lexemes.length + 1) []) s = (.ok ids, t))
    (hset : t.scene.setChildren t.world ids = (.ok (), u)) :
    ∃ e s', e.isQuoting = false ∧ exec (document ctx) s = (.ok (), s') ∧ s'.scene = t.scene ∧
      s'.world = (t.scene.setUp (u.dropAll ids)).enter e :=
  ⟨_, _, rfl, exec_document_ok hstatements hset, rfl, rfl⟩

/-- **After its last statement** a draft gets its top-level nodes and is set up. -/
theorem exec_document
    (hstatements : exec (statements ctx (s.lexemes.length + 1) []) s = (.ok ids, t))
    (hdrafted : World.Drafted header ctx.environment t.world) (hroot : t.scene.root = ctx.environment.scene)
    (hids : ∀ c ∈ ids, ctx.environment.scene.value < c.value) (hheld : ids ⊆ t.world.held) :
    ∃ v e s', World.Assembles ctx.environment.scene ids t.world v ∧ e.isQuoting = false ∧
      exec (document ctx) s = (.ok (), s') ∧ s'.scene = t.scene ∧
        s'.world = (v.initializeNode ctx.environment.scene t.scene.time).enter e := by
  obtain ⟨hok, hassembles⟩ := hdrafted.assembles hids hheld t.scene.time
  have hset : t.scene.setChildren t.world ids =
      (.ok (), (t.world.setField ctx.environment.scene childrenField (.nodes ids t.scene.time)).2) := by
    rw [Scene.setChildren, hroot]
    exact Prod.ext hok rfl
  obtain ⟨e, s', he, hrun, hscene, hworld⟩ := exec_document_of_statements hstatements hset
  rw [Scene.setUp, hroot] at hworld
  exact ⟨_, e, s', hassembles, he, hrun, hscene, hworld⟩

/-- A document is read only if its statements are. -/
theorem exists_of_exec_document (h : exec (document ctx) s = (.ok (), s')) :
    ∃ ids t, exec (statements ctx (s.lexemes.length + 1) []) s = (.ok ids, t) := by
  cases hstatements : exec (statements ctx (s.lexemes.length + 1) []) s with
  | mk r t =>
    obtain e | ids := r
    · rw [exec_document_error hstatements] at h
      cases (Prod.mk.inj h).1
    · exact ⟨ids, t, rfl⟩

end Reader

end SceneGraph
