import SceneGraph.Proofs.Document.Totality
import SceneGraph.Proofs.World.SettingUpBeside

/-!
# Reading beside other nodes

A document is read in the same way whatever nodes and scenes there are already: the outcome is that of
reading it into an empty world, with every id as much higher as ids were handed out before, and the nodes
that were there before stay as they were. What this takes is that no node pretends to belong to a scene that
is still to be made.

* `Reader.besides`: readers keep worlds beside each other.
* `Document.read_beside`: reading is separate from the rest of the world.
-/

namespace SceneGraph

namespace World

variable {w₀ w w' : World} {env : Environment} {ids : List NodeId}

/-- A new root is made as any other node is. -/
theorem HasLayouts.createScene (h : w.HasLayouts) (library filename : String) (renders : Bool) (time : Timestamp) :
    ∃ specifications, HasLayouts { w with specifications } ∧
      Scene.create w library filename renders time = ({ root := ⟨w.registry.lastId + 1⟩, time },
        ({ w with specifications }.create Scene.nodeType.layout .grouping
          { library, filename, scene := ⟨w.registry.lastId + 1⟩, renders }).2) := by
  have hlayouts : HasLayouts w.nextId.2 := h
  obtain ⟨specifications, heq, hknown⟩ := hlayouts.specification (t := Scene.nodeType) List.mem_cons_self rfl
  refine ⟨specifications, hknown, ?_⟩
  have heq : w.nextId.2.specification Scene.typeName groupingFields = _ := heq
  unfold Scene.create
  dsimp only
  rw [heq]
  rfl

/-- Calls hand out every id that comes into use, but for the scenes that a host writes into environments. -/
theorem Reachable.issued {types : Catalog} (hr : types.Regular) (htypes : ∀ t ∈ Catalog.withScenes, t ∈ types)
    (hw : Reachable types w) (hscenes : ∀ n ∈ w.nodes, n.environment.scene.value ≤ w.registry.lastId) :
    w.Issued := by
  have hsound := hw.sound hr
  have hrest := hw.atRest hr (htypes _ List.mem_cons_self)
  refine ⟨fun n hn => hrest.ids _ (List.mem_map_of_mem hn), hscenes, hrest.references,
    fun id hid => hrest.ids _ (mem_liveIds.2 (hsound.held id hid)), hrest.names, ?_, fun s hs t ht hname => ?_⟩
  · rw [hrest.idle]
    simp
  obtain ⟨u, hu, rfl⟩ := hsound.table s hs
  have hname : u.name = t.name := hname
  rw [NodeType.layout, NodeType.layout, hr.layouts u hu t (htypes t ht) hname, hname]

namespace Beside

/-- A bare root takes children in the same way. -/
theorem setChildren (h : Beside w₀ env w w') (hroot : BareRoot env w) (hscene : 0 < env.scene.value)
    (hids : ∀ id ∈ ids, 0 < id.value) (hnot : env.scene ∉ ids) (time : Timestamp) :
    ∃ u u', w.setField env.scene childrenField (.nodes ids time) = (.ok (), u) ∧
      w'.setField (w₀.shift env.scene) childrenField (.nodes (ids.map w₀.shift) time) = (.ok (), u') ∧
        Beside w₀ env u u' := by
  have hfree : Scene.nodeType.layout.IsFree :=
    isFree_layout Catalog.regular_withScenes (t := Scene.nodeType) List.mem_cons_self
  have hroot' : w'.node? (env.mapNodes w₀.shift).scene = some (.fresh (env.mapNodes w₀.shift).scene
      Scene.nodeType.layout .grouping (env.mapNodes w₀.shift)) := by
    refine (h.node? hscene).trans ?_
    rw [hroot.node, Option.map_some, Node.fresh_mapNodes _ _ hfree]
    rfl
  have hnot' : (env.mapNodes w₀.shift).scene ∉ ids.map w₀.shift := by
    rw [Environment.mapNodes, List.mem_map_of_injective w₀.shift_injective]
    exact hnot
  have hquiet : (env.scene, childrenField) ∉ w.cascade := by
    rw [h.cascade.1]
    exact List.not_mem_nil
  have hquiet' : ((env.mapNodes w₀.shift).scene, childrenField) ∉ w'.cascade := by
    rw [h.cascade.2]
    exact fun hmem => ne_shift (h.base.cascade _ hmem) hscene rfl
  refine ⟨_, _, setField_root hroot.node hquiet hnot time, setField_root hroot' hquiet' hnot' time, ?_⟩
  have hstored : Beside w₀ env (w.modify env.scene (·.store childrenField (.nodes ids time)))
      (w'.modify (w₀.shift env.scene) (·.store childrenField (.nodes (ids.map w₀.shift) time))) := by
    rw [← Field.mapNodes_nodes]
    refine h.store hscene ?_
    rw [Field.references_nodes]
    exact hids
  exact hstored.journals _ _

/-- A scene has the same nodes, in the same order. -/
theorem sceneNodes (h : Beside w₀ env w w') (s : Scene) (hs : 0 < s.root.value) :
    (s.mapNodes w₀.shift).nodes w' = (s.nodes w).map w₀.shift :=
  h.preorder (fun _ ha => ⟨h.pos_referencesOf, h.referencesOf ha⟩) hs

/-- A scene has the same node under a name. -/
theorem sceneFind? (h : Beside w₀ env w w') {s : Scene} (hs : s.root = env.scene) (hscene : 0 < env.scene.value)
    (name : String) : (s.mapNodes w₀.shift).find? w' name = (s.find? w name).map w₀.shift := by
  have hroot : (s.mapNodes w₀.shift).root = w₀.shift env.scene := congrArg w₀.shift hs
  rw [Scene.find?, hroot, h.findInScene? hscene, Scene.find?, hs, Option.map_map, Option.map_map]
  rfl

end Beside

end World

/-- The context of the same document beside the nodes of a world. -/
def DocumentContext.beside (ctx : DocumentContext) (w₀ : World) : DocumentContext :=
  { ctx with environment := ctx.environment.mapNodes w₀.shift }

namespace Reader

open World (Beside)

variable {ctx : DocumentContext}

/-- **Readers keep worlds beside each other.** -/
theorem besides (w₀ : World) (hcatalog : ∀ t ∈ ctx.catalog, t ∈ Catalog.withScenes) (hlayouts : LaysOut ctx)
    (hscene : 0 < ctx.environment.scene.value) :
    Correspondence ctx (ctx.beside w₀) w₀.shift (fun id => 0 < id.value) (Beside w₀ ctx.environment) where
  file := rfl
  time := rfl
  size := rfl
  stop := rfl
  control := rfl
  enter e h := h.enter e e
  create := by
    intro w w' typeName h
    change ∃ o v v', _ ∧ w'.createOfType ctx.catalog typeName (ctx.environment.mapNodes w₀.shift) = _ ∧ _
    unfold World.createOfType
    split
    · exact ⟨none, w, w', rfl, rfl, h, by simp⟩
    · rename_i t ht
      have hmem := List.mem_of_find?_eq_some ht
      obtain ⟨specifications, specifications', heq, heq', hknown⟩ :=
        h.specification (hcatalog t hmem) (hlayouts t hmem)
      have hfree : t.layout.IsFree := World.isFree_layout Catalog.regular_withScenes (hcatalog t hmem)
      obtain ⟨hid, hmade, hpos⟩ := hknown.create hfree t.behavior
      rw [heq, heq']
      refine ⟨_, _, _, rfl, congrArg Except.ok (Prod.ext (congrArg some hid) rfl), hmade, ?_⟩
      exact fun r hr => Option.some.inj hr ▸ hpos
  node := by
    intro w w' id h hid
    rw [h.node? hid]
    cases w.node? id with
    | none => exact .none
    | some n => exact .some (n.matches_mapNodes _)
  find := by
    intro w w' name h
    change Option.Rel _ _ (w'.findInScene? name (w₀.shift ctx.environment.scene))
    rw [h.findInScene? hscene]
    cases hn : w.findInScene? name ctx.environment.scene with
    | none => exact .none
    | some n => exact .some ⟨n.matches_mapNodes _, (h.own_of_mem_named (List.mem_of_find?_eq_some hn)).id⟩
  hold h _ := h.hold _
  setName name h hid := h.setName hid name
  initField name _ h hid hvalue := h.initField hid name hvalue
  addField name k h hid := h.addField hid name k
  connect output input h hid _ := h.addConnection hid output ⟨_, input⟩
  discard h hid := h.discard hid
  dropAll h hids := h.dropAll hids

end Reader

namespace Document

open Reader (exec EndsAlike LaysOut Twin)
open World (Beside)

variable {d : Document} {w₀ : World}

/-- The two scenes start out beside each other. -/
theorem twin_start (hw : w₀.Issued) (d : Document) (header : Header) :
    Twin (Beside w₀ (d.context header {}).environment) (d.context header {}) (d.context header w₀)
      (d.start header {}) (d.start header w₀) := by
  have hbeside := Beside.start hw (d.context header {}).environment
  have hfree : Scene.nodeType.layout.IsFree :=
    World.isFree_layout Catalog.regular_withScenes (t := Scene.nodeType) List.mem_cons_self
  obtain ⟨specifications, hknown, hcreate⟩ := hbeside.layouts.1.createScene d.library d.file d.renders
    (if d.time.isUnset then d.now else d.time)
  obtain ⟨specifications', hknown', hcreate'⟩ := hw.layouts.createScene d.library d.file d.renders
    (if d.time.isUnset then d.now else d.time)
  have hlearned : Beside w₀ (d.context header {}).environment { ({} : World) with specifications }
      { w₀ with specifications := specifications' } := { hbeside with layouts := ⟨hknown, hknown'⟩ }
  obtain ⟨-, hmade, -⟩ := hlearned.create hfree .grouping
  refine ⟨rfl, rfl, rfl, rfl, rfl, rfl, ?_, ?_⟩
  · exact (congrArg Prod.fst hcreate').trans rfl
  · have hworld : (d.start header {}).world = _ := congrArg Prod.snd hcreate
    have hworld' : (d.start header w₀).world = _ := congrArg Prod.snd hcreate'
    rw [hworld, hworld']
    exact hmade

/-- The two documents are read in the same way. -/
theorem endsAlike_document (header : Header) (hw : w₀.Issued) (hcatalog : d.catalog = Catalog.standard) :
    EndsAlike (Beside w₀ (d.context header {}).environment) (d.context header {}) (d.context header w₀)
      (d.start header {}).lexemes.length 0 (fun _ _ => True)
      (exec (Reader.document (d.context header {})) (d.start header {}))
      (exec (Reader.document (d.context header w₀)) (d.start header w₀)) := by
  have hwell : ∀ t ∈ d.catalog, t.WellFormed := hcatalog ▸ wellFormed_standard
  have hlayouts : LaysOut (d.context header {}) := fun t ht => (hwell t ht).distinct
  have hscene : 0 < (d.context header {}).environment.scene.value := Nat.one_pos
  have hknown : ∀ t ∈ (d.context header {}).catalog, t ∈ Catalog.withScenes := by
    intro t ht
    exact List.mem_cons_of_mem _ (hcatalog ▸ ht)
  have C := Reader.besides w₀ hknown hlayouts hscene
  have hstart := twin_start hw d header
  have hnone : ∀ r ∈ ([] : List NodeId), 0 < r.value := by simp
  have hstatements := C.statements ((d.start header {}).lexemes.length + 1) hnone _ _ hstart (Nat.lt_succ_self _)
  change EndsAlike _ _ (d.context header w₀) _ _ _ _ (exec (Reader.statements (d.context header w₀) _ []) _)
    at hstatements
  cases h : exec (Reader.statements (d.context header {}) ((d.start header {}).lexemes.length + 1) [])
      (d.start header {}) with
  | mk r t =>
  cases h' : exec (Reader.statements (d.context header w₀) ((d.start header {}).lexemes.length + 1) [])
      (d.start header w₀) with
  | mk r' t' =>
  rw [h, h'] at hstatements
  rw [← hstart.lexemes] at h'
  obtain e | ids := r <;> obtain e' | ids' := r'
  · rw [Reader.exec_document_error h, Reader.exec_document_error h']
    exact ⟨hstatements.1.change (hstatements.1.world.drop hscene), hstatements.2⟩
  · exact hstatements.elim
  · exact hstatements.elim
  obtain ⟨htwin, ⟨rfl, hids⟩, hle⟩ := hstatements
  -- no statement touches the root, so it takes its children bare
  obtain ⟨hroot, hsame, hnot⟩ := bareRoot_statements World.AtRest.empty hwell h
  obtain ⟨u, u', hset, hset', hchildren⟩ := htwin.world.setChildren hroot hscene hids hnot t.scene.time
  have hsetChildren : t.scene.setChildren t.world ids = (.ok (), u) := by
    rw [Scene.setChildren, hsame, hset]
  have hsetChildren' : t'.scene.setChildren t'.world (ids.map w₀.shift) = (.ok (), u') := by
    rw [Scene.setChildren, htwin.scene]
    exact hset'
  have hsetUp : Beside w₀ (d.context header {}).environment (t.scene.setUp (u.dropAll ids))
      (t'.scene.setUp (u'.dropAll (ids.map w₀.shift))) := by
    rw [Scene.setUp, Scene.setUp, hsame, htwin.scene]
    exact (hchildren.dropAll hids).initializeNode hscene t.scene.time
  rw [Reader.exec_document_ok h hsetChildren, Reader.exec_document_ok h' hsetChildren']
  have hprogress : (if (d.context header w₀).control.watched then 1 else t'.progress) =
      if (d.context header {}).control.watched then 1 else t.progress :=
    congrArg (fun progress => if (d.context header {}).control.watched then 1 else progress) htwin.progress
  exact ⟨{ htwin.change (hsetUp.enter _ _) with progress := hprogress }, trivial, hle⟩

/-- The environment of the scene that a document becomes in an empty world. -/
def environment (d : Document) : Environment :=
  { library := d.library, filename := d.file, scene := ⟨1⟩, renders := d.renders }

/-- **Reading goes on in the same way** beside other nodes. -/
theorem beside_read (hw : w₀.Issued) (hcatalog : d.catalog = Catalog.standard) :
    Beside w₀ d.environment (d.read {}).world (d.read w₀).world ∧
      (d.read w₀).result = (d.read {}).result.map (·.mapNodes w₀.shift) ∧
      (d.read w₀).progress = (d.read {}).progress ∧ (d.read w₀).checkpoints = (d.read {}).checkpoints ∧
      ∀ scene, (d.read {}).result = .ok scene → scene.root = d.environment.scene := by
  cases hheader : d.header with
  | error e =>
    rw [read_of_error {} hheader, read_of_error w₀ hheader]
    exact ⟨.start hw _, rfl, rfl, rfl, fun _ h => by cases h⟩
  | ok header =>
    have hends := endsAlike_document header hw hcatalog
    rw [read_outcome {} hheader, read_outcome w₀ hheader]
    generalize exec (Reader.document (d.context header {})) (d.start header {}) = r at hends ⊢
    generalize exec (Reader.document (d.context header w₀)) (d.start header w₀) = r' at hends ⊢
    obtain ⟨e | _, t⟩ := r <;> obtain ⟨e' | _, t'⟩ := r'
    · obtain ⟨htwin, rfl, -⟩ := hends
      exact ⟨htwin.world, rfl, htwin.progress, congrArg List.reverse htwin.checkpoints, fun _ h => by cases h⟩
    · exact hends.elim
    · exact hends.elim
    · obtain ⟨htwin, -⟩ := hends
      refine ⟨htwin.world, ?_, htwin.progress, congrArg List.reverse htwin.checkpoints, ?_⟩
      · have hshift : (d.context header w₀).environment.scene = w₀.shift t.scene.root := by
          rw [htwin.root]
          rfl
        exact congrArg Except.ok (htwin.scene.trans (congrArg (fun root => { t.scene with root }) hshift))
      · intro scene h
        rw [← Except.ok.inj h]
        exact htwin.root

/-- **Reading is separate from the rest of the world.** Every id that is in use was handed out, also those
of the scenes that nodes belong to. Then a document is read as it is read into an empty world, but for its
ids, which are as much higher as ids were handed out before: it fails with the same error, or becomes a scene
of the same nodes, each with the same name, fields, parents, routes and so on. Whatever was there before stays
as it was, and so does what goes by a name in every other scene. -/
theorem read_beside (hw : w₀.Issued) (hcatalog : d.catalog = Catalog.standard) :
    (d.read w₀).result = (d.read {}).result.map (·.mapNodes w₀.shift) ∧
    (d.read w₀).progress = (d.read {}).progress ∧ (d.read w₀).checkpoints = (d.read {}).checkpoints ∧
    (d.read w₀).world.nodes = w₀.nodes ++ (d.read {}).world.nodes.map (·.mapNodes w₀.shift) ∧
    (d.read w₀).world.registry.names =
      w₀.registry.names ++ (d.read {}).world.registry.names.map (fun e => (e.1, w₀.shift e.2)) ∧
    (d.read w₀).world.registry.lastId = w₀.registry.lastId + (d.read {}).world.registry.lastId ∧
    (d.read w₀).world.held = (d.read {}).world.held.map w₀.shift ++ w₀.held ∧
    (∀ scene, (d.read {}).result = .ok scene →
      (scene.mapNodes w₀.shift).nodes (d.read w₀).world = (scene.nodes (d.read {}).world).map w₀.shift ∧
      ∀ name, (scene.mapNodes w₀.shift).find? (d.read w₀).world name =
        (scene.find? (d.read {}).world name).map w₀.shift) ∧
    (∀ id : NodeId, 0 < id.value →
      (d.read w₀).world.node? (w₀.shift id) = ((d.read {}).world.node? id).map (·.mapNodes w₀.shift)) ∧
    (∀ id : NodeId, id.value ≤ w₀.registry.lastId → (d.read w₀).world.node? id = w₀.node? id) ∧
    ∀ name scene, scene ≠ w₀.shift ⟨1⟩ →
      (d.read w₀).world.findInScene? name scene = w₀.findInScene? name scene := by
  obtain ⟨hbeside, hresult, hprogress, hcheckpoints, hroot⟩ := beside_read hw hcatalog
  refine ⟨hresult, hprogress, hcheckpoints, hbeside.nodes, hbeside.names, hbeside.lastId, hbeside.held,
    fun scene hscene => ?_, fun _ hid => hbeside.node? hid, fun _ hid => hbeside.node?_old hid,
    fun name _ hscene => hbeside.findInScene?_other hscene name⟩
  have hone := hroot scene hscene
  have hpos : 0 < d.environment.scene.value := Nat.one_pos
  exact ⟨hbeside.sceneNodes scene (hone ▸ hpos), fun name => hbeside.sceneFind? hone hpos name⟩

/-- A document with two groups, the second of which uses whatever goes by a name. -/
def borrowing : Document where
  text := "#VRML V2.0 utf8\nGroup \x7b \x7d\nGroup \x7b children [ USE A ] \x7d\n"
  file := "borrowing.wrl"
  check := .any
  catalog := Catalog.standard
  time := .unset
  now := .unset

/-- A scene, and a group of that name, whose environment tells of some scene. -/
def lender (scene : NodeId) : World :=
  (World.Call.setName ⟨2⟩ "A").run ((World.Call.create Catalog.standard "Group" { scene }).run
    ((World.Call.createScene "" "" false .unset).run {}))

theorem reachable_lender (scene : NodeId) : World.Reachable Catalog.withScenes (lender scene) :=
  .call (.call (.call .empty List.mem_cons_self) fun _ => List.mem_cons_of_mem _) trivial

/-- Beside a group of another scene the document is read as it is into an empty world. -/
theorem read_beside_lender : (lender ⟨1⟩).Issued ∧
    (borrowing.read (lender ⟨1⟩)).result = (borrowing.read {}).result.map (·.mapNodes (lender ⟨1⟩).shift) ∧
    (borrowing.read (lender ⟨1⟩)).world.nodes =
      (lender ⟨1⟩).nodes ++ (borrowing.read {}).world.nodes.map (·.mapNodes (lender ⟨1⟩).shift) := by
  have hissued : (lender ⟨1⟩).Issued := by
    refine (reachable_lender ⟨1⟩).issued Catalog.regular_withScenes (fun _ ht => ht) ?_
    decide +kernel
  obtain ⟨hresult, -, -, hnodes, -⟩ := read_beside (d := borrowing) hissued rfl
  exact ⟨hissued, hresult, hnodes⟩

/-- A group that pretends to belong to the scene to come is used by the document, which counts a parent of it.
So is the first group of the document itself under a name that was entered for its id before it was made. -/
theorem read_beside_pretender : World.Reachable Catalog.withScenes (lender ⟨3⟩) ∧
    ((borrowing.read (lender ⟨3⟩)).world.node? ((lender ⟨3⟩).shift ⟨3⟩)).map Node.references ≠
      (((borrowing.read {}).world.node? ⟨3⟩).map (·.mapNodes (lender ⟨3⟩).shift)).map Node.references ∧
    ((borrowing.read (lender ⟨3⟩)).world.node? ⟨2⟩).map Node.parents ≠
      ((lender ⟨3⟩).node? ⟨2⟩).map Node.parents ∧
    ((borrowing.read (World.renameEntry {} ⟨2⟩ "" "A")).world.node? ⟨3⟩).map Node.references ≠
      ((borrowing.read {}).world.node? ⟨3⟩).map Node.references := by
  refine ⟨reachable_lender ⟨3⟩, ?_, ?_, ?_⟩
  · decide +kernel
  · decide +kernel
  · decide +kernel

end Document

end SceneGraph
