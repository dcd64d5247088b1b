import SceneGraph.Proofs.World.Marks
import SceneGraph.Proofs.World.Progress

/-!
# Reachable worlds

A world is `Reachable` if it comes out of the empty world by calls (`Call`), each of them made as a host
may make it (`Call.Allowed`): nodes that a value refers to are held, and fields are filled in and nodes
given up only as long as nodes are not set up.

* `Call.leads`: every call is a sequence of changes.
* `Reachable.sound`: reachable worlds are sound.
* `Reachable.induction`: what holds of the empty world and survives every change of a sound world holds
  of every reachable world.
-/

namespace SceneGraph

namespace World

variable {types : Catalog} {w w' : World} {n : Node} {name : String} {value : Field}

/-! ### Setting nodes up -/

theorem kept_adoptChildren (w : World) (id : NodeId) :
    (w.adoptChildren id).2.held = w.held ∧ (w.adoptChildren id).2.cascade = w.cascade := by
  obtain ⟨-, hquiet⟩ := accept_spec w id (w.children id)
  have hclaim : ∀ (v : World) (l : List NodeId),
      Reparents (fun c ps => (Node.addParent id)^[l.count c] ps) v
        (l.foldl (fun w c => w.addParent c id) v) :=
    .foldl fun w c => .modify w c _
  unfold adoptChildren
  dsimp only
  split
  · have hstore := fun old new time after =>
      kept_storeChildren (w.accept id (w.children id)).2.2 id old new time after
    exact ⟨(hclaim _ _).held.trans ((hstore _ _ _ _).1.trans hquiet.held),
      (hclaim _ _).cascade.trans ((hstore _ _ _ _).2.trans hquiet.cascade)⟩
  · exact ⟨(hclaim _ _).held.trans hquiet.held, (hclaim _ _).cascade.trans hquiet.cascade⟩

/-- What a behaviour claims sends nothing out. -/
theorem emitted_adopt (w : World) (n : Node) : (w.adopt n).1.emitted = [] := by
  obtain ⟨-, heq⟩ | ⟨-, heq | heq⟩ := adopt_cases w n <;> rw [heq]
  · unfold adoptChildren
    dsimp only
    split
    · rw [storeChildren_fst]
      rfl
    · rfl

theorem node?_mark (w : World) (id : NodeId) :
    (w.mark id).node? id = (w.node? id).map fun n => { n with initialized := true } :=
  node?_modify_self w id (f := fun n => { n with initialized := true }) fun _ => rfl

/-- A node is marked and claims what is its own, and it stays marked. -/
theorem proceeds_runAdopt (hr : types.Regular) (hs : Sound types w) (hn : w.node? n.id = some n)
    (hi : n.initialized = false) :
    Proceeds types w ((w.mark n.id).runAdopt n.id) ∧ Marked n.id ((w.mark n.id).runAdopt n.id) := by
  have hmark : (w.mark n.id).node? n.id = some { n with initialized := true } := by
    rw [node?_mark, hn]; rfl
  have hmarked : Marked n.id (w.mark n.id) := by
    refine ⟨hs.issued n.id (mem_liveIds.2 (isLive_of_node? hn)), fun m hm => ?_⟩
    exact Option.some.inj (hmark.symm.trans hm) ▸ rfl
  have hsettled : ∀ m after v depth, Proceeds types w v → Persists (w.mark n.id) v →
      Proceeds types w (settle (deliverUpTo depth) m after v) ∧
        Marked n.id (settle (deliverUpTo depth) m after v) := by
    intro m after v depth h hv
    have hrest : Proceeds types v (settle (deliverUpTo depth) m after v) :=
      proceeds_settle hr (hs.leads hr h.leads) depth m after
    exact ⟨h.trans hrest, hrest.leads.marked (hv.marked hmarked)⟩
  have hbegun : Persists (w.mark n.id) ((w.mark n.id).step (.adopting n.id)) := .of_nodes rfl rfl
  unfold runAdopt
  rw [hmark]
  dsimp only
  obtain ⟨hb, heq⟩ | ⟨hb, heq⟩ :=
    adopt_cases ((w.mark n.id).step (.adopting n.id)) { n with initialized := true }
  · rw [heq]
    have h : Proceeds types w (((w.mark n.id).step (.adopting n.id)).adoptChildren n.id).2 := by
      obtain ⟨hheld, hcascade⟩ := kept_adoptChildren ((w.mark n.id).step (.adopting n.id)) n.id
      exact .of_change (.adopted w n hn hb hi) hheld hcascade
    exact hsettled _ _ _ _ h (hbegun.trans (.adoptChildren _ n.id))
  · have h : Proceeds types w ((w.mark n.id).step (.adopting n.id)) :=
      (Proceeds.of_change (.marked w n hn hb) rfl rfl).trans (.enter _ rfl)
    obtain heq | heq := heq <;> rw [heq]
    · exact hsettled _ _ _ _ h hbegun
    · have h' := h.trans (.enter _ (e := .event (.adopted n.id n.name)) rfl)
      exact hsettled _ _ _ _ h' (hbegun.trans (.of_nodes rfl rfl))

theorem kept_runSetUp (w : World) (id : NodeId) (time : Timestamp) :
    (w.runSetUp id time).held = w.held ∧ (w.runSetUp id time).cascade = w.cascade :=
  runSetUp_induction (I := fun v => v.held = w.held ∧ v.cascade = w.cascade) id time (fun _ hv => hv)
    (fun _ hv => hv) (fun _ _ hv => hv) (fun _ _ hv => hv) ⟨rfl, rfl⟩

/-- The set-up of a node is finished only after the node was marked. -/
theorem proceeds_runSetUp {id : NodeId} (time : Timestamp)
    (hset : Marked id w) : Proceeds types w (w.runSetUp id time) :=
  .of_change (.finished w id time hset.2) (kept_runSetUp w id time).1 (kept_runSetUp w id time).2

theorem Sound.referencesOf (hs : Sound types w) (id : NodeId) :
    ∀ r ∈ w.referencesOf id, w.isLive r = true := by
  intro r hr
  unfold World.referencesOf at hr
  cases hn : w.node? id with
  | none => rw [hn] at hr; cases hr
  | some n =>
    rw [hn] at hr
    exact hs.references r (references_subset_of_mem (mem_nodes_of_node? hn) hr)

theorem proceeds_forReferences (hr : types.Regular) {act : World → NodeId → World}
    (hact : ∀ w id, Sound types w → Proceeds types w (act w id)) (hs : Sound types w) (id : NodeId) :
    Proceeds types w (w.forReferences id act) :=
  have hlive := hs.referencesOf id
  .holding hlive (.foldl_sound hr (fun w id hs _ => hact w id hs) (hs.change hr (.held w _ hlive)) rfl _)

/-- Setting nodes up goes on as a run does, by induction on how deep it may go. -/
theorem proceeds_initializeUpTo (hr : types.Regular) (time : Timestamp) (depth : Nat)
    (hs : Sound types w) (id : NodeId) : Proceeds types w (initializeUpTo time depth w id) := by
  induction depth generalizing w id with
  | zero => exact .refl types w
  | succ depth ih =>
    unfold initializeUpTo
    split
    · exact .refl types w
    rename_i n hn
    obtain rfl := id_of_node? hn
    split
    · exact .refl types w
    rename_i hi
    obtain ⟨hadopt, hmarked⟩ := proceeds_runAdopt hr hs hn (by simpa using hi)
    have hs' := hs.leads hr hadopt.leads
    have hrefs := proceeds_forReferences hr (fun w id hs => ih hs id) hs' n.id
    exact (hadopt.trans hrefs).trans (proceeds_runSetUp time (hrefs.leads.marked hmarked))

theorem proceeds_initializeNode (hr : types.Regular) (hs : Sound types w) (id : NodeId)
    (time : Timestamp) : Proceeds types w (w.initializeNode id time) :=
  proceeds_initializeUpTo hr time _ hs id

theorem proceeds_reinitializeNode (hr : types.Regular) (hs : Sound types w) (id : NodeId)
    (time : Timestamp) : Proceeds types w (w.reinitializeNode id time) := by
  unfold reinitializeNode
  split
  · rename_i hset
    obtain ⟨n, hn, hi⟩ := (Option.any_eq_true _ _).1 hset
    have hrefs := proceeds_forReferences hr (fun w id hs => proceeds_initializeNode hr hs id time) hs id
    have hmarked : Marked id w := by
      refine ⟨hs.issued id (mem_liveIds.2 (isLive_of_node? hn)), fun m hm => ?_⟩
      rwa [Option.some.inj (hm.symm.trans hn)]
    exact hrefs.trans (proceeds_runSetUp time (hrefs.leads.marked hmarked))
  · exact proceeds_initializeNode hr hs id time

/-! ### Fields of a node's own, routes, giving up -/

theorem proceeds_addField {id : NodeId} (hlive : ∀ r ∈ value.references, w.isLive r = true) :
    Proceeds types w (w.addField id name value).2 := by
  obtain ⟨-, heq⟩ | ⟨e, heq⟩ | ⟨n, hn, hdynamic, hnew, heq⟩ := addField_cases w id name value <;> rw [heq]
  · exact .refl types w
  · exact .refl types w
  · obtain rfl := id_of_node? hn
    exact .of_change (.extended w n name value hn hdynamic hnew hlive) rfl rfl

theorem proceeds_removeField (types : Catalog) (w : World) (id : NodeId) (name : String) :
    Proceeds types w (w.removeField id name).2 := by
  obtain ⟨-, heq⟩ | ⟨e, heq⟩ | ⟨n, old, -, -, heq⟩ := removeField_cases w id name <;> rw [heq]
  · exact .refl types w
  · exact .refl types w
  · exact (Proceeds.of_change (.reduced w id name) rfl rfl).trans (proceeds_release types _ _)

theorem proceeds_addConnection (types : Catalog) (w : World) (id : NodeId) (output : String)
    (route : Route) : Proceeds types w (w.addConnection id output route).2 := by
  unfold addConnection
  split
  · exact .of_change (.connected w id output route) rfl rfl
  · exact .refl types w

theorem proceeds_removeConnection (types : Catalog) (w : World) (id : NodeId) (output : String)
    (route : Route) : Proceeds types w (w.removeConnection id output route).2 := by
  unfold removeConnection
  split
  · exact .of_change (.disconnected w id output route) rfl rfl
  · exact .refl types w

theorem proceeds_setName (types : Catalog) (w : World) (id : NodeId) (name : String) :
    Proceeds types w (w.setName id name) := by
  refine .of_change (.named w id name) ?_ ?_ <;>
    obtain ⟨heq, -⟩ | ⟨n, -, -, heq⟩ := setName_cases w id name <;> rw [heq] <;> rfl

theorem proceeds_discard (hn : w.node? n.id = some n) (hi : n.initialized = false) :
    Proceeds types w (w.discard n.id) := by
  have hname : ∃ m, (w.setName n.id "").node? n.id = some m ∧ m.id = n.id ∧ m.initialized = false := by
    obtain ⟨heq, -⟩ | ⟨k, -, -, heq⟩ := setName_cases w n.id "" <;> rw [heq]
    · exact ⟨n, hn, rfl, hi⟩
    · refine ⟨{ n with name := "" }, ?_, rfl, hi⟩
      have h := node?_modify_self w n.id (f := fun n => { n with name := "" }) fun _ => rfl
      exact h.trans (by rw [hn]; rfl)
  obtain ⟨m, hm, hid, hmi⟩ := hname
  unfold discard
  refine (proceeds_setName types w n.id "").trans (.trans ?_ (proceeds_release types _ _))
  rw [← hid] at hm ⊢
  exact .of_change (.forgotten _ m hm hmi) rfl rfl

/-! ### Making nodes -/

/-- What the table of layouts answers is the layout of the type. -/
theorem leads_specification (hr : types.Regular) (hs : Sound types w) {t : NodeType} (ht : t ∈ types)
    {spec : Specification} (h : w.specification t.name t.fields = .ok (spec, w')) :
    spec = t.layout ∧ Leads types w w' ∧ w'.liveIds = w.liveIds ∧ w'.registry = w.registry := by
  obtain ⟨rfl, hknown, hname⟩ | ⟨-, rfl, rfl⟩ := specification_cases h
  · obtain ⟨u, hu, rfl⟩ := hs.table spec hknown
    have hname : u.name = t.name := hname
    refine ⟨?_, .refl, rfl, rfl⟩
    rw [NodeType.layout, NodeType.layout, hname, hr.layouts u hu t ht hname]
  · exact ⟨rfl, .single (.learned w t ht), rfl, rfl⟩

theorem leads_createOfType (hr : types.Regular) (hs : Sound types w) {catalog : Catalog}
    (hc : ∀ t ∈ catalog, t ∈ types) {typeName : String} {environment : Environment}
    {id : Option NodeId} (h : w.createOfType catalog typeName environment = .ok (id, w')) :
    Leads types w w' := by
  obtain ⟨-, rfl⟩ | ⟨t, ht, spec, w₁, hspec, -, rfl⟩ := createOfType_cases h
  · exact .refl
  · obtain ⟨rfl, hleads, -, -⟩ := leads_specification hr hs (hc t ht) hspec
    exact .tail hleads (.created w₁ t environment (hc t ht))

/-- The table of layouts does not know of ids. -/
theorem specification_nextId (w : World) (typeName : String) (fields : List FieldSpec) :
    w.nextId.2.specification typeName fields =
      (w.specification typeName fields).map fun r => (r.1, { r.2 with registry := w.nextId.2.registry }) := by
  have hsame : w.nextId.2.specifications = w.specifications := rfl
  unfold specification
  rw [hsame]
  cases w.specifications.find? (·.typeName == typeName) with
  | some s => rfl
  | none => cases Specification.ofFields typeName fields <;> rfl

theorem leads_createScene (hr : types.Regular) (hs : Sound types w) (ht : Scene.nodeType ∈ types)
    (library filename : String) (renders : Bool) (time : Timestamp) :
    Leads types w (Scene.create w library filename renders time).2 := by
  unfold Scene.create
  dsimp only
  rw [specification_nextId]
  -- the layout may as well be looked up before the id is issued
  cases hspec : w.specification Scene.typeName groupingFields with
  | ok r =>
    obtain ⟨spec, w₁⟩ := r
    obtain ⟨rfl, hleads, -, hregistry⟩ := leads_specification hr hs ht hspec
    have hnext : w₁.nextId = (w.nextId.1, { w₁ with registry := w.nextId.2.registry }) := by
      rw [nextId, hregistry]
      rfl
    have hcreated := Change.created w₁ Scene.nodeType
      { library, filename, scene := w.nextId.1, renders } ht
    rw [World.create, hnext] at hcreated
    exact .tail hleads hcreated
  | error e => exact .single (.created w Scene.nodeType _ ht)

/-! ### Sensors -/

theorem proceeds_emitOutput (hr : types.Regular) (hs : Sound types w) (n : Node)
    (hname : name ≠ childrenField) (hv : value.references = []) :
    Proceeds types w (w.emitOutput n name value) := by
  have h : Proceeds types w (w.emitField n.id name value).2 :=
    proceeds_emitField hr hs (by simp [hv]) (.of_ne hname)
  unfold emitOutput
  split <;> (rename_i heq; rw [heq] at h)
  · exact h
  · exact h.trans (.enter _ rfl)

theorem references_single {t : FieldType} (ht : t ≠ .node) (v : t.Carrier) (time : Timestamp) :
    (Field.single t v time).references = [] := Field.references_eq_nil ht

/-- What survives warnings and outputs of a timer survives its update. -/
theorem updateTimer_induction {I : World → Prop} (n : Node) (time : Timestamp)
    (hwarn : ∀ w text, I w → I (w.log .warn text))
    (hemit : ∀ w name value, name ≠ childrenField → value.references = [] → I w → I (w.emitOutput n name value))
    (hI : I w) : I (w.updateTimer n time) := by
  have hboolean : ∀ (name : String) (b : Bool) (w : World), name ≠ childrenField → I w →
      I (w.emitOutput n name (.single .boolean b time)) := fun name b w hname hw =>
    hemit w name _ hname (references_single (by decide) _ _) hw
  have hfraction : ∀ (f : Float32) (w : World), I w →
      I (w.emitOutput n "fraction_changed" (.single .float f time)) := fun f w hw =>
    hemit w _ _ (by decide) (references_single (by decide) _ _) hw
  unfold updateTimer
  split
  · exact hI
  split
  · exact hwarn w _ hI
  dsimp only
  split
  · exact hI
  · refine hemit _ _ _ (by decide) (references_single (by decide) _ _) (hfraction _ _ ?_)
    split
    · exact hI
    · exact hboolean _ _ _ (by decide) hI
  · split
    · exact hboolean _ _ _ (by decide) (hfraction _ _ hI)
    · exact hI

theorem proceeds_updateTimer (hr : types.Regular) (hs : Sound types w) (n : Node) (time : Timestamp) :
    Proceeds types w (w.updateTimer n time) :=
  updateTimer_induction (I := Proceeds types w) n time (fun _ _ h => h.trans (.enter _ rfl))
    (fun _ _ _ hname hv h => h.trans (proceeds_emitOutput hr (hs.leads hr h.leads) n hname hv)) (.refl types w)

theorem proceeds_update (hr : types.Regular) (hs : Sound types w) (id : NodeId) (time : Timestamp) :
    Proceeds types w (w.update id time) := by
  unfold update
  split
  · exact .refl types w
  rename_i n hn
  have h : Proceeds types w (w.step (.updating id)) := .enter w rfl
  dsimp only
  split
  · exact h.trans (proceeds_updateTimer hr (hs.leads hr h.leads) n time)
  · have h' := h.trans (.enter _ (e := .event (.updated id time)) rfl)
    exact h'.trans (proceeds_emitField hr (hs.leads hr h'.leads)
      (by simp [references_single]) (.of_ne (by decide)))
  · exact h

/-- What survives outputs of a touch sensor survives what it does with an event. -/
theorem touch_induction {I : World → Prop} (n : Node) (e : MouseEvent) (now : Timestamp)
    (hemit : ∀ w name value, name ≠ childrenField → value.references = [] → I w → I (w.emitOutput n name value))
    (hI : I w) : I (w.touch n e now).2 := by
  have hactive : ∀ b time, I (w.emitOutput n "isActive" (.single .boolean b time)) := fun b time =>
    hemit w _ _ (by decide) (references_single (by decide) _ _) hI
  unfold touch
  split
  · exact hI
  dsimp only
  split
  · split
    · exact hactive _ _
    · exact hI
  · split
    · dsimp only
      split
      · exact hemit _ _ _ (by decide) (references_single (by decide) _ _) (hactive _ _)
      · exact hactive _ _
    · exact hI
  · exact hI

theorem proceeds_touch (hr : types.Regular) (hs : Sound types w) (n : Node) (e : MouseEvent)
    (now : Timestamp) : Proceeds types w (w.touch n e now).2 :=
  touch_induction (I := Proceeds types w) n e now
    (fun _ _ _ hname hv h => h.trans (proceeds_emitOutput hr (hs.leads hr h.leads) n hname hv)) (.refl types w)

theorem proceeds_mouseEvent (hr : types.Regular) (hs : Sound types w) (id : NodeId) (e : MouseEvent)
    (now : Timestamp) : Proceeds types w (w.mouseEvent id e now).2 := by
  unfold mouseEvent
  split
  · exact .refl types w
  rename_i n hn
  have h : Proceeds types w (w.step (.offeringInput id)) := .enter w rfl
  dsimp only
  split
  · exact h.trans (proceeds_touch hr (hs.leads hr h.leads) n e now)
  · exact h.trans (.enter _ rfl)
  · exact h

theorem proceeds_keyEvent (types : Catalog) (w : World) (id : NodeId) (e : KeyEvent) :
    Proceeds types w (w.keyEvent id e).2 := by
  unfold keyEvent
  split
  · exact .refl types w
  have h : Proceeds types w (w.step (.offeringInput id)) := .enter w rfl
  dsimp only
  split
  · exact h.trans (.enter _ rfl)
  · exact h

/-! ### Calls -/

/-- What a host can do with a world. -/
inductive Call where
  | create (catalog : Catalog) (typeName : String) (environment : Environment)
  | createScene (library filename : String) (renders : Bool) (time : Timestamp)
  /-- Takes a handle of a node that is found. -/
  | hold (id : NodeId)
  | drop (id : NodeId)
  | setName (id : NodeId) (name : String)
  | setField (id : NodeId) (name : String) (value : Field)
  | emitField (id : NodeId) (name : String) (value : Field)
  | initField (id : NodeId) (name : String) (value : Field)
  | addField (id : NodeId) (name : String) (value : Field)
  | removeField (id : NodeId) (name : String)
  | addConnection (id : NodeId) (output : String) (route : Route)
  | removeConnection (id : NodeId) (output : String) (route : Route)
  /-- Sets a node up. -/
  | setUp (id : NodeId) (time : Timestamp)
  /-- Sets a node up once more. -/
  | setUpAgain (id : NodeId) (time : Timestamp)
  | discard (id : NodeId)
  | update (id : NodeId) (time : Timestamp)
  | mouse (id : NodeId) (e : MouseEvent) (now : Timestamp)
  | key (id : NodeId) (e : KeyEvent)

namespace Call

/-- What becomes of a world. -/
def run : Call → World → World
  | create catalog typeName environment, w =>
    match w.createOfType catalog typeName environment with
    | .ok (_, w) => w
    | .error _ => w
  | createScene library filename renders time, w => (Scene.create w library filename renders time).2
  | hold id, w => w.hold id
  | drop id, w => w.drop id
  | setName id name, w => w.setName id name
  | setField id name value, w => (w.setField id name value).2
  | emitField id name value, w => (w.emitField id name value).2
  | initField id name value, w => (w.initField id name value).2
  | addField id name value, w => (w.addField id name value).2
  | removeField id name, w => (w.removeField id name).2
  | addConnection id output route, w => (w.addConnection id output route).2
  | removeConnection id output route, w => (w.removeConnection id output route).2
  | setUp id time, w => w.initializeNode id time
  | setUpAgain id time, w => w.reinitializeNode id time
  | discard id, w => w.discard id
  | update id time, w => w.update id time
  | mouse id e now, w => (w.mouseEvent id e now).2
  | key id e, w => (w.keyEvent id e).2

/-- A live node that is not set up. -/
def Fresh (w : World) (id : NodeId) : Prop := ∃ n, w.node? id = some n ∧ n.initialized = false

/-- How a host makes its calls: it makes nodes of the given types, holds the nodes that it hands over,
fills in and gives up only nodes that are not set up, and leaves the children of a node to its
behaviour. -/
def Allowed (types : Catalog) (w : World) : Call → Prop
  | create catalog _ _ => ∀ t ∈ catalog, t ∈ types
  | createScene .. => Scene.nodeType ∈ types
  | hold id => w.isLive id = true
  | drop id => id ∈ w.held
  | setField _ _ value => value.references ⊆ w.held
  | emitField _ name value => value.references ⊆ w.held ∧ name ≠ childrenField
  | initField id _ value => value.references ⊆ w.held ∧ Fresh w id
  | addField _ _ value => value.references ⊆ w.held
  | discard id => Fresh w id
  | _ => True

/-- **Every call is a sequence of changes.** -/
theorem leads (hr : types.Regular) (hs : Sound types w) {c : Call} (h : c.Allowed types w) :
    Leads types w (c.run w) := by
  cases c with
  | create catalog typeName environment =>
    unfold run
    dsimp only
    split
    · rename_i hcreate
      exact leads_createOfType hr hs h hcreate
    · exact .refl
  | createScene library filename renders time => exact leads_createScene hr hs h _ _ _ _
  | hold id => exact .single (.held w [id] fun r hr => List.mem_singleton.1 hr ▸ h)
  | drop id =>
    exact .trans (.single (.unheld w [id])) (proceeds_release types [id] _).leads
  | setName id name => exact (proceeds_setName types w id name).leads
  | setField id name value => exact (proceeds_setField hr hs h).leads
  | emitField id name value => exact (proceeds_emitField hr hs h.1 (.of_ne h.2)).leads
  | initField id name value =>
    obtain ⟨hv, n, hn, hi⟩ := h
    refine (proceeds_initField hs hv fun m hm _ hset => ?_).leads
    obtain rfl : n = m := Option.some.inj (hn.symm.trans hm)
    rw [hi] at hset
    cases hset
  | addField id name value => exact (proceeds_addField (hs.of_held h)).leads
  | removeField id name => exact (proceeds_removeField types w id name).leads
  | addConnection id output route => exact (proceeds_addConnection types w id output route).leads
  | removeConnection id output route => exact (proceeds_removeConnection types w id output route).leads
  | setUp id time => exact (proceeds_initializeNode hr hs id time).leads
  | setUpAgain id time => exact (proceeds_reinitializeNode hr hs id time).leads
  | discard id =>
    obtain ⟨n, hn, hi⟩ := h
    obtain rfl := id_of_node? hn
    exact (proceeds_discard hn hi).leads
  | update id time => exact (proceeds_update hr hs id time).leads
  | mouse id e now => exact (proceeds_mouseEvent hr hs id e now).leads
  | key id e => exact (proceeds_keyEvent types w id e).leads

end Call

/-- The worlds that come out of the empty one by calls. -/
inductive Reachable (types : Catalog) : World → Prop
  | empty : Reachable types {}
  | call {w : World} {c : Call} (hw : Reachable types w) (hc : c.Allowed types w) :
      Reachable types (c.run w)

theorem Sound.empty (types : Catalog) : Sound types {} where
  distinct := List.nodup_nil
  issued := by simp [liveIds]
  references := by simp [World.references]
  held := by simp
  table := by simp
  typed := by simp
  kinds := by simp
  own := by simp

namespace Reachable

/-- What holds of the empty world and survives every change of a sound world holds of every reachable
world. -/
theorem induction (hr : types.Regular) {P : World → Prop} (hempty : P {})
    (hchange : ∀ w w', Sound types w → Change types w w' → P w → P w') (hw : Reachable types w) :
    P w := by
  suffices Sound types w ∧ P w from this.2
  induction hw with
  | empty => exact ⟨.empty types, hempty⟩
  | call _ hc ih =>
    obtain ⟨hs, hp⟩ := ih
    have hleads := Call.leads hr hs hc
    generalize Call.run _ _ = w' at hleads
    induction hleads with
    | refl => exact ⟨hs, hp⟩
    | tail _ hstep ih => exact ⟨ih.1.change hr hstep, hchange _ _ ih.1 hstep ih.2⟩

/-- Reachable worlds are sound. -/
theorem sound (hr : types.Regular) (hw : Reachable types w) : Sound types w :=
  hw.induction hr (.empty types) fun _ _ hs hc _ => hs.change hr hc

end Reachable

end World

end SceneGraph
