import SceneGraph.Catalog
import SceneGraph.Proofs.World.RouteTable
import SceneGraph.World.Lifecycle

/-!
# What operations come down to

An operation does one of a few things to a world, or nothing. Which they are is said here once. So what an operation
keeps follows from what these keep, and nobody else has to look into it.

* `Registry.register_eq`, `Registry.rename_eq`, `Registry.unregister_eq`: what the registry lists after a node is made,
  renamed or gone.
* `setName_cases`: naming a node.
* `attach_cases`, `detach_cases`, `logRejected_cases`, `noticeChange_cases`: what is told, if anything.
* `takeLeave_cases`, `reportParents_cases`: what comes before a node is struck off.
* `storeChildren_cases`: replacing a list of children.
* `specification_cases`, `createOfType_cases`: asking for a layout, and making a node on demand.
* `assign_cases`, `emit_world`, `produce_cases`: storing a value.
* `initField_cases`, `addField_cases`, `removeField_cases`: filling in, adding and taking away a field.
* `adopt_cases`, `setUp_induction`, `runSetUp_induction`: the two hooks of a node.
* `addConnection_cases`, `removeConnection_cases`: adding and removing a route.
-/

namespace SceneGraph

namespace Registry

variable {r : Registry} {id : NodeId} {name : String}

theorem lastId_removeName (r : Registry) (id : NodeId) (name : String) : (r.removeName id name).lastId = r.lastId := by
  unfold removeName; split <;> rfl

theorem lastId_rename (r : Registry) (id : NodeId) (old new : String) : (r.rename id old new).lastId = r.lastId := by
  rw [rename, addName]
  split <;> exact lastId_removeName r id old

/-- Renaming a node changes nothing but the list of names. -/
theorem rename_eq (r : Registry) (id : NodeId) (old new : String) :
    r.rename id old new = { r with names := (r.removeName id old).names ++
      if new = "" then [] else [(new, id)] } := by
  unfold rename addName removeName
  split <;> split <;> simp

theorem unregister_eq (r : Registry) (id : NodeId) (name : String) :
    r.unregister id name =
      { r with
        ids := r.ids.erase id
        names := (r.removeName id name).names
        updating := r.updating.erase id
        sensing := r.sensing.erase id } := by
  unfold unregister removeName
  split <;> rfl

theorem register_eq (r : Registry) (id : NodeId) (c : Capabilities) :
    r.register id c =
      { r with
        ids := r.ids ++ [id]
        updating := r.updating ++ if c.update then [id] else []
        sensing := r.sensing ++ if c.event then [id] else [] } := by
  unfold register
  congr 1 <;> split <;> simp

theorem mem_of_mem_removeName {e : String × NodeId} (he : e ∈ (r.removeName id name).names) : e ∈ r.names := by
  unfold removeName at he
  split at he
  · exact he
  · exact List.mem_of_mem_erase he

theorem mem_of_mem_unregister {e : String × NodeId} (he : e ∈ (r.unregister id name).names) : e ∈ r.names := by
  rw [unregister_eq] at he
  exact mem_of_mem_removeName he

/-- Renaming adds the new entry at most. -/
theorem mem_or_eq_of_mem_rename {old new : String} {e : String × NodeId} (he : e ∈ (r.rename id old new).names) :
    e ∈ r.names ∨ e = (new, id) := by
  rw [rename_eq] at he
  rcases List.mem_append.1 he with he | he
  · exact .inl (mem_of_mem_removeName he)
  · split at he
    · cases he
    · exact .inr (List.mem_singleton.1 he)

end Registry

namespace World

/-- A node takes a name, unless it is gone or has the name already. -/
theorem setName_cases (w : World) (id : NodeId) (name : String) :
    (w.setName id name = w ∧ ∀ n, w.node? id = some n → n.name = name) ∨
      ∃ n, w.node? id = some n ∧ n.name ≠ name ∧
        w.setName id name = { w.modify id ({ · with name }) with registry := w.registry.rename id n.name name } := by
  unfold setName
  cases hn : w.node? id with
  | none => exact .inl ⟨rfl, nofun⟩
  | some n =>
    dsimp only
    split
    · rename_i hname
      exact .inl ⟨rfl, fun m hm => Option.some.inj hm ▸ hname⟩
    · rename_i hname
      exact .inr ⟨n, rfl, hname, rfl⟩

/-! ### Telling -/

/-- A node that joins another one is told about, if both are shown. -/
theorem attach_cases (w : World) (p c : NodeId) : w.attach p c = w ∨ ∃ a b, w.attach p c = w.tell (.attached a b) := by
  unfold attach
  split
  · exact .inr ⟨_, _, rfl⟩
  · exact .inl rfl

theorem detach_cases (w : World) (p c : NodeId) : w.detach p c = w ∨ ∃ a b, w.detach p c = w.tell (.detached a b) := by
  unfold detach
  split
  · exact .inr ⟨_, _, rfl⟩
  · exact .inl rfl

/-- A child that is an ancestor is reported, if both nodes are there. -/
theorem logRejected_cases (w : World) (id child : NodeId) :
    w.logRejected id child = w ∨ ∃ text, w.logRejected id child = w.log .warn text := by
  unfold logRejected
  split
  · exact .inr ⟨_, rfl⟩
  · exact .inl rfl

/-- A recorder tells of a change; nobody else does anything about it. -/
theorem noticeChange_cases (w : World) (id : NodeId) (name : String) :
    w.noticeChange id name = w ∨ ∃ value, w.noticeChange id name = w.tell (.changed id name value) := by
  unfold noticeChange
  split
  · split
    · exact .inr ⟨_, rfl⟩
    · exact .inl rfl
  · exact .inl rfl

/-! ### Taking leave -/

/-- A node that takes leave gives up its children, or tells that it goes, or does nothing. -/
theorem takeLeave_cases (w : World) (n : Node) :
    w.takeLeave n = w ∨ w.takeLeave n = w.tell (.destroyed n.id n.name) ∨
      w.takeLeave n = (n.nodesIn childrenField).foldl (unlink · n.id ·) w := by
  unfold takeLeave
  split
  · unfold leaveChildren
    split
    · exact .inr (.inr rfl)
    · exact .inl rfl
  · exact .inr (.inl rfl)
  · exact .inl rfl

/-- Parents that are left are reported at most. -/
theorem reportParents_cases (w : World) (id : NodeId) :
    w.reportParents id = w ∨ ∃ text, w.reportParents id = w.log .error text := by
  unfold reportParents
  split
  · split
    · exact .inl rfl
    · exact .inr ⟨_, rfl⟩
  · exact .inl rfl

theorem reportParents_eq (w : World) (id : NodeId) :
    w.reportParents id = { w with journal := (w.reportParents id).journal } := by
  obtain heq | ⟨text, heq⟩ := reportParents_cases w id
  · rw [heq]
  · rw [heq]
    rfl

@[simp]
theorem nodes_reportParents (w : World) (id : NodeId) : (w.reportParents id).nodes = w.nodes := by
  rw [reportParents_eq]

@[simp]
theorem registry_reportParents (w : World) (id : NodeId) : (w.reportParents id).registry = w.registry := by
  rw [reportParents_eq]

@[simp]
theorem specifications_reportParents (w : World) (id : NodeId) :
    (w.reportParents id).specifications = w.specifications := by
  rw [reportParents_eq]

@[simp]
theorem held_reportParents (w : World) (id : NodeId) : (w.reportParents id).held = w.held := by
  rw [reportParents_eq]

@[simp]
theorem cascade_reportParents (w : World) (id : NodeId) : (w.reportParents id).cascade = w.cascade := by
  rw [reportParents_eq]

/-! ### Children -/

/-- A list of children is stored if there is one. -/
theorem storeChildren_cases (w : World) (id : NodeId) (old new : List NodeId) (time : Timestamp) (after : Aftermath) :
    (w.storeChildren id old new time after).2 = w ∨
      ∃ n f, w.node? id = some n ∧ n.field? childrenField = some f ∧ f.kind = ⟨.node, .multi⟩ ∧
        (w.storeChildren id old new time after).2 =
          (w.modify id (·.store childrenField (.nodes new time))).step
            (.stored id childrenField (.nodes new time)) := by
  unfold storeChildren
  split
  · rename_i n hn
    dsimp only
    split
    · rename_i f hf
      obtain ⟨hfield, hkind⟩ := Node.fieldOfKind_ok hf
      exact .inr ⟨n, f, hn, hfield, hkind, rfl⟩
    · exact .inl rfl
  · exact .inl rfl

theorem storeChildren_fst (w : World) (id : NodeId) (old new : List NodeId) (time : Timestamp)
    (after : Aftermath) : (w.storeChildren id old new time after).1 = after.release old := by
  unfold storeChildren
  split
  · dsimp only
    split <;> rfl
  · rfl

theorem storeChildren_eq {w : World} {n : Node} {f : Field} (hn : w.node? n.id = some n)
    (hf : n.field? childrenField = some f) (hk : f.kind = ⟨.node, .multi⟩) (old new : List NodeId)
    (time : Timestamp) (after : Aftermath) :
    (w.storeChildren n.id old new time after).2 =
      (w.modify n.id (·.store childrenField (.nodes new time))).step
        (.stored n.id childrenField (.nodes new time)) := by
  unfold storeChildren
  rw [hn]
  dsimp only
  rw [Node.fieldOfKind, hf]
  dsimp only
  rw [if_pos hk]

/-! ### Making nodes -/

theorem ofFields_eq_ok {typeName : String} {fields : List FieldSpec} {spec : Specification}
    (h : Specification.ofFields typeName fields = .ok spec) :
    Specification.duplicate? [] fields = none ∧ spec = ⟨typeName, fields⟩ := by
  unfold Specification.ofFields at h
  split at h
  · cases h
  · rename_i hdistinct
    exact ⟨hdistinct, (Except.ok.inj h).symm⟩

section

variable {typeName : String} {w w' : World}

/-- A layout that is asked for is in the table, or is made of the fields and entered. -/
theorem specification_cases {fields : List FieldSpec} {spec : Specification}
    (h : w.specification typeName fields = .ok (spec, w')) :
    (w' = w ∧ spec ∈ w.specifications ∧ spec.typeName = typeName) ∨
      (Specification.duplicate? [] fields = none ∧ spec = ⟨typeName, fields⟩ ∧
        w' = { w with specifications := w.specifications ++ [spec] }) := by
  unfold specification at h
  split at h
  · rename_i s hfind
    obtain ⟨rfl, rfl⟩ := Prod.mk.inj (Except.ok.inj h)
    exact .inl ⟨rfl, List.mem_of_find?_eq_some hfind, by simpa using List.find?_some hfind⟩
  · split at h
    · rename_i s hfields
      obtain ⟨rfl, rfl⟩ := Prod.mk.inj (Except.ok.inj h)
      obtain ⟨hdistinct, hspec⟩ := ofFields_eq_ok hfields
      exact .inr ⟨hdistinct, hspec, rfl⟩
    · cases h

/-- Whoever asks for a layout changes the table of layouts at most. -/
theorem specification_eq {fields : List FieldSpec} {spec : Specification}
    (h : w.specification typeName fields = .ok (spec, w')) : ∃ table, w' = { w with specifications := table } := by
  obtain ⟨rfl, -⟩ | ⟨-, -, rfl⟩ := specification_cases h
  · exact ⟨w'.specifications, rfl⟩
  · exact ⟨_, rfl⟩

/-- A type is unknown, or its node is made with the layout that the table answers. -/
theorem createOfType_cases {catalog : Catalog} {env : Environment} {made : Option NodeId}
    (h : w.createOfType catalog typeName env = .ok (made, w')) :
    (made = none ∧ w' = w) ∨
      ∃ t ∈ catalog, ∃ spec v, w.specification t.name t.fields = .ok (spec, v) ∧
        made = some v.nextId.1 ∧ w' = (v.create spec t.behavior env).2 := by
  unfold createOfType at h
  split at h
  · obtain ⟨rfl, rfl⟩ := Prod.mk.inj (Except.ok.inj h)
    exact .inl ⟨rfl, rfl⟩
  rename_i t ht
  split at h
  · cases h
  · rename_i spec v hspec
    obtain ⟨rfl, rfl⟩ := Prod.mk.inj (Except.ok.inj h)
    exact .inr ⟨t, List.mem_of_find?_eq_some ht, spec, v, hspec, rfl, rfl⟩

end

/-! ### Taking a value -/

variable {w : World} {id : NodeId} {name : String} {value : Field}

/-- A field takes over a value of its kind. -/
theorem assign_eq {n : Node} {old : Field} (hn : w.node? id = some n) (hold : n.field? name = some old)
    (hkind : old.kind = value.kind) (after : Aftermath) :
    w.assign id name value after = (true, after.release old.references,
      (w.modify id (·.store name value)).step (.stored id name value)) := by
  have hassign : old.assign value = some value := Field.assign_eq_some_iff.2 ⟨hkind, rfl⟩
  rw [assign, hn, Option.bind_some, hold]
  dsimp only
  rw [hassign]

/-- Nothing happens to a field of another kind, or that is not there. -/
theorem assign_cases (w : World) (id : NodeId) (name : String) (value : Field) (after : Aftermath) :
    w.assign id name value after = (false, after, w) ∨
      ∃ n old, w.node? id = some n ∧ n.field? name = some old ∧ old.kind = value.kind ∧
        w.assign id name value after = (true, after.release old.references,
          (w.modify id (·.store name value)).step (.stored id name value)) := by
  cases hfound : (w.node? id).bind (·.field? name) with
  | none =>
    refine .inl ?_
    rw [assign, hfound]
  | some old =>
    obtain ⟨n, hn, hold⟩ := Option.bind_eq_some_iff.1 hfound
    cases hassign : old.assign value with
    | none =>
      refine .inl ?_
      rw [assign, hfound]
      dsimp only
      rw [hassign]
    | some new =>
      have hkind := (Field.assign_eq_some_iff.1 hassign).1
      exact .inr ⟨n, old, hn, hold, hkind, assign_eq hn hold hkind after⟩

/-- What is sent out is stored like any other value. -/
theorem emit_world (w : World) (id : NodeId) (name : String) (value : Field) (after : Aftermath) :
    (w.emit id name value after).2.2 = (w.assign id name value after).2.2 := by
  unfold emit
  split
  · rename_i heq
    rw [heq]
  · rfl

/-- A value of a node's own making is stored if it is of the kind of the field, and refused otherwise. -/
theorem produce_cases (w : World) (n : Node) (name : String) (value : Field) :
    (∃ e, w.produce n name value = (.error e, {}, w)) ∨
      ∃ old, n.field? name = some old ∧ old.kind = value.kind ∧
        w.produce n name value = (.ok (), (w.assign n.id name value {}).2) := by
  cases hold : n.field? name with
  | none =>
    refine .inl ⟨n.notFound name, ?_⟩
    rw [produce, hold]
  | some old =>
    by_cases hkind : old.kind = value.kind
    · refine .inr ⟨old, rfl, hkind, ?_⟩
      rw [produce, hold]
      dsimp only
      rw [if_neg (not_not.2 hkind)]
    · refine .inl ⟨.typeMismatch name old.kind value.kind, ?_⟩
      rw [produce, hold]
      dsimp only
      rw [if_pos hkind]

theorem produce_eq {n : Node} {old : Field} (hn : w.node? n.id = some n) (hold : n.field? name = some old)
    (hkind : old.kind = value.kind) :
    w.produce n name value = (.ok (), Aftermath.release {} old.references,
      (w.modify n.id (·.store name value)).step (.stored n.id name value)) := by
  rw [produce, hold]
  dsimp only
  rw [if_neg (not_not.2 hkind), assign_eq hn hold hkind]

/-! ### Fields of a node -/

/-- A field that is filled in takes over a value of its kind, and what it referred to is let go of. -/
theorem initField_eq {n : Node} {old : Field} (hn : w.node? id = some n) (hold : n.field? name = some old)
    (hkind : old.kind = value.kind) :
    w.initField id name value = (.ok (),
      release old.references ((w.modify id (·.store name value)).step (.stored id name value))) := by
  obtain rfl := id_of_node? hn
  rw [initField, hn]
  dsimp only
  rw [produce_eq hn hold hkind]
  rfl

/-- A field is filled in with a value of its kind, or nothing happens. -/
theorem initField_cases (w : World) (id : NodeId) (name : String) (value : Field) :
    (w.initField id name value).2 = w ∨
      ∃ n old, w.node? id = some n ∧ n.field? name = some old ∧ old.kind = value.kind ∧
        w.initField id name value = (.ok (),
          release old.references ((w.modify id (·.store name value)).step (.stored id name value))) := by
  cases hn : w.node? id with
  | none =>
    refine .inl ?_
    rw [initField, hn]
  | some n =>
    obtain ⟨e, heq⟩ | ⟨old, hold, hkind, -⟩ := produce_cases w n name value
    · refine .inl ?_
      rw [initField, hn]
      dsimp only
      rw [heq]
      dsimp only
      rw [release]
    · exact .inr ⟨n, old, rfl, hold, hkind, initField_eq hn hold hkind⟩

/-- A node gets a field of its own, unless it is gone or refuses it. -/
theorem addField_cases (w : World) (id : NodeId) (name : String) (value : Field) :
    (w.node? id = none ∧ w.addField id name value = (.ok (), w)) ∨
      (∃ e, w.addField id name value = (.error e, w)) ∨
        ∃ n, w.node? id = some n ∧ n.capabilities.dynamic = true ∧ n.hasField name = false ∧
          w.addField id name value =
            (.ok (), w.modify id fun n => { n with dynamic := n.dynamic ++ [(name, value)] }) := by
  unfold addField
  cases w.node? id with
  | none => exact .inl ⟨rfl, rfl⟩
  | some n =>
    dsimp only
    split
    · exact .inr (.inl ⟨_, rfl⟩)
    split
    · exact .inr (.inl ⟨_, rfl⟩)
    · rename_i hdynamic hnew
      exact .inr (.inr ⟨n, rfl, by simpa using hdynamic, by simpa using hnew, rfl⟩)

/-- A node loses a field of its own, with the routes that leave it, and lets go of what the field referred to. -/
theorem removeField_cases (w : World) (id : NodeId) (name : String) :
    (w.node? id = none ∧ w.removeField id name = (.ok (), w)) ∨
      (∃ e, w.removeField id name = (.error e, w)) ∨
        ∃ n old, w.node? id = some n ∧ n.dynamicField? name = some old ∧
          w.removeField id name = (.ok (), release old.references (w.modify id fun n => { n with
            dynamic := n.dynamic.filter (·.1 != name)
            routes := n.routes.filter (·.1 != name) })) := by
  unfold removeField
  cases w.node? id with
  | none => exact .inl ⟨rfl, rfl⟩
  | some n =>
    dsimp only
    split
    · exact .inr (.inl ⟨_, rfl⟩)
    split
    · exact .inr (.inl ⟨_, rfl⟩)
    · rename_i old hold
      exact .inr (.inr ⟨n, old, rfl, hold, rfl⟩)

/-! ### Setting up -/

/-- A grouping node claims its children; a recorder tells of its turn; nobody else does anything. -/
theorem adopt_cases (w : World) (n : Node) :
    (n.behavior = .grouping ∧ w.adopt n = w.adoptChildren n.id) ∨
      (n.behavior ≠ .grouping ∧ (w.adopt n = ({}, w) ∨ w.adopt n = ({}, w.tell (.adopted n.id n.name)))) := by
  cases hb : n.behavior with
  | grouping => exact .inl ⟨rfl, by rw [adopt, hb]⟩
  | recorder c => exact .inr ⟨nofun, .inr (by rw [adopt, hb])⟩
  | _ => exact .inr ⟨nofun, .inl (by rw [adopt, hb])⟩

/-- Once its node is set up, a behaviour tells of things and gives the node an object in the renderer. -/
theorem setUp_induction {I : World → Prop} (n : Node) (time : Timestamp) (htell : ∀ v e, I v → I (v.tell e))
    (hrender : ∀ v object, I v → I (v.modify n.id fun m => { m with object })) (hI : I w) : I (w.setUp n time) := by
  have hattach : ∀ v c, I v → I (v.attach n.id c) := by
    intro v c hv
    obtain heq | ⟨a, b, heq⟩ := attach_cases v n.id c <;> rw [heq]
    · exact hv
    · exact htell v _ hv
  have hattachAll : ∀ (children : List NodeId) v, I v → I (children.foldl (attach · n.id ·) v) := by
    intro children
    induction children with
    | nil => exact fun v hv => hv
    | cons c rest ih => exact fun v hv => ih _ (hattach v c hv)
  unfold setUp
  split
  · unfold setUpChildren
    split
    · rename_i m hm
      -- the node that is looked up again has the same id, so its object is given to the same node
      have hid : m.id = n.id := id_of_node? hm
      have hrendered : I (if m.object.isNone then w.renderNode m else w) := by
        unfold renderNode
        rw [hid]
        split
        · split
          · exact hrender _ _ (htell _ _ hI)
          · exact hI
        · exact hI
      dsimp only
      split
      · exact hattachAll _ _ hrendered
      · exact hrendered
    · exact hI
  · exact htell _ _ hI
  · exact hI

/-- The second hook counts the set-up and enters that it begins; then the behaviour takes over. -/
theorem runSetUp_induction {I : World → Prop} (id : NodeId) (time : Timestamp)
    (hcount : ∀ v, I v → I (v.modify id fun n => { n with initializations := n.initializations + 1 }))
    (hbegin : ∀ v, I v → I (v.step (.settingUp id))) (htell : ∀ v e, I v → I (v.tell e))
    (hrender : ∀ v object, I v → I (v.modify id fun n => { n with object })) (hI : I w) :
    I (w.runSetUp id time) := by
  have hcounted := hcount w hI
  unfold runSetUp
  dsimp only
  split
  · rename_i n hn
    obtain rfl := id_of_node? hn
    exact setUp_induction n time htell hrender (hbegin _ hcounted)
  · exact hcounted

/-! ### Connecting fields -/

/-- Adding a route to a node changes its table of routes at most. -/
theorem modify_addConnection_eq (w : World) (id : NodeId) (output : String) (route : Route) :
    ∃ routes : Node → List (String × List Route),
      (w.modify id fun n => (n.addConnection output route).2) = w.modify id fun n => { n with routes := routes n } := by
  refine ⟨fun n => (n.addConnection output route).2.routes, congrArg (w.modify id) (funext fun n => ?_)⟩
  obtain ⟨routes, heq⟩ := n.addConnection_eq output route
  simp only [heq]

theorem modify_removeConnection_eq (w : World) (id : NodeId) (output : String) (route : Route) :
    ∃ routes : Node → List (String × List Route),
      (w.modify id fun n => (n.removeConnection output route).2) = w.modify id fun n => { n with routes := routes n } := by
  refine ⟨fun n => (n.removeConnection output route).2.routes, congrArg (w.modify id) (funext fun n => ?_)⟩
  obtain ⟨routes, heq⟩ := n.removeConnection_eq output route
  simp only [heq]

/-- A field that is connected belongs to a live node; only the table of routes of this node changes. -/
theorem addConnection_cases (w : World) (id : NodeId) (output : String) (route : Route) :
    (w.addConnection id output route).2 = w ∨
      ∃ routes : Node → List (String × List Route),
        (w.addConnection id output route).2 = w.modify id fun n => { n with routes := routes n } := by
  unfold addConnection
  split
  · exact .inr (modify_addConnection_eq w id output route)
  · exact .inl rfl

theorem removeConnection_cases (w : World) (id : NodeId) (output : String) (route : Route) :
    (w.removeConnection id output route).2 = w ∨
      ∃ routes : Node → List (String × List Route),
        (w.removeConnection id output route).2 = w.modify id fun n => { n with routes := routes n } := by
  unfold removeConnection
  split
  · exact .inr (modify_removeConnection_eq w id output route)
  · exact .inl rfl

end World

end SceneGraph
