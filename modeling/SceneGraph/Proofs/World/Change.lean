import Mathlib.Logic.Relation
import SceneGraph.Proofs.World.Parents
import SceneGraph.Scene
import SceneGraph.World.Lifecycle

/-!
# Changes of a world

Everything that happens in a world is a sequence of `Change`s: one constructor for every way in which
a world is changed at once, with what is known at that moment. An invariant of worlds is proved for
each of them and then holds along every run (`Leads`).

* `Catalog.Regular`: types of nodes with one layout for each name, where grouping nodes have the
  fields of grouping nodes.
* `World.Sound`: ids are unique, nobody refers to a node that is gone, and every node has the fields
  of its type.
* `Sound.change`, `Sound.leads`: changes keep a world sound.
-/

namespace SceneGraph

/-- The layout of the nodes of a type. -/
def NodeType.layout (t : NodeType) : Specification := ⟨t.name, t.fields⟩

/-- The type of the roots of scenes. -/
def Scene.nodeType : NodeType := ⟨Scene.typeName, groupingFields, .grouping⟩

/-- Types of nodes that can live together: a name means one list of fields, whose first values refer to
no node, and the list of a grouping node starts with the fields of grouping nodes. -/
structure Catalog.Regular (types : Catalog) : Prop where
  layouts : ∀ t ∈ types, ∀ u ∈ types, t.name = u.name → t.fields = u.fields
  initial : ∀ t ∈ types, ∀ e ∈ t.fields, e.initial.references = []
  grouping : ∀ t ∈ types, t.behavior = .grouping → ∃ rest, t.fields = groupingFields ++ rest

/-- The built-in types and the type of roots. -/
def Catalog.withScenes : Catalog := Scene.nodeType :: Catalog.standard

theorem Catalog.regular_withScenes : Catalog.withScenes.Regular where
  layouts t ht u hu hname := by
    have hnames : (Catalog.withScenes.map (·.name)).Nodup := by decide
    rw [List.inj_on_of_nodup_map hnames ht hu hname]
  initial := by decide
  grouping t ht hb := by
    simp only [Catalog.withScenes, Catalog.standard, List.mem_cons, List.not_mem_nil, or_false] at ht
    rcases ht with rfl | rfl | rfl | rfl | rfl | rfl | rfl | rfl | rfl | rfl | rfl | rfl
    all_goals first | exact ⟨_, (List.append_nil _).symm⟩ | exact ⟨_, rfl⟩ | cases hb

/-- The entry is no error and tells of no object of the renderer that joins or leaves another one. -/
def Entry.isPlain : Entry → Bool
  | .event (.attached ..) | .event (.detached ..) => false
  | e => !e.isError

theorem Entry.isError_of_isPlain {e : Entry} (h : e.isPlain = true) : e.isError = false := by
  unfold isPlain at h
  split at h
  · rfl
  · rfl
  · simpa using h

namespace World

/-- Ids are unique, references and handles lead to live nodes, and every node has the fields of its
type. -/
structure Sound (types : Catalog) (w : World) : Prop where
  distinct : w.liveIds.Nodup
  issued : ∀ id ∈ w.liveIds, id.value ≤ w.registry.lastId
  references : ∀ id ∈ w.references, w.isLive id = true
  held : ∀ id ∈ w.held, w.isLive id = true
  table : ∀ s ∈ w.specifications, ∃ t ∈ types, s = t.layout
  typed : ∀ n ∈ w.nodes, ∃ t ∈ types, n.spec = t.layout ∧ n.behavior = t.behavior
  kinds : ∀ n ∈ w.nodes, n.fields.map (·.kind) = n.spec.entries.map (·.initial.kind)
  own : ∀ n ∈ w.nodes, n.dynamic ≠ [] → n.capabilities.dynamic = true

/-- A node that is marked as set up. -/
def mark (w : World) (id : NodeId) : World := w.modify id fun n => { n with initialized := true }

/-- One change of a world. -/
inductive Change (types : Catalog) : World → World → Prop
  /-- Something is entered into the journal that is no error and tells of no link. -/
  | entered (w : World) (e : Entry) (he : e.isPlain = true) : Change types w (w.enter e)
  | cascaded (w : World) (stack : List (NodeId × String)) :
      Change types w { w with cascade := stack }
  | held (w : World) (ids : List NodeId) (h : ∀ id ∈ ids, w.isLive id = true) :
      Change types w (w.holdAll ids)
  | unheld (w : World) (ids : List NodeId) :
      Change types w { w with held := ids.foldl List.erase w.held }
  | learned (w : World) (t : NodeType) (ht : t ∈ types) :
      Change types w { w with specifications := w.specifications ++ [t.layout] }
  | created (w : World) (t : NodeType) (environment : Environment) (ht : t ∈ types) :
      Change types w (w.create t.layout t.behavior environment).2
  /-- A node that nobody holds is destroyed. -/
  | destroyed (w : World) (n : Node) (hn : w.node? n.id = some n) (hfree : w.isHeld n.id = false) :
      Change types w (w.destroy n)
  | named (w : World) (id : NodeId) (name : String) : Change types w (w.setName id name)
  /-- A field takes over a value of its kind; it is not the list of children of a grouping node that is
  set up. -/
  | stored (w : World) (n : Node) (name : String) (old value : Field) (hn : w.node? n.id = some n)
      (hold : n.field? name = some old) (hkind : old.kind = value.kind)
      (hlive : ∀ id ∈ value.references, w.isLive id = true)
      (hlist : n.behavior = .grouping → n.initialized = true → name ≠ childrenField) :
      Change types w (w.modify n.id (·.store name value))
  /-- A grouping node that is set up takes other children; the new ones are no ancestors. -/
  | relinked (w : World) (n : Node) (next : List NodeId) (time : Timestamp) (after : Aftermath)
      (hn : w.node? n.id = some n) (hgroup : n.behavior = .grouping) (hset : n.initialized = true)
      (hlive : ∀ c ∈ next, w.isLive c = true)
      (hnext : ∀ c ∈ next, c ∈ w.children n.id ∨ c ∉ w.ancestors n.id) :
      Change types w (w.replaceChildren n.id (w.children n.id) next time after).2
  | marked (w : World) (n : Node) (hn : w.node? n.id = some n) (hgroup : n.behavior ≠ .grouping) :
      Change types w (w.mark n.id)
  /-- A grouping node is marked and claims its children. -/
  | adopted (w : World) (n : Node) (hn : w.node? n.id = some n) (hgroup : n.behavior = .grouping)
      (hset : n.initialized = false) :
      Change types w (((w.mark n.id).step (.adopting n.id)).adoptChildren n.id).2
  /-- The behaviour of a node that is marked finishes the set-up of the node. -/
  | finished (w : World) (id : NodeId) (time : Timestamp)
      (hset : ∀ n, w.node? id = some n → n.initialized = true) : Change types w (w.runSetUp id time)
  | extended (w : World) (n : Node) (name : String) (value : Field) (hn : w.node? n.id = some n)
      (hdynamic : n.capabilities.dynamic = true) (hnew : n.hasField name = false)
      (hlive : ∀ id ∈ value.references, w.isLive id = true) :
      Change types w (w.modify n.id fun n => { n with dynamic := n.dynamic ++ [(name, value)] })
  | reduced (w : World) (id : NodeId) (name : String) :
      Change types w (w.modify id fun n => { n with
        dynamic := n.dynamic.filter (·.1 != name)
        routes := n.routes.filter (·.1 != name) })
  | connected (w : World) (id : NodeId) (output : String) (route : Route) :
      Change types w (w.modify id fun n => (n.addConnection output route).2)
  | disconnected (w : World) (id : NodeId) (output : String) (route : Route) :
      Change types w (w.modify id fun n => (n.removeConnection output route).2)
  /-- A node that is not set up loses its references. -/
  | forgotten (w : World) (n : Node) (hn : w.node? n.id = some n) (hset : n.initialized = false) :
      Change types w (w.modify n.id Node.forget)

/-- Some changes, one after the other. -/
def Leads (types : Catalog) : World → World → Prop := Relation.ReflTransGen (Change types)

variable {types : Catalog} {w w' : World}

/-! ### What a sound world knows about its nodes -/

/-- A node that is there is the one that is found. -/
theorem node?_of_mem (h : w.liveIds.Nodup) {n : Node} (hn : n ∈ w.nodes) : w.node? n.id = some n := by
  obtain ⟨before, after, hw⟩ := List.append_of_mem hn
  rw [liveIds, hw, List.map_append, List.map_cons, List.nodup_append] at h
  rw [node?, hw, List.find?_append, List.find?_cons_of_pos (by simp), List.find?_eq_none.2, Option.none_or]
  intro m hm hid
  exact h.2.2 m.id (List.mem_map_of_mem hm) n.id List.mem_cons_self (by simpa using hid)

theorem references_subset_of_mem {n : Node} (hn : n ∈ w.nodes) : n.references ⊆ w.references :=
  fun _ hr => List.mem_flatMap.2 ⟨n, hn, hr⟩

theorem children_subset_references (w : World) (id : NodeId) : w.children id ⊆ w.references := by
  intro c hc
  unfold World.children at hc
  cases hn : w.node? id with
  | none =>
    rw [hn] at hc
    cases hc
  | some n =>
    rw [hn] at hc
    exact references_subset_of_mem (mem_nodes_of_node? hn) (Node.nodesIn_subset n childrenField hc)

theorem references_eq_graph (w : World) : w.references = w.graph.flatMap (·.2) := by
  rw [references, graph, List.flatMap_map]

namespace Sound

/-- The grouping fields come first, so the list of children is always there. -/
theorem exists_children (hr : types.Regular) (h : Sound types w) {n : Node} (hn : n ∈ w.nodes)
    (hg : n.behavior = .grouping) :
    ∃ f, n.field? childrenField = some f ∧ f.kind = ⟨.node, .multi⟩ := by
  obtain ⟨t, ht, hspec, hb⟩ := h.typed n hn
  obtain ⟨rest, hrest⟩ := hr.grouping t ht (hb ▸ hg)
  have hk := h.kinds n hn
  rw [hspec, NodeType.layout, hrest] at hk
  have hindex : n.spec.index? childrenField = some 0 := by
    rw [hspec, Specification.index?, NodeType.layout, hrest]; rfl
  cases hf : n.fields with
  | nil => rw [hf] at hk; cases hk
  | cons f fs =>
    rw [hf] at hk
    refine ⟨f, ?_, (List.cons.inj hk).1⟩
    rw [Node.field?, hindex, hf]
    rfl

/-- What a grouping node lists is live. -/
theorem children (h : Sound types w) (id c : NodeId) (hc : c ∈ w.children id) : w.isLive c = true :=
  h.references c (children_subset_references w id hc)

/-- Grouping nodes have no fields of their own. -/
theorem dynamic_eq_nil (h : Sound types w) {n : Node} (hn : n ∈ w.nodes) (hb : n.behavior = .grouping) :
    n.dynamic = [] := by
  by_contra hd
  have hdynamic := h.own n hn hd
  rw [Node.capabilities, hb] at hdynamic
  cases hdynamic

/-- Only the nodes, the handles, the layouts and the last id matter. -/
theorem congr (h : Sound types w) (hn : w'.nodes = w.nodes)
    (hl : w'.registry.lastId = w.registry.lastId) (hs : w'.specifications = w.specifications)
    (hh : ∀ id ∈ w'.held, w.isLive id = true) : Sound types w' where
  distinct := by simpa only [liveIds, hn] using h.distinct
  issued := by simpa only [liveIds, hn, hl] using h.issued
  references := by simpa only [World.references, isLive, hn] using h.references
  held := by simpa only [isLive, hn] using hh
  table := by simpa only [hs] using h.table
  typed := by simpa only [hn] using h.typed
  kinds := by simpa only [hn] using h.kinds
  own := by simpa only [hn] using h.own

/-- A node may change anything but its type, as long as its references are live. -/
theorem modify (h : Sound types w) {id : NodeId} {f : Node → Node}
    (hf : ∀ n, (f n).id = n.id ∧ (f n).spec = n.spec ∧ (f n).behavior = n.behavior)
    (hk : ∀ n, w.node? id = some n → (f n).fields.map (·.kind) = n.fields.map (·.kind))
    (hl : ∀ n, w.node? id = some n → ∀ r ∈ (f n).references, w.isLive r = true)
    (hd : ∀ n, w.node? id = some n → (f n).dynamic ≠ [] → n.dynamic ≠ [] ∨ n.capabilities.dynamic) :
    Sound types (w.modify id f) := by
  have hids := liveIds_modify w id fun n => (hf n).1
  have hlive := isLive_modify w id fun n => (hf n).1
  have hmem : ∀ m ∈ (w.modify id f).nodes, m ∈ w.nodes ∨
      ∃ n ∈ w.nodes, w.node? id = some n ∧ m = f n := by
    intro m hm
    obtain ⟨n, hn, rfl⟩ := List.mem_map.1 hm
    by_cases hid : n.id = id
    -- ids are distinct: the node with the id is the one that is found
    · exact .inr ⟨n, hn, hid ▸ node?_of_mem h.distinct hn, if_pos hid⟩
    · exact .inl (by simpa [hid] using hn)
  refine { distinct := hids ▸ h.distinct, issued := hids ▸ h.issued, held := hlive ▸ h.held, table := h.table,
           references := ?references, typed := ?typed, kinds := ?kinds, own := ?own }
  case references =>
    rw [hlive]
    intro r hr
    obtain ⟨m, hm, hr⟩ := List.mem_flatMap.1 hr
    rcases hmem m hm with hm | ⟨n, hn, hid, rfl⟩
    · exact h.references r (references_subset_of_mem hm hr)
    · exact hl n hid r hr
  case typed =>
    intro m hm
    rcases hmem m hm with hm | ⟨n, hn, hid, rfl⟩
    · exact h.typed m hm
    · rw [(hf n).2.1, (hf n).2.2]
      exact h.typed n hn
  case kinds =>
    intro m hm
    rcases hmem m hm with hm | ⟨n, hn, hid, rfl⟩
    · exact h.kinds m hm
    · rw [(hf n).2.1, hk n hid]
      exact h.kinds n hn
  case own =>
    intro m hm hdyn
    rcases hmem m hm with hm | ⟨n, hn, hid, rfl⟩
    · exact h.own m hm hdyn
    · rw [Node.capabilities, (hf n).2.2]
      exact (hd n hid hdyn).elim (h.own n hn) fun hc => hc

/-- A change that has nothing to do with fields. -/
theorem modify_fields (h : Sound types w) {id : NodeId} {f : Node → Node}
    (hf : ∀ n, (f n).id = n.id ∧ (f n).spec = n.spec ∧ (f n).behavior = n.behavior)
    (hfields : ∀ n, (f n).fields = n.fields ∧ (f n).dynamic = n.dynamic) :
    Sound types (w.modify id f) := by
  refine h.modify hf (fun n _ => by rw [(hfields n).1]) (fun n hn r hr => ?_) fun n _ hd => ?_
  · rw [Node.references, Node.allFields, (hfields n).1, (hfields n).2] at hr
    exact h.references r (references_subset_of_mem (mem_nodes_of_node? hn) hr)
  · exact .inl ((hfields n).2 ▸ hd)

theorem mark (h : Sound types w) (id : NodeId) : Sound types (w.mark id) :=
  h.modify_fields (fun _ => ⟨rfl, rfl, rfl⟩) fun _ => ⟨rfl, rfl⟩

theorem enter (h : Sound types w) (e : Entry) : Sound types (w.enter e) :=
  h.congr rfl rfl rfl h.held

theorem reparents {g : NodeId → List (NodeId × Nat) → List (NodeId × Nat)} (h : Sound types w)
    (hp : Reparents g w w') : Sound types w' := by
  have hmem : ∀ m ∈ w'.nodes, ∃ n ∈ w.nodes, m = { n with parents := g n.id n.parents } := by
    intro m hm
    rw [hp.nodes] at hm
    obtain ⟨n, hn, rfl⟩ := List.mem_map.1 hm
    exact ⟨n, hn, rfl⟩
  have hlive := isLive_congr hp.liveIds
  refine { distinct := hp.liveIds ▸ h.distinct, issued := ?issued, references := ?references, held := ?held,
           table := ?table, typed := ?typed, kinds := ?kinds, own := ?own }
  case issued =>
    rw [hp.liveIds, hp.registry]
    exact h.issued
  case references =>
    intro r hr
    obtain ⟨m, hm, hr⟩ := List.mem_flatMap.1 hr
    obtain ⟨n, hn, rfl⟩ := hmem m hm
    exact hlive ▸ h.references r (references_subset_of_mem hn hr)
  case held =>
    rw [hlive, hp.held]
    exact h.held
  case table =>
    rw [hp.specifications]
    exact h.table
  case typed =>
    intro m hm
    obtain ⟨n, hn, rfl⟩ := hmem m hm
    exact h.typed n hn
  case kinds =>
    intro m hm
    obtain ⟨n, hn, rfl⟩ := hmem m hm
    exact h.kinds n hn
  case own =>
    intro m hm
    obtain ⟨n, hn, rfl⟩ := hmem m hm
    exact h.own n hn

theorem reportParents (h : Sound types w) (id : NodeId) : Sound types (w.reportParents id) := by
  obtain heq | ⟨text, heq⟩ := reportParents_cases w id <;> rw [heq]
  · exact h
  · exact h.enter _

/-- Only the fields of nodes refer to nodes, and those that are forgotten do not. -/
theorem references_forget (hr : types.Regular) (h : Sound types w) {n : Node} (hn : n ∈ w.nodes) :
    n.forget.references = [] := by
  obtain ⟨t, ht, hspec, -⟩ := h.typed n hn
  rw [Node.references, List.flatMap_eq_nil_iff]
  intro f hf
  rcases List.mem_append.1 hf with hf | hf
  · obtain ⟨⟨g, e⟩, hge, rfl⟩ := List.mem_map.1 hf
    have he : e ∈ t.fields := by simpa [hspec, NodeType.layout] using (List.of_mem_zip hge).2
    dsimp only
    split
    · exact hr.initial t ht e he
    · exact Field.references_eq_nil ‹_›
  · obtain ⟨e, he, rfl⟩ := List.mem_map.1 hf
    exact Field.references_eq_nil (by simpa using (List.mem_filter.1 he).2)

theorem kinds_forget {fields : List Field} {entries : List FieldSpec}
    (h : fields.map (·.kind) = entries.map (·.initial.kind)) :
    ((fields.zip entries).map fun (f, e) => if f.kind.type = FieldType.node then e.initial else f).map
      (·.kind) = fields.map (·.kind) := by
  induction fields generalizing entries with
  | nil => rfl
  | cons f fs ih =>
    cases entries with
    | nil => cases h
    | cons e es =>
      obtain ⟨hk, hks⟩ := List.cons.inj h
      simp only [List.zip_cons_cons, List.map_cons, ih hks]
      congr 1
      split
      · exact hk.symm
      · rfl

theorem store {n : Node} {name : String} {old value : Field} (h : Sound types w)
    (hn : w.node? n.id = some n) (hold : n.field? name = some old) (hkind : old.kind = value.kind)
    (hlive : ∀ id ∈ value.references, w.isLive id = true) :
    Sound types (w.modify n.id (·.store name value)) := by
  refine h.modify (fun m => ⟨by simp, by simp, by simp⟩) (fun m hm => ?_) (fun m hm r hr => ?_)
    fun m _ hd => ?_
  · obtain rfl : n = m := Option.some.inj (hn.symm.trans hm)
    exact Node.kinds_store hold hkind
  · rcases Node.references_store hr with hr | hr
    · exact h.references r (references_subset_of_mem (mem_nodes_of_node? hm) hr)
    · exact hlive r hr
  · exact .inl (Node.dynamic_of_store hd)

theorem storeChildren {id : NodeId} {old new : List NodeId} {time : Timestamp} {after : Aftermath}
    (h : Sound types w) (hnew : ∀ c ∈ new, w.isLive c = true) :
    Sound types (w.storeChildren id old new time after).2 := by
  obtain heq | ⟨n, f, hn, hfield, hkind, heq⟩ := storeChildren_cases w id old new time after <;> rw [heq]
  · exact h
  · obtain rfl := id_of_node? hn
    exact (h.store hn hfield hkind (by simpa using hnew)).enter _

theorem destroy (h : Sound types w) {n : Node} (hfree : w.isHeld n.id = false) :
    Sound types (w.destroy n) := by
  have ht := (h.reparents (reparents_takeLeave w n)).reportParents n.id
  have href : ((w.takeLeave n).reportParents n.id).references = w.references := by
    rw [references_eq_graph, references_eq_graph, graph_reportParents, graph_takeLeave]
  have hheld : ((w.takeLeave n).reportParents n.id).held = w.held := by
    rw [held_reportParents, (reparents_takeLeave w n).held]
  rw [World.destroy]
  -- taking leave of the children moves no reference, so the node is as free as before
  generalize (w.takeLeave n).reportParents n.id = v at ht href hheld
  have hids : (v.remove n).liveIds = v.liveIds.filter (· != n.id) := by
    simp only [liveIds, World.remove, step, World.enter, List.filter_map]
    rfl
  have hlive : ∀ id, v.isLive id = true → id ≠ n.id → (v.remove n).isLive id = true := by
    intro id hid hne
    rw [← mem_liveIds, hids, List.mem_filter]
    exact ⟨mem_liveIds.2 hid, by simpa using hne⟩
  simp only [isHeld, Bool.or_eq_false_iff, List.contains_eq_mem, decide_eq_false_iff_not] at hfree
  refine { distinct := hids ▸ ht.distinct.filter _, table := ht.table, issued := ?issued, references := ?references,
           held := ?held, typed := ?typed, kinds := ?kinds, own := ?own }
  case issued =>
    rw [hids]
    rw [World.remove, step, World.enter, Registry.unregister]
    dsimp only
    rw [Registry.lastId_removeName]
    exact fun id hid => ht.issued id (List.mem_filter.1 hid).1
  case references =>
    intro r hr
    have hr : r ∈ v.references := by
      obtain ⟨m, hm, hr⟩ := List.mem_flatMap.1 hr
      exact references_subset_of_mem (List.mem_filter.1 hm).1 hr
    refine hlive r (ht.references r hr) ?_
    rintro rfl
    exact hfree.2 (href ▸ hr)
  case held =>
    intro id hid
    refine hlive id (ht.held id hid) ?_
    rintro rfl
    exact hfree.1 (hheld ▸ hid)
  case typed => exact fun m hm => ht.typed m (List.mem_filter.1 hm).1
  case kinds => exact fun m hm => ht.kinds m (List.mem_filter.1 hm).1
  case own => exact fun m hm => ht.own m (List.mem_filter.1 hm).1

theorem addNode (hr : types.Regular) (h : Sound types w) {id : NodeId} {t : NodeType} (ht : t ∈ types)
    (hnew : id ∉ w.liveIds) (hissued : id.value ≤ w.registry.lastId) (environment : Environment) :
    Sound types (w.addNode id t.layout t.behavior environment) := by
  have hnodes : (w.addNode id t.layout t.behavior environment).nodes =
      w.nodes ++ [Node.fresh id t.layout t.behavior environment] := rfl
  have hids : (w.addNode id t.layout t.behavior environment).liveIds = w.liveIds ++ [id] := by
    rw [liveIds, hnodes, List.map_append]; rfl
  have hlive : ∀ r, w.isLive r = true →
      (w.addNode id t.layout t.behavior environment).isLive r = true := by
    intro r hr
    rw [← mem_liveIds, hids]
    exact List.mem_append_left _ (mem_liveIds.2 hr)
  have hmem : ∀ m ∈ (w.addNode id t.layout t.behavior environment).nodes,
      m ∈ w.nodes ∨ m = Node.fresh id t.layout t.behavior environment := by
    intro m hm
    rw [hnodes] at hm
    simpa using hm
  refine { table := h.table, distinct := ?distinct, issued := ?issued, references := ?references, held := ?held,
           typed := ?typed, kinds := ?kinds, own := ?own }
  case distinct =>
    rw [hids, List.nodup_append]
    refine ⟨h.distinct, List.nodup_singleton id, fun a ha b hb => ?_⟩
    rw [List.mem_singleton.1 hb]
    rintro rfl
    exact hnew ha
  case issued =>
    intro r hr'
    rw [hids] at hr'
    rcases List.mem_append.1 hr' with hr' | hr'
    · exact h.issued r hr'
    · rw [List.mem_singleton.1 hr']
      exact hissued
  case references =>
    intro r hr'
    obtain ⟨m, hm, hr'⟩ := List.mem_flatMap.1 hr'
    rcases hmem m hm with hm | rfl
    · exact hlive r (h.references r (references_subset_of_mem hm hr'))
    · obtain ⟨f, hf, hr'⟩ := List.mem_flatMap.1 hr'
      -- the first values of fields refer to nobody
      obtain ⟨e, he, rfl⟩ : ∃ e ∈ t.fields, e.initial = f := by
        simpa [Node.allFields, Node.fresh, Specification.instantiate, NodeType.layout] using hf
      rw [hr.initial t ht e he] at hr'
      cases hr'
  case held =>
    intro r hr'
    rcases List.mem_cons.1 hr' with rfl | hr'
    · rw [← mem_liveIds, hids]
      exact List.mem_append_right _ List.mem_cons_self
    · exact hlive r (h.held r hr')
  case typed =>
    intro m hm
    rcases hmem m hm with hm | rfl
    · exact h.typed m hm
    · exact ⟨t, ht, rfl, rfl⟩
  case kinds =>
    intro m hm
    rcases hmem m hm with hm | rfl
    · exact h.kinds m hm
    · simp [Node.fresh, Specification.instantiate]
  case own =>
    intro m hm hd
    rcases hmem m hm with hm | rfl
    · exact h.own m hm hd
    · exact absurd rfl hd

/-- The next id is nobody's. -/
theorem nextId_not_mem (h : Sound types w) : w.nextId.1 ∉ w.liveIds := by
  intro hmem
  have hle := h.issued _ hmem
  simp only [World.nextId, Registry.nextId] at hle
  omega

theorem nextId (h : Sound types w) : Sound types w.nextId.2 :=
  { h with issued := fun id hid => Nat.le_succ_of_le (h.issued id hid) }

theorem create (hr : types.Regular) (h : Sound types w) {t : NodeType} (ht : t ∈ types)
    (environment : Environment) : Sound types (w.create t.layout t.behavior environment).2 :=
  h.nextId.addNode hr ht h.nextId_not_mem (Nat.le_refl _) environment

theorem replaceChildren (h : Sound types w) {id : NodeId} {old new : List NodeId} {time : Timestamp}
    {after : Aftermath} (hnew : ∀ c ∈ new, w.isLive c = true) :
    Sound types (w.replaceChildren id old new time after).2 := by
  have hg := reparents_relink w id old new
  unfold World.replaceChildren
  dsimp only
  split
  · exact (h.reparents hg).storeChildren (isLive_congr hg.liveIds ▸ hnew)
  · exact h.storeChildren hnew

theorem adoptChildren (h : Sound types w) (id : NodeId) : Sound types (w.adoptChildren id).2 := by
  obtain ⟨haccepted, hquiet⟩ := accept_spec w id (w.children id)
  have hlive : ∀ c ∈ (w.accept id (w.children id)).1, (w.accept id (w.children id)).2.2.isLive c = true := by
    rw [haccepted, isLive_congr hquiet.liveIds]
    exact fun c hc => h.children id c (List.mem_filter.1 hc).1
  have hs := h.reparents hquiet
  unfold World.adoptChildren
  dsimp only
  split
  · exact (hs.storeChildren hlive).reparents (Reparents.foldl (fun w c => .modify w c _) _ _)
  · exact hs.reparents (Reparents.foldl (fun w c => .modify w c _) _ _)

/-- **Changes keep a world sound.** -/
theorem change (hr : types.Regular) (h : Sound types w) (hc : Change types w w') : Sound types w' := by
  cases hc with
  | entered e he => exact h.enter e
  | cascaded stack => exact h.congr rfl rfl rfl h.held
  | held ids hids =>
    exact h.congr rfl rfl rfl fun id hid => (List.mem_append.1 hid).elim (hids id) (h.held id)
  | unheld ids => exact h.congr rfl rfl rfl fun id hid => h.held id (mem_of_mem_foldl_erase hid)
  | learned t ht =>
    exact { h with table := fun s hs => (List.mem_append.1 hs).elim (h.table s) fun hs =>
              ⟨t, ht, List.mem_singleton.1 hs⟩ }
  | created t environment ht => exact h.create hr ht environment
  | destroyed n hn hfree => exact h.destroy hfree
  | named id name =>
    -- renaming touches the registry too, but it hands out no id
    obtain ⟨heq, -⟩ | ⟨n, -, -, heq⟩ := setName_cases w id name <;> rw [heq]
    · exact h
    · have hs : Sound types (w.modify id fun n => { n with name }) :=
        h.modify_fields (fun _ => ⟨rfl, rfl, rfl⟩) fun _ => ⟨rfl, rfl⟩
      exact hs.congr rfl (Registry.lastId_rename _ _ _ _) rfl hs.held
  | stored n name old value hn hold hkind hlive _ => exact h.store hn hold hkind hlive
  | relinked n next time after hn _ _ hlive _ => exact h.replaceChildren hlive
  | marked n hn _ => exact h.mark n.id
  | adopted n hn _ _ =>
    exact ((h.mark n.id).enter (.step (.adopting n.id))).adoptChildren n.id
  | finished id time _ =>
    exact runSetUp_induction id time (fun v hv => hv.modify_fields (fun _ => ⟨rfl, rfl, rfl⟩) fun _ => ⟨rfl, rfl⟩)
      (fun v hv => hv.enter _) (fun v e hv => hv.enter _)
      (fun v object hv => hv.modify_fields (fun _ => ⟨rfl, rfl, rfl⟩) fun _ => ⟨rfl, rfl⟩) h
  | extended n name value hn hdynamic hnew hlive =>
    refine h.modify (fun _ => ⟨rfl, rfl, rfl⟩) (fun _ _ => rfl) (fun m hm r hr => ?_) fun m hm _ => ?_
    · obtain rfl : n = m := Option.some.inj (hn.symm.trans hm)
      rw [Node.references_append_dynamic] at hr
      rcases List.mem_append.1 hr with hr | hr
      · exact h.references r (references_subset_of_mem (mem_nodes_of_node? hn) hr)
      · exact hlive r hr
    · obtain rfl : n = m := Option.some.inj (hn.symm.trans hm)
      exact .inr hdynamic
  | reduced id name =>
    refine h.modify (fun _ => ⟨rfl, rfl, rfl⟩) (fun _ _ => rfl) (fun m hm r hr => ?_) fun m hm hd => ?_
    · exact h.references r (references_subset_of_mem (mem_nodes_of_node? hm)
        (Node.references_filter_dynamic_subset m name hr))
    · refine .inl fun he => hd ?_
      rw [he]
      rfl
  | connected id output route =>
    obtain ⟨routes, heq⟩ := modify_addConnection_eq w id output route
    exact heq ▸ h.modify_fields (fun _ => ⟨rfl, rfl, rfl⟩) fun _ => ⟨rfl, rfl⟩
  | disconnected id output route =>
    obtain ⟨routes, heq⟩ := modify_removeConnection_eq w id output route
    exact heq ▸ h.modify_fields (fun _ => ⟨rfl, rfl, rfl⟩) fun _ => ⟨rfl, rfl⟩
  | forgotten n hn _ =>
    refine h.modify (fun _ => ⟨rfl, rfl, rfl⟩) (fun m hm => ?_) (fun m hm r hr' => ?_) fun m hm hd => ?_
    · exact kinds_forget (h.kinds m (mem_nodes_of_node? hm))
    -- a node that forgets its references has none
    · rw [h.references_forget hr (mem_nodes_of_node? hm)] at hr'
      cases hr'
    · refine .inl fun he => hd ?_
      rw [Node.forget, he]
      rfl

/-- A world stays sound along every run. -/
theorem leads (hr : types.Regular) (h : Sound types w) (hl : Leads types w w') : Sound types w' := by
  induction hl with
  | refl => exact h
  | tail _ hc ih => exact ih.change hr hc

end Sound

end World

end SceneGraph
