import SceneGraph.Proofs.Document.Invariants
import SceneGraph.Proofs.Document.Roots

/-!
# The root of a scene that is read

While a document is read nobody knows the root of its scene: no node refers to it, and it goes by no
name. So nothing that a document says reaches it, and it is as bare at the end of the last statement as it
was made (`World.BareRoot`). This holds for every catalog whose types start without references.

* `World.Secluded`: a node that nobody refers to, and that is held.
* `World.BareRoot.invariant`: readers leave the root bare.
-/

namespace SceneGraph

/-- The first values refer to no node. -/
def Specification.IsFree (s : Specification) : Prop := ∀ e ∈ s.entries, e.initial.references = []

namespace Node

variable {n : Node}

/-- Only the fields of nodes refer to nodes, and those that are forgotten do not. -/
theorem references_forget (h : n.spec.IsFree) : n.forget.references = [] := by
  rw [references, List.flatMap_eq_nil_iff]
  intro f hf
  rcases List.mem_append.1 hf with hf | hf
  · obtain ⟨⟨g, e⟩, hge, rfl⟩ := List.mem_map.1 hf
    dsimp only
    split
    · exact h e (List.of_mem_zip hge).2
    · exact Field.references_eq_nil ‹_›
  · obtain ⟨e, he, rfl⟩ := List.mem_map.1 hf
    exact Field.references_eq_nil (by simpa using (List.mem_filter.1 he).2)

theorem references_fresh {id : NodeId} {spec : Specification} {b : Behavior} {env : Environment}
    (h : spec.IsFree) : (fresh id spec b env).references = [] := by
  rw [references, List.flatMap_eq_nil_iff]
  intro f hf
  rcases List.mem_append.1 hf with hf | hf
  · obtain ⟨e, he, rfl⟩ := List.mem_map.1 hf
    exact h e he
  · cases hf

end Node

namespace World

variable {w w' : World} {root : NodeId} {P : Node → Prop} {env : Environment}

/-! ### Secluded nodes -/

/-- A node that is held, that nobody refers to, and that is as `P` tells. -/
structure Secluded (root : NodeId) (P : Node → Prop) (w : World) : Prop where
  node : ∃ n, w.node? root = some n ∧ P n
  unreferenced : root ∉ w.references
  held : root ∈ w.held

namespace Secluded

theorem congr (h : Secluded root P w) (hn : w'.nodes = w.nodes) (hheld : root ∈ w'.held) :
    Secluded root P w' :=
  ⟨by rw [node?_congr hn]; exact h.node, by rw [references, hn]; exact h.unreferenced, hheld⟩

theorem not_mem_references (h : Secluded root P w) {n : Node} (hn : n ∈ w.nodes) : root ∉ n.references :=
  fun hr => h.unreferenced (references_subset_of_mem hn hr)

theorem modify (h : Secluded root P w) {id : NodeId} {f : Node → Node} (hf : ∀ n, (f n).id = n.id)
    (hrefs : ∀ n ∈ w.nodes, root ∉ (f n).references) (hP : id = root → ∀ n, P n → P (f n)) :
    Secluded root P (w.modify id f) := by
  obtain ⟨n, hn, hPn⟩ := h.node
  refine ⟨?_, fun hr => ?_, h.held⟩
  · by_cases hid : id = root
    · subst hid
      exact ⟨f n, by rw [node?_modify_self w id hf, hn]; rfl, hP rfl n hPn⟩
    · exact ⟨n, by rw [node?_modify_of_ne w hf (Ne.symm hid), hn], hPn⟩
  · obtain ⟨m, hm, hr⟩ := List.mem_flatMap.1 hr
    obtain ⟨k, hk, rfl⟩ := List.mem_map.1 hm
    split at hr
    · exact hrefs k hk hr
    · exact h.not_mem_references hk hr

/-- A change that has nothing to do with references. -/
theorem modify_keep (h : Secluded root P w) {id : NodeId} {f : Node → Node} (hf : ∀ n, (f n).id = n.id)
    (hrefs : ∀ n, (f n).references = n.references) (hP : id = root → ∀ n, P n → P (f n)) :
    Secluded root P (w.modify id f) :=
  h.modify hf (fun n hn => (hrefs n).symm ▸ h.not_mem_references hn) hP

/-- Other nodes count their parents as they like. -/
theorem reparents {g : NodeId → List (NodeId × Nat) → List (NodeId × Nat)} (h : Secluded root P w)
    (hp : Reparents g w w') (hg : ∀ ps, g root ps = ps) : Secluded root P w' := by
  obtain ⟨n, hn, hPn⟩ := h.node
  obtain rfl := id_of_node? hn
  refine ⟨⟨n, ?_, hPn⟩, fun hr => ?_, hp.held ▸ h.held⟩
  · rw [hp.node?, hn, Option.map_some, hg]
  · obtain ⟨m, hm, hr⟩ := List.mem_flatMap.1 hr
    rw [hp.nodes] at hm
    obtain ⟨k, hk, rfl⟩ := List.mem_map.1 hm
    exact h.not_mem_references hk hr

theorem count_eq_zero (h : Secluded root P w) {n : Node} (hn : n ∈ w.nodes) {ids : List NodeId}
    (hids : ids ⊆ n.references) : ids.count root = 0 :=
  List.count_eq_zero_of_not_mem fun hr => h.not_mem_references hn (hids hr)

theorem destroy (h : Secluded root P w) {n : Node} (hn : w.node? n.id = some n) (hne : n.id ≠ root) :
    Secluded root P (w.destroy n) := by
  have hclaimed := h.count_eq_zero (mem_nodes_of_node? hn) (claimed_subset n)
  have hleave : Secluded root P (w.takeLeave n) :=
    h.reparents (reparents_takeLeave w n) fun ps => by rw [hclaimed]; rfl
  have h' := hleave.congr (nodes_reportParents _ n.id) (by rw [held_reportParents]; exact hleave.held)
  rw [World.destroy]
  obtain ⟨m, hm, hPm⟩ := h'.node
  refine ⟨⟨m, ?_, hPm⟩, fun hr => ?_, h'.held⟩
  · rw [node?_remove, if_neg (Ne.symm hne), hm]
  · obtain ⟨k, hk, hr⟩ := List.mem_flatMap.1 hr
    exact h'.not_mem_references (List.mem_filter.1 hk).1 hr

theorem ne_of_free (h : Secluded root P w) {n : Node} (hfree : w.isHeld n.id = false) : n.id ≠ root := by
  intro hid
  rw [hid, isHeld, List.contains_iff_mem.2 h.held, Bool.true_or] at hfree
  cases hfree

theorem release (h : Secluded root P w) (ids : List NodeId) : Secluded root P (release ids w) :=
  release_induction (fun _ _ hn hfree h => h.destroy hn (h.ne_of_free hfree)) ids h

theorem dropAll (h : Secluded root P w) {ids : List NodeId} (hids : root ∉ ids) :
    Secluded root P (w.dropAll ids) := by
  have hheld : Secluded root P { w with held := ids.foldl List.erase w.held } :=
    h.congr rfl (mem_foldl_erase hids h.held)
  exact hheld.release ids

end Secluded

/-! ### Bare roots -/

/-- The root of a scene is as it was made, and nobody knows it. Types start without references. -/
structure BareRoot (env : Environment) (w : World) : Prop where
  secluded : Secluded env.scene (· = .fresh env.scene Scene.nodeType.layout .grouping env) w
  unnamed : ∀ e ∈ w.registry.names, e.2 ≠ env.scene
  issued : env.scene.value ≤ w.registry.lastId
  idle : w.cascade = []
  tables : ∀ s ∈ w.specifications, s.IsFree
  layouts : ∀ n ∈ w.nodes, n.spec.IsFree

namespace BareRoot

theorem node (h : BareRoot env w) :
    w.node? env.scene = some (.fresh env.scene Scene.nodeType.layout .grouping env) := by
  obtain ⟨n, hn, rfl⟩ := h.secluded.node
  exact hn

theorem modify (h : BareRoot env w) {id : NodeId} {f : Node → Node} (hid : id ≠ env.scene)
    (hf : ∀ n, (f n).id = n.id ∧ (f n).spec = n.spec)
    (hrefs : ∀ n ∈ w.nodes, env.scene ∉ (f n).references) : BareRoot env (w.modify id f) where
  secluded := h.secluded.modify (fun n => (hf n).1) hrefs fun hroot => absurd hroot hid
  unnamed := h.unnamed
  issued := h.issued
  idle := h.idle
  tables := h.tables
  layouts m hm := by
    obtain ⟨n, hn, rfl⟩ := List.mem_map.1 hm
    split
    · rw [(hf n).2]
      exact h.layouts n hn
    · exact h.layouts n hn

theorem destroy (h : BareRoot env w) {n : Node} (hn : w.node? n.id = some n) (hfree : w.isHeld n.id = false) :
    BareRoot env (w.destroy n) := by
  have hregistry : ((w.takeLeave n).reportParents n.id).registry = w.registry := by
    rw [registry_reportParents, (reparents_takeLeave w n).registry]
  have hspecifications : ((w.takeLeave n).reportParents n.id).specifications = w.specifications := by
    rw [specifications_reportParents, (reparents_takeLeave w n).specifications]
  have hnodes := nodes_reportParents (w.takeLeave n) n.id
  refine { secluded := h.secluded.destroy hn (h.secluded.ne_of_free hfree), unnamed := fun e he => ?unnamed,
           issued := ?issued, idle := ?idle, tables := ?tables, layouts := fun m hm => ?layouts }
  case unnamed =>
    have he : e ∈ w.registry.names := hregistry ▸ Registry.mem_of_mem_unregister he
    exact h.unnamed e he
  case issued =>
    have hlast : (w.destroy n).registry.lastId = w.registry.lastId :=
      (Registry.lastId_removeName _ n.id n.name).trans (congrArg Registry.lastId hregistry)
    rw [hlast]
    exact h.issued
  case idle =>
    rw [cascade_destroy]
    exact h.idle
  case tables =>
    have htable : (w.destroy n).specifications = w.specifications := hspecifications
    rw [htable]
    exact h.tables
  case layouts =>
    have hm : m ∈ ((w.takeLeave n).reportParents n.id).nodes := (List.mem_filter.1 hm).1
    rw [hnodes, (reparents_takeLeave w n).nodes] at hm
    obtain ⟨k, hk, rfl⟩ := List.mem_map.1 hm
    exact h.layouts k hk

theorem release (h : BareRoot env w) (ids : List NodeId) : BareRoot env (release ids w) :=
  release_induction (fun _ _ hn hfree h => h.destroy hn hfree) ids h

theorem dropAll (h : BareRoot env w) {ids : List NodeId} (hids : env.scene ∉ ids) :
    BareRoot env (w.dropAll ids) := by
  have hheld : BareRoot env { w with held := ids.foldl List.erase w.held } :=
    { h with secluded := h.secluded.congr rfl (mem_foldl_erase hids h.secluded.held) }
  exact hheld.release ids

theorem setName (h : BareRoot env w) {id : NodeId} (hid : id ≠ env.scene) (name : String) :
    BareRoot env (w.setName id name) := by
  obtain ⟨heq, -⟩ | ⟨n, -, -, heq⟩ := setName_cases w id name <;> rw [heq]
  · exact h
  have hmodify : BareRoot env (w.modify id fun n => { n with name }) :=
    h.modify hid (fun _ => ⟨rfl, rfl⟩) fun m hm hr => h.secluded.not_mem_references hm hr
  refine { hmodify with
    secluded := hmodify.secluded.congr rfl hmodify.secluded.held
    unnamed := ?_
    issued := ?_ }
  · intro e he
    rcases Registry.mem_or_eq_of_mem_rename he with he | rfl
    · exact h.unnamed e he
    · exact hid
  · have hlast : (w.registry.rename id n.name name).lastId = w.registry.lastId :=
      Registry.lastId_rename _ _ _ _
    exact h.issued.trans (Nat.le_of_eq hlast.symm)

theorem initField (h : BareRoot env w) {id : NodeId} (hid : id ≠ env.scene) (name : String) {value : Field}
    (hvalue : env.scene ∉ value.references) : BareRoot env (w.initField id name value).2 := by
  obtain heq | ⟨n, old, -, -, -, heq⟩ := initField_cases w id name value <;> rw [heq]
  · exact h
  · have hstored : BareRoot env (w.modify id (·.store name value)) :=
      h.modify hid (fun m => ⟨Node.store_id m _ _, Node.store_spec m _ _⟩) fun m hm hr =>
        (Node.references_store hr).elim (h.secluded.not_mem_references hm) hvalue
    have hnoted : BareRoot env ((w.modify id (·.store name value)).step (.stored id name value)) :=
      { hstored with secluded := hstored.secluded.congr rfl hstored.secluded.held }
    exact hnoted.release _

theorem addField (h : BareRoot env w) {id : NodeId} (hid : id ≠ env.scene) (name : String) (k : Kind) :
    BareRoot env (w.addField id name (.initial k)).2 := by
  obtain ⟨-, heq⟩ | ⟨e, heq⟩ | ⟨n, -, -, -, heq⟩ := addField_cases w id name (.initial k) <;> rw [heq]
  · exact h
  · exact h
  · refine h.modify hid (fun _ => ⟨rfl, rfl⟩) fun m hm => ?_
    rw [Node.references_append_dynamic, Field.references_initial, List.append_nil]
    exact h.secluded.not_mem_references hm

theorem addConnection (h : BareRoot env w) {id : NodeId} (hid : id ≠ env.scene) (output : String)
    (route : Route) : BareRoot env (w.addConnection id output route).2 := by
  obtain heq | ⟨routes, heq⟩ := addConnection_cases w id output route <;> rw [heq]
  · exact h
  · refine h.modify hid (fun _ => ⟨rfl, rfl⟩) fun m hm => ?_
    change env.scene ∉ m.references
    exact h.secluded.not_mem_references hm

theorem discard (h : BareRoot env w) {id : NodeId} (hid : id ≠ env.scene) : BareRoot env (w.discard id) := by
  have hnameless := h.setName hid ""
  unfold World.discard
  refine (hnameless.modify (f := Node.forget) hid (fun _ => ⟨rfl, rfl⟩) fun m hm => ?_).release _
  rw [Node.references_forget (hnameless.layouts m hm)]
  exact List.not_mem_nil

/-- A node that goes by a name is not the root. -/
theorem ne_of_findInScene? (h : BareRoot env w) {name : String} {scene : NodeId} {n : Node}
    (hn : w.findInScene? name scene = some n) : n.id ≠ env.scene := by
  have hmem : n ∈ w.named name := List.mem_of_find?_eq_some hn
  obtain ⟨id, hid, hnode⟩ := List.mem_filterMap.1 hmem
  obtain rfl := id_of_node? hnode
  obtain ⟨e, he, hid⟩ := List.mem_map.1 hid
  exact hid ▸ h.unnamed e (List.mem_filter.1 he).1

theorem createOfType (h : BareRoot env w) {catalog : Catalog} (hcatalog : ∀ t ∈ catalog, t.layout.IsFree)
    {typeName : String} {environment : Environment} {id : Option NodeId}
    (hcreate : w.createOfType catalog typeName environment = .ok (id, w')) :
    BareRoot env w' ∧ ∀ r ∈ id, r ≠ env.scene := by
  obtain ⟨rfl, rfl⟩ | ⟨t, ht, spec, v, hspec, rfl, rfl⟩ := createOfType_cases hcreate
  · exact ⟨h, nofun⟩
  -- the layout comes out of the table, or it is that of the catalog
  obtain ⟨hv, hfree⟩ : BareRoot env v ∧ spec.IsFree := by
    obtain ⟨rfl, hmet, -⟩ | ⟨-, rfl, rfl⟩ := specification_cases hspec
    · exact ⟨h, h.tables spec hmet⟩
    · refine ⟨{ h with
        secluded := h.secluded.congr rfl h.secluded.held
        tables := fun s hs => (List.mem_append.1 hs).elim (h.tables s) fun hs =>
          List.mem_singleton.1 hs ▸ hcatalog t ht }, hcatalog t ht⟩
  have hissued := hv.issued
  have hne : (⟨v.registry.lastId + 1⟩ : NodeId) ≠ env.scene := by
    intro hid
    rw [← hid] at hissued
    exact absurd hissued (Nat.not_succ_le_self _)
  refine ⟨⟨⟨⟨_, ?_, rfl⟩, fun hr => ?_, List.mem_cons_of_mem _ hv.secluded.held⟩, hv.unnamed,
    Nat.le_succ_of_le hv.issued, hv.idle, hv.tables, fun m hm => ?_⟩, fun r hr => ?_⟩
  · refine (node?_addNode _ _ _ _ _ _).trans ?_
    rw [if_neg hne, Option.or_none]
    exact hv.node
  · obtain ⟨m, hm, hr⟩ := List.mem_flatMap.1 hr
    rcases List.mem_append.1 hm with hm | hm
    · exact hv.secluded.not_mem_references hm hr
    · rw [List.mem_singleton.1 hm, Node.references_fresh hfree] at hr
      cases hr
  · rcases List.mem_append.1 hm with hm | hm
    · exact hv.layouts m hm
    · rw [List.mem_singleton.1 hm]
      exact hfree
  · obtain rfl : (⟨v.registry.lastId + 1⟩ : NodeId) = r := Option.some.inj hr
    exact hne

/-- The source of a route goes by a name. -/
theorem findInScene?_of_resolveRoute {scene : NodeId} {r : RouteText} {a b : Node} {output input : String}
    (hr : w.resolveRoute scene r = .ok (a, output, b, input)) : w.findInScene? r.source scene = some a := by
  unfold resolveRoute at hr
  split at hr
  · cases hr
  rename_i a' ha
  dsimp only at hr
  split at hr
  · cases hr
  split at hr
  · cases hr
  split at hr
  · cases hr
  split at hr
  · cases hr
  split at hr
  · cases hr
  split at hr
  · cases hr
  · obtain ⟨rfl, -⟩ := Prod.mk.inj (Except.ok.inj hr)
    exact ha

/-- **Readers leave the root bare.** -/
theorem invariant {ctx : DocumentContext} (hcatalog : ∀ t ∈ ctx.catalog, t.layout.IsFree) :
    Reader.Invariant ctx (BareRoot ctx.environment) (· ≠ ctx.environment.scene) where
  enter _ _ h := { h with secluded := h.secluded.congr rfl h.secluded.held }
  create _ _ _ _ h hcreate := h.createOfType hcatalog hcreate
  hold _ _ _ h hn :=
    ⟨{ h with secluded := h.secluded.congr rfl (List.mem_cons_of_mem _ h.secluded.held) },
      h.ne_of_findInScene? hn⟩
  setName _ _ name h hid := h.setName hid name
  initField _ _ name _ h hid hvalue := h.initField hid name fun hr => hvalue _ hr rfl
  addField _ _ name k h hid := h.addField hid name k
  connect _ _ _ output _ _ h hr :=
    h.addConnection (h.ne_of_findInScene? (findInScene?_of_resolveRoute hr)) output _
  discard _ _ h hid := h.discard hid
  dropAll _ _ h hids := h.dropAll fun hr => hids _ hr rfl

end BareRoot

/-! ### Set-up -/

/-- A node that is no child and lists some nodes as its children. -/
def Tops (ids : List NodeId) (n : Node) : Prop := n.parents = [] ∧ n.nodesIn childrenField = ids

namespace Secluded

variable {ids : List NodeId}

theorem enter (h : Secluded root P w) (e : Entry) : Secluded root P (w.enter e) := h.congr rfl h.held

theorem children (h : Secluded root (Tops ids) w) : w.children root = ids := by
  obtain ⟨n, hn, -, hids⟩ := h.node
  rw [World.children, hn]
  exact hids

theorem not_mem_children (h : Secluded root P w) (id : NodeId) : root ∉ w.children id := by
  unfold World.children
  cases hn : w.node? id with
  | none => exact List.not_mem_nil
  | some n =>
    exact fun hr => h.not_mem_references (mem_nodes_of_node? hn) (Node.nodesIn_subset n childrenField hr)

theorem not_mem_referencesOf (h : Secluded root P w) (id : NodeId) : root ∉ w.referencesOf id := by
  unfold World.referencesOf
  cases hn : w.node? id with
  | none => exact List.not_mem_nil
  | some n => exact h.not_mem_references (mem_nodes_of_node? hn)

/-- A node that is no child is its only ancestor, so it keeps all children. -/
theorem accept_root (h : Secluded root (Tops ids) w) :
    (w.accept root (w.children root)).1 = w.children root := by
  obtain ⟨n, hn, hparents, -⟩ := h.node
  have hancestors : w.ancestors root = [root] := by
    have hup : w.parentsOf root = [] := by
      rw [parentsOf, hn]
      exact congrArg (List.map Prod.fst) hparents
    rw [ancestors, hup, preorder]
  rw [(accept_spec w root (w.children root)).1, List.filter_eq_self, hancestors]
  intro c hc
  have hne : c ≠ root := fun hcr => h.not_mem_children root (hcr ▸ hc)
  simpa using hne

theorem storeChildren (h : Secluded root P w) {id : NodeId} (hid : id ≠ root) (old : List NodeId)
    {new : List NodeId} (hnew : root ∉ new) (time : Timestamp) (after : Aftermath) :
    Secluded root P (w.storeChildren id old new time after).2 := by
  obtain heq | ⟨n, f, -, -, -, heq⟩ := storeChildren_cases w id old new time after <;> rw [heq]
  · exact h
  · refine enter (h.modify (fun m => Node.store_id m _ _) (fun m hm hr => ?_) fun hroot => absurd hroot hid) _
    rcases Node.references_store hr with hr | hr
    · exact h.not_mem_references hm hr
    · rw [Field.references_nodes] at hr
      exact hnew hr

theorem adoptChildren (h : Secluded root (Tops ids) w) (id : NodeId) :
    Secluded root (Tops ids) (w.adoptChildren id).2 := by
  obtain ⟨haccepted, hquiet⟩ := accept_spec w id (w.children id)
  have hv : Secluded root (Tops ids) (w.accept id (w.children id)).2.2 := h.reparents hquiet fun _ => rfl
  have hnew : root ∉ (w.accept id (w.children id)).1 := by
    rw [haccepted]
    exact fun hr => h.not_mem_children id (List.mem_filter.1 hr).1
  have hclaim : ∀ {v : World}, Secluded root (Tops ids) v →
      Secluded root (Tops ids) ((w.accept id (w.children id)).1.foldl (fun w c => w.addParent c id) v) := by
    intro v hv
    refine hv.reparents (.foldl (fun w c => .modify w c _) v _) fun ps => ?_
    rw [List.count_eq_zero_of_not_mem hnew]
    rfl
  unfold World.adoptChildren
  dsimp only
  split
  · rename_i hcut
    have hid : id ≠ root := by
      rintro rfl
      exact hcut (congrArg List.length h.accept_root)
    exact hclaim (hv.storeChildren hid _ hnew _ _)
  · exact hclaim hv

theorem runAdopt (h : Secluded root (Tops ids) w) (id : NodeId) : Secluded root (Tops ids) (w.runAdopt id) := by
  unfold World.runAdopt
  split
  · rename_i n hn
    have hadopt : Secluded root (Tops ids) ((w.step (.adopting id)).adopt n).2 := by
      obtain ⟨-, heq⟩ | ⟨-, heq | heq⟩ := adopt_cases (w.step (.adopting id)) n <;> rw [heq]
      · exact (h.enter _).adoptChildren n.id
      · exact h.enter _
      · exact (h.enter _).enter _
    dsimp only
    rw [settle, emitted_adopt]
    exact hadopt.release _
  · exact h

theorem runSetUp (h : Secluded root (Tops ids) w) (id : NodeId) (time : Timestamp) :
    Secluded root (Tops ids) (w.runSetUp id time) :=
  runSetUp_induction id time (fun _ hv => hv.modify_keep (fun _ => rfl) (fun _ => rfl) fun _ _ hP => hP)
    (fun _ hv => hv.enter _) (fun _ _ hv => hv.enter _)
    (fun _ _ hv => hv.modify_keep (fun _ => rfl) (fun _ => rfl) fun _ _ hP => hP) h

/-- **Setting nodes up** leaves the children of such a node alone, by induction on how deep it goes. -/
theorem initializeUpTo (time : Timestamp) (depth : Nat) (h : Secluded root (Tops ids) w) (id : NodeId) :
    Secluded root (Tops ids) (initializeUpTo time depth w id) := by
  induction depth generalizing w id with
  | zero => exact h
  | succ depth ih =>
    unfold World.initializeUpTo
    split
    · exact h
    split
    · exact h
    have hmarked : Secluded root (Tops ids) (w.modify id fun n => { n with initialized := true }) :=
      h.modify_keep (fun _ => rfl) (fun _ => rfl) fun _ _ hP => hP
    have hadopted := hmarked.runAdopt id
    have hrefs := hadopted.not_mem_referencesOf id
    have hall : ∀ (refs : List NodeId) {v : World}, Secluded root (Tops ids) v →
        Secluded root (Tops ids) (refs.foldl (World.initializeUpTo time depth) v) := by
      intro refs
      induction refs with
      | nil => exact fun hv => hv
      | cons r refs ihrefs => exact fun hv => ihrefs (ih hv r)
    have hheld : Secluded root (Tops ids)
        (((w.modify id fun n => { n with initialized := true }).runAdopt id).holdAll
          (((w.modify id fun n => { n with initialized := true }).runAdopt id).referencesOf id)) :=
      hadopted.congr rfl (List.mem_append_right _ hadopted.held)
    exact ((hall _ hheld).dropAll hrefs).runSetUp id time

end Secluded

end World

end SceneGraph
