import SceneGraph.Proofs.Document.Roots
import SceneGraph.Proofs.Document.SetUp
import SceneGraph.Proofs.World.Fields
import SceneGraph.Proofs.World.Registration

/-!
# Nothing lives that nobody holds

A node is destroyed as soon as its last holder lets go. While something is being let go of, the nodes that
may have lost their last holder are on a list (`World.Upheld`), and the release of that list destroys those
that did, together with whatever they alone had held.

* `Upheld.release`: after a release every node that is left is held.
* `Upheld.initField`, `Upheld.discard`, `Upheld.initializeUpTo`: so it is after whatever readers do, and
  after a set-up.
-/

namespace SceneGraph

namespace World

variable {w w' : World} {ids lost : List NodeId} {id : NodeId}

theorem isHeld_iff : w.isHeld id = true ↔ id ∈ w.held ∨ ∃ n ∈ w.nodes, id ∈ n.references := by
  simp only [isHeld, World.references, Bool.or_eq_true, List.contains_iff_mem, List.mem_flatMap]

theorem liveIds_eq_graph (w : World) : w.liveIds = w.graph.map (·.1) := by
  rw [liveIds, graph, List.map_map]
  rfl

/-- Every live node is held or one of the given nodes. The registry is in order, and so are the names of
fields. -/
structure Upheld (ids : List NodeId) (w : World) : Prop where
  recorded : ∃ h, Recorded h w
  distinct : ∀ id n, w.node? id = some n → n.Distinct
  held : ∀ id ∈ w.liveIds, w.isHeld id = true ∨ id ∈ ids

namespace Upheld

theorem empty : Upheld [] {} := ⟨⟨{}, .empty⟩, fun _ _ h => by simp [World.node?] at h, by simp [liveIds]⟩

theorem nodup (h : Upheld ids w) : w.liveIds.Nodup := h.recorded.elim fun _ hw => hw.nodup_liveIds

theorem mono {ids' : List NodeId} (h : Upheld ids w) (hids : ids ⊆ ids') : Upheld ids' w :=
  ⟨h.recorded, h.distinct, fun id hid => (h.held id hid).imp_right (@hids id)⟩

/-- Only who refers to whom and the handles matter. -/
theorem of_graph (h : Upheld ids w) (hrecorded : ∃ h, Recorded h w')
    (hdistinct : ∀ id n, w'.node? id = some n → n.Distinct) (hgraph : w'.graph = w.graph)
    (hheld : w.held ⊆ w'.held) : Upheld ids w' := by
  refine ⟨hrecorded, hdistinct, fun id hid => ?_⟩
  rw [liveIds_eq_graph, hgraph, ← liveIds_eq_graph] at hid
  refine (h.held id hid).imp_left fun hisHeld => ?_
  simp only [isHeld, references_eq_graph, hgraph, Bool.or_eq_true, List.contains_iff_mem] at hisHeld ⊢
  exact hisHeld.imp_left (@hheld id)

theorem enter (h : Upheld ids w) (e : Entry) : Upheld ids (w.enter e) :=
  h.of_graph (h.recorded.imp fun _ hw => hw.kept (.enter w e)) h.distinct rfl fun _ hid => hid

theorem holdAll (h : Upheld ids w) (more : List NodeId) : Upheld ids (w.holdAll more) :=
  h.of_graph (h.recorded.imp fun _ hw => hw.kept ⟨rfl, rfl⟩) h.distinct rfl (List.subset_append_right _ _)

/-- A change that only destroys nodes takes no care of field names. -/
theorem of_retains (h : Upheld ids w) (hr : Retains w w') :
    ∀ id n, w'.node? id = some n → n.Distinct := by
  intro id m hm
  obtain ⟨n, hn, hmn⟩ := hr.resembles id m hm
  exact (h.distinct id n hn).resembles hmn

/-- A node lets go of some of its references. -/
theorem modify (h : Upheld ids w) {f : Node → Node} (hf : ∀ n, (f n).identity = n.identity)
    (hdistinct : ∀ n, n.Distinct → (f n).Distinct)
    (hlost : ∀ n, w.node? id = some n → n.references ⊆ (f n).references ++ lost) :
    Upheld (ids ++ lost) (w.modify id f) := by
  have hid : ∀ n, (f n).id = n.id := fun n => congrArg Identity.id (hf n)
  refine ⟨h.recorded.imp fun _ hw => hw.kept (.modify w id hf), fun other m hm => ?_, fun other hother => ?_⟩
  · rw [node?_modify w id other hid] at hm
    obtain ⟨n, hn, rfl⟩ := Option.map_eq_some_iff.1 hm
    split
    · exact hdistinct n (h.distinct other n hn)
    · exact h.distinct other n hn
  · rw [liveIds_modify w id hid] at hother
    rcases h.held other hother with hheld | hheld
    · rcases isHeld_iff.1 hheld with hheld | ⟨n, hn, hr⟩
      · exact .inl (isHeld_iff.2 (.inl hheld))
      · by_cases hn' : n.id = id
        · have hfound : w.node? id = some n := hn' ▸ node?_of_mem h.nodup hn
          rcases List.mem_append.1 (hlost n hfound hr) with hr | hr
          · exact .inl (isHeld_iff.2 (.inr ⟨f n, List.mem_map.2 ⟨n, hn, if_pos hn'⟩, hr⟩))
          · exact .inr (List.mem_append_right _ hr)
        · exact .inl (isHeld_iff.2 (.inr ⟨n, List.mem_map.2 ⟨n, hn, if_neg hn'⟩, hr⟩))
    · exact .inr (List.mem_append_left _ hheld)

/-- A change that has nothing to do with fields. -/
theorem touch (h : Upheld ids w) (id : NodeId) {f : Node → Node} (hf : ∀ n, (f n).identity = n.identity)
    (hfields : ∀ n, (f n).fields = n.fields ∧ (f n).dynamic = n.dynamic) : Upheld ids (w.modify id f) := by
  have hspec : ∀ n, (f n).spec = n.spec := fun n => congrArg Identity.spec (hf n)
  refine List.append_nil ids ▸ h.modify hf (fun n hn => hn.of_names (hspec n) ?_) fun n _ r hr => ?_
  · rw [Node.dynamicNames, (hfields n).2]
    exact .refl _
  · rwa [List.append_nil, Node.references, Node.allFields, (hfields n).1, (hfields n).2]

theorem reparents {g : NodeId → List (NodeId × Nat) → List (NodeId × Nat)} (h : Upheld ids w)
    (hr : Reparents g w w') (hretains : Retains w w') : Upheld ids w' := by
  refine h.of_graph (h.recorded.imp fun _ hw => hw.kept (.reparents hr)) (h.of_retains hretains) ?_ ?_
  · rw [graph, hr.nodes, List.map_map]
    rfl
  · rw [hr.held]
    exact fun _ hid => hid

/-! ### Letting go -/

/-- A node that goes leaves its references to be let go of. -/
theorem destroy {n : Node} (h : Upheld (id :: ids) w) (hn : w.node? id = some n) :
    Upheld (n.references ++ ids) (w.destroy n) := by
  obtain rfl := id_of_node? hn
  refine ⟨h.recorded.imp fun _ hw => hw.destroy hn, h.of_retains (calm_destroy w n).toRetains, fun other hother => ?_⟩
  rw [liveIds_destroy] at hother
  obtain ⟨hlive, hne⟩ := List.mem_filter.1 hother
  have hne : other ≠ n.id := by simpa using hne
  rcases h.held other hlive with hheld | hmem
  · rcases isHeld_iff.1 hheld with hheld | ⟨m, hm, hr⟩
    · exact .inl (isHeld_iff.2 (.inl (held_destroy w n ▸ hheld)))
    · by_cases hmn : m.id = n.id
      · -- it is the node itself that referred to the other one
        have hsame : w.node? n.id = some m := hmn ▸ node?_of_mem h.nodup hm
        obtain rfl := Option.some.inj (hn.symm.trans hsame)
        exact .inr (List.mem_append_left _ hr)
      · refine .inl ?_
        have hgraph : (m.id, m.references) ∈ (w.destroy n).graph := by
          rw [graph_destroy]
          exact List.mem_filter.2 ⟨List.mem_map.2 ⟨m, hm, rfl⟩, by simpa using hmn⟩
        rw [isHeld, Bool.or_eq_true, references_eq_graph]
        exact .inr (List.contains_iff_mem.2 (List.mem_flatMap.2 ⟨_, hgraph, hr⟩))
  · exact .inr (List.mem_append_right _ ((List.mem_cons.1 hmem).resolve_left hne))

/-- **A release leaves nobody behind**, by induction on what is let go of. -/
theorem release (h : Upheld ids w) : Upheld [] (World.release ids w) := by
  fun_induction World.release ids w with
  | case1 w => exact h
  | case2 w id rest hheld ih =>
    refine ih ⟨h.recorded, h.distinct, fun other hother => ?_⟩
    rcases h.held other hother with hother | hother
    · exact .inl hother
    · rcases List.mem_cons.1 hother with rfl | hother
      · exact (Bool.or_eq_true_iff.1 hheld).imp_right List.contains_iff_mem.1
      · exact .inr hother
  | case3 w id rest _ hnone ih =>
    refine ih ⟨h.recorded, h.distinct, fun other hother => (h.held other hother).imp_right fun hmem => ?_⟩
    refine (List.mem_cons.1 hmem).resolve_left ?_
    rintro rfl
    obtain ⟨n, hn⟩ := isLive_iff.1 (mem_liveIds.1 hother)
    rw [hnone] at hn
    cases hn
  | case4 w id rest _ n hn ih => exact ih (h.destroy hn)

theorem dropAll (h : Upheld [] w) (ids : List NodeId) : Upheld [] (w.dropAll ids) := by
  refine release ⟨h.recorded.imp fun _ hw => hw.kept ⟨rfl, rfl⟩, h.distinct, fun id hid => ?_⟩
  have hisHeld := (h.held id hid).resolve_right List.not_mem_nil
  rcases isHeld_iff.1 hisHeld with hheld | href
  · by_cases hmem : id ∈ ids
    · exact .inr hmem
    · exact .inl (isHeld_iff.2 (.inl (mem_foldl_erase hmem hheld)))
  · exact .inl (isHeld_iff.2 (.inr href))

/-! ### What readers do -/

theorem setName (h : Upheld [] w) (id : NodeId) (name : String) : Upheld [] (w.setName id name) := by
  obtain ⟨history, hw⟩ := h.recorded
  have hgraph : (w.setName id name).graph = w.graph := by
    obtain ⟨heq, -⟩ | ⟨n, -, -, heq⟩ := setName_cases w id name <;> rw [heq]
    exact graph_modify w id fun _ => rfl
  have hheld : (w.setName id name).held = w.held := by
    obtain ⟨heq, -⟩ | ⟨n, -, -, heq⟩ := setName_cases w id name <;> rw [heq]
    rfl
  have hchange : Change [] w (w.setName id name) := .named w id name
  exact h.of_graph ⟨_, hw.setName id name⟩ (hchange.inherent Node.inherent_distinct h.distinct) hgraph
    (hheld ▸ fun _ hid => hid)

theorem store {n : Node} {name : String} {old : Field} (h : Upheld ids w) (hn : w.node? id = some n)
    (hold : n.field? name = some old) (value : Field) :
    Upheld (ids ++ old.references) (w.modify id (·.store name value)) := by
  refine h.modify (fun m => m.identity_store name value) (fun m hm => hm.of_names (m.store_spec ..) ?_)
    fun m hm => ?_
  · rw [Node.dynamicNames_store]
  · obtain rfl := Option.some.inj (hn.symm.trans hm)
    exact (h.distinct id n hn).references_subset_store hold value

theorem initField (h : Upheld [] w) (id : NodeId) (name : String) (value : Field) :
    Upheld [] (w.initField id name value).2 := by
  obtain heq | ⟨n, old, hn, hold, -, heq⟩ := initField_cases w id name value <;> rw [heq]
  · exact h
  · exact ((h.store hn hold _).enter _).release

theorem addField (h : Upheld [] w) (id : NodeId) (name : String) (k : Kind) :
    Upheld [] (w.addField id name (.initial k)).2 := by
  have hkept := keeps_addField w id name (.initial k)
  obtain ⟨-, heq⟩ | ⟨e, heq⟩ | ⟨n, hn, hdynamic, hnew, heq⟩ := addField_cases w id name (.initial k) <;>
    rw [heq] at hkept ⊢
  · exact h
  · exact h
  · obtain rfl := id_of_node? hn
    have hlive : ∀ r ∈ (Field.initial k).references, w.isLive r = true := by
      rw [Field.references_initial]
      simp
    have hchange : Change [] w (w.modify n.id fun n => { n with
        dynamic := n.dynamic ++ [(name, .initial k)] }) := .extended w n name _ hn hdynamic hnew hlive
    refine h.of_graph (h.recorded.imp fun _ hw => hw.kept hkept)
      (hchange.inherent Node.inherent_distinct h.distinct) ?_ fun _ hid => hid
    refine graph_modify w n.id fun m => ?_
    rw [Node.references_append_dynamic, Field.references_initial, List.append_nil]

theorem addConnection (h : Upheld [] w) (id : NodeId) (output : String) (route : Route) :
    Upheld [] (w.addConnection id output route).2 := by
  obtain heq | ⟨routes, heq⟩ := addConnection_cases w id output route <;> rw [heq]
  · exact h
  · exact h.touch id (fun _ => rfl) fun _ => ⟨rfl, rfl⟩

theorem discard (h : Upheld [] w) (id : NodeId) : Upheld [] (w.discard id) := by
  have hnamed := h.setName id ""
  have hforgotten : Upheld ([] ++ (w.setName id "").referencesOf id) ((w.setName id "").modify id Node.forget) := by
    refine hnamed.modify (fun _ => rfl) (fun _ hn => hn.forget) fun n hn r hr => List.mem_append_right _ ?_
    rwa [World.referencesOf, hn]
  exact hforgotten.release

/-- The table of layouts does not matter. -/
theorem learn (h : Upheld ids w) (specifications : List Specification) : Upheld ids { w with specifications } :=
  h.of_graph (h.recorded.imp fun _ hw => hw.kept ⟨rfl, rfl⟩) h.distinct rfl fun _ hid => hid

theorem specification {typeName : String} {fields : List FieldSpec} {spec : Specification} (h : Upheld ids w)
    (hspec : w.specification typeName fields = .ok (spec, w')) : Upheld ids w' := by
  obtain ⟨table, rfl⟩ := specification_eq hspec
  exact h.learn table

/-- A node that is made is held. -/
theorem create (h : Upheld [] w) (spec : Specification) (b : Behavior) (env : Environment) :
    Upheld [] (w.create spec b env).2 := by
  obtain ⟨history, hw⟩ := h.recorded
  refine ⟨⟨_, hw.addNode (.refl _) spec b env⟩, fun id n hn => ?_, fun id hid => .inl ?_⟩
  · rw [node?_create] at hn
    rcases Option.or_eq_some_iff.1 hn with hn | ⟨-, hn⟩
    · exact h.distinct id n hn
    · split at hn
      · obtain rfl := Option.some.inj hn
        exact .fresh ..
      · cases hn
  · have hids : (w.create spec b env).2.liveIds = w.liveIds ++ [w.nextId.1] := List.map_append
    rw [hids] at hid
    rcases List.mem_append.1 hid with hid | hid
    · have hisHeld := (h.held id hid).resolve_right List.not_mem_nil
      rcases isHeld_iff.1 hisHeld with hmem | ⟨n, hn, hr⟩
      · exact isHeld_iff.2 (.inl (List.mem_cons_of_mem _ hmem))
      · exact isHeld_iff.2 (.inr ⟨n, List.mem_append_left _ hn, hr⟩)
    · rw [List.mem_singleton.1 hid]
      exact isHeld_iff.2 (.inl List.mem_cons_self)

/-! ### Setting nodes up -/

theorem storeChildren (h : Upheld ids w) (id : NodeId) (new : List NodeId) (time : Timestamp)
    (after : Aftermath) : Upheld (ids ++ w.children id) (w.storeChildren id (w.children id) new time after).2 := by
  have hsame : Upheld (ids ++ w.children id) w := h.mono (List.subset_append_left _ _)
  obtain heq | ⟨n, f, hn, hfield, hkind, heq⟩ := storeChildren_cases w id (w.children id) new time after <;> rw [heq]
  · exact hsame
  · have hchildren : w.children id = f.references := by
      rw [World.children, hn, Option.map_some, Option.getD_some, Node.nodesIn, hfield]
      exact if_pos hkind
    rw [hchildren]
    exact (h.store hn hfield _).enter _

/-- The children that a grouping node does not claim are on the list of what is let go of. -/
theorem adoptChildren (h : Upheld [] w) (id : NodeId) :
    Upheld (w.adoptChildren id).1.released (w.adoptChildren id).2 := by
  obtain ⟨-, hquiet⟩ := accept_spec w id (w.children id)
  have haccepted : Upheld [] (w.accept id (w.children id)).2.2 :=
    h.reparents hquiet (calm_accept w id _).toRetains
  have hclaim : ∀ (l : List NodeId) {ids : List NodeId} {v : World}, Upheld ids v →
      Upheld ids (l.foldl (fun w child => w.addParent child id) v) := by
    intro l
    induction l with
    | nil => exact fun hv => hv
    | cons c rest ih => exact fun hv => ih (hv.touch c (fun _ => rfl) fun _ => ⟨rfl, rfl⟩)
  unfold World.adoptChildren
  dsimp only
  split
  · have hstored := fun time after =>
      haccepted.storeChildren id (w.accept id (w.children id)).1 time after
    rw [hquiet.children] at hstored
    rw [storeChildren_fst]
    exact hclaim _ ((hstored _ _).mono (List.subset_append_right _ _))
  · exact hclaim _ (haccepted.mono (List.nil_subset _))

theorem runAdopt (h : Upheld [] w) (id : NodeId) : Upheld [] (w.runAdopt id) := by
  unfold World.runAdopt
  split
  · rename_i n _
    have hemitted := emitted_adopt (w.step (.adopting id)) n
    have hbegun : Upheld [] (w.step (.adopting id)) := h.enter _
    have hadopted : Upheld ((w.step (.adopting id)).adopt n).1.released ((w.step (.adopting id)).adopt n).2 := by
      obtain ⟨-, heq⟩ | ⟨-, heq | heq⟩ := adopt_cases (w.step (.adopting id)) n <;> rw [heq]
      · exact hbegun.adoptChildren n.id
      · exact hbegun
      · exact hbegun.enter _
    dsimp only
    rw [settle, hemitted]
    exact hadopted.release
  · exact h

theorem runSetUp (h : Upheld [] w) (id : NodeId) (time : Timestamp) : Upheld [] (w.runSetUp id time) :=
  runSetUp_induction id time (fun _ hv => hv.touch id (fun _ => rfl) fun _ => ⟨rfl, rfl⟩)
    (fun _ hv => hv.enter _) (fun _ _ hv => hv.enter _)
    (fun _ _ hv => hv.touch id (fun _ => rfl) fun _ => ⟨rfl, rfl⟩) h

theorem foldl {act : World → NodeId → World} (hact : ∀ w id, Upheld [] w → Upheld [] (act w id))
    (ids : List NodeId) (h : Upheld [] w) : Upheld [] (ids.foldl act w) := by
  induction ids generalizing w with
  | nil => exact h
  | cons id rest ih => exact ih (hact w id h)

/-- By induction on how deep setting up goes. -/
theorem initializeUpTo (time : Timestamp) (depth : Nat) (h : Upheld [] w) (id : NodeId) :
    Upheld [] (World.initializeUpTo time depth w id) := by
  induction depth generalizing w id with
  | zero => exact h
  | succ depth ih =>
    unfold World.initializeUpTo
    split
    · exact h
    split
    · exact h
    have hmarked : Upheld [] (w.mark id) := h.touch id (fun _ => rfl) fun _ => ⟨rfl, rfl⟩
    have hadopted := hmarked.runAdopt id
    refine runSetUp (dropAll (foldl (fun _ c hv => ih hv c) _ ?_) _) id time
    exact hadopted.holdAll _

end Upheld

end World

end SceneGraph
