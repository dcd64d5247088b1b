import SceneGraph.Proofs.World.Beside

/-!
# What the registry lists of later nodes

The registry lists nodes in the order in which they were made, so what it listed at one time stays at the
front of its lists, with the nodes that were made since behind (`World.ListsSince`). When the later nodes are
gone, the lists are what they were.

* `ListsSince.moves`, `ListsSince.createOfType`, `ListsSince.setName`: whatever is done to the later nodes.
* `ListsSince.restored`: the lists after the later nodes are gone.
-/

namespace SceneGraph

/-- Every id that is in use anywhere was handed out, also in lists of parents and in the lists of the
registry. -/
structure World.Sealed (w : World) : Prop extends w.Issued where
  parents : ∀ n ∈ w.nodes, ∀ p ∈ n.parentIds, p.value ≤ w.registry.lastId
  listed : ∀ id ∈ w.registry.ids, id.value ≤ w.registry.lastId
  updating : ∀ id ∈ w.registry.updating, id.value ≤ w.registry.lastId
  sensing : ∀ id ∈ w.registry.sensing, id.value ≤ w.registry.lastId

namespace World

/-- What the lists of the registry depend on: the ids of the nodes and what these can do. -/
def census (w : World) : List (NodeId × Capabilities) := w.nodes.map fun n => (n.id, n.capabilities)

variable {w₀ w w' : World} {later : List (NodeId × Capabilities)}

theorem census_eq (w : World) : w.census = w.identities.map fun i => (i.id, i.behavior.capabilities) := by
  rw [identities, List.map_map]
  rfl

theorem map_fst_census (w : World) : w.census.map (·.1) = w.liveIds := by
  rw [census, List.map_map]
  rfl

theorem Kept.census (h : Kept w w') : w'.census = w.census := by
  rw [census_eq, census_eq, h.identities]

theorem census_destroy (w : World) (n : Node) : (w.destroy n).census = w.census.filter (·.1 != n.id) := by
  rw [census_eq, census_eq, identities_destroy, List.filter_map]
  rfl

theorem census_setName (w : World) (id : NodeId) (name : String) : (w.setName id name).census = w.census := by
  obtain ⟨heq, -⟩ | ⟨n, -, -, heq⟩ := setName_cases w id name <;> rw [heq]
  refine (List.map_map ..).trans (List.map_congr_left fun n _ => ?_)
  by_cases hn : n.id = id <;> simp [hn, Node.capabilities]

/-- The given nodes were made after those of `w₀`, and the registry lists them after what it listed then. -/
structure Adds (w₀ w : World) (later : List (NodeId × Capabilities)) : Prop where
  census : w.census = w₀.census ++ later
  nodup : (later.map (·.1)).Nodup
  fresh : ∀ e ∈ later, w₀.registry.lastId < e.1.value ∧ e.1.value ≤ w.registry.lastId
  ids : w.registry.ids = w₀.registry.ids ++ later.map (·.1)
  updating : w.registry.updating = w₀.registry.updating ++ (later.filter (·.2.update)).map (·.1)
  sensing : w.registry.sensing = w₀.registry.sensing ++ (later.filter (·.2.event)).map (·.1)

/-- As long as the nodes of `w₀` are there, all others were made later and are listed behind them. -/
structure ListsSince (w₀ w : World) : Prop where
  lastId : w₀.registry.lastId ≤ w.registry.lastId
  later : w₀.liveIds ⊆ w.liveIds → ∃ later, Adds w₀ w later

namespace Adds

/-- A later node is struck off behind everything that was listed before. -/
theorem destroy (h : Adds w₀ w later) (hw₀ : w₀.Sealed) {n : Node} (hn : n ∈ w.nodes) (hnew : n.id ∉ w₀.liveIds) :
    Adds w₀ (w.destroy n) (later.filter (·.1 != n.id)) := by
  have hlater : n.id ∈ later.map (·.1) := by
    have hmem : n.id ∈ w.liveIds := List.mem_map_of_mem hn
    rw [← map_fst_census, h.census, List.map_append, map_fst_census] at hmem
    exact (List.mem_append.1 hmem).resolve_left hnew
  obtain ⟨e, he, hid⟩ := List.mem_map.1 hlater
  have hold : ∀ {ids : List NodeId}, (∀ id ∈ ids, id.value ≤ w₀.registry.lastId) → n.id ∉ ids := by
    intro ids hids hmem
    exact absurd (hids _ hmem) (Nat.not_le_of_gt (hid ▸ (h.fresh e he).1))
  -- from behind the old entries, the node's own is taken
  have herase : ∀ p : NodeId × Capabilities → Bool, ((later.filter p).map (·.1)).erase n.id =
      ((later.filter (·.1 != n.id)).filter p).map (·.1) := by
    intro p
    rw [(h.nodup.sublist (List.filter_sublist.map _)).erase_eq_filter, List.filter_map, List.filter_filter,
      List.filter_filter]
    congr 2
    funext e
    exact Bool.and_comm ..
  have hregistry := registry_destroy w n
  rw [Registry.unregister_eq] at hregistry
  refine { census := ?census, nodup := ?nodup, fresh := fun e he => ?fresh, ids := ?ids, updating := ?updating,
           sensing := ?sensing }
  case census =>
    rw [census_destroy, h.census, List.filter_append]
    congr 1
    rw [List.filter_eq_self]
    intro e he
    have hmem : e.1 ∈ w₀.liveIds := map_fst_census w₀ ▸ List.mem_map_of_mem he
    simpa using fun heq : e.1 = n.id => hnew (heq ▸ hmem)
  case nodup => exact h.nodup.sublist (List.filter_sublist.map _)
  case fresh =>
    rw [hregistry]
    exact h.fresh e (List.mem_filter.1 he).1
  case ids =>
    have hall := herase fun _ => true
    rw [List.filter_true, List.filter_true] at hall
    rw [hregistry, h.ids, List.erase_append_right _ (hold hw₀.listed), hall]
  case updating => rw [hregistry, h.updating, List.erase_append_right _ (hold hw₀.updating), herase]
  case sensing => rw [hregistry, h.sensing, List.erase_append_right _ (hold hw₀.sensing), herase]

/-- Only the ids and capabilities of nodes and the registry matter, but for its names. -/
theorem congr (h : Adds w₀ w later) (hcensus : w'.census = w.census)
    (hregistry : ∃ names, w'.registry = { w.registry with names }) : Adds w₀ w' later := by
  obtain ⟨names, hregistry⟩ := hregistry
  refine ⟨hcensus.trans h.census, h.nodup, ?_, ?_, ?_, ?_⟩ <;> rw [hregistry]
  · exact h.fresh
  · exact h.ids
  · exact h.updating
  · exact h.sensing

/-- A node that is made is listed last. -/
theorem addNode (h : Adds w₀ w later) (hle : w₀.registry.lastId ≤ w.registry.lastId) (hk : Kept w.nextId.2 w')
    (spec : Specification) (b : Behavior) (env : Environment) :
    Adds w₀ (w'.addNode w.nextId.1 spec b env) (later ++ [(w.nextId.1, b.capabilities)]) := by
  have hcensus : (w'.addNode w.nextId.1 spec b env).census = w.census ++ [(w.nextId.1, b.capabilities)] := by
    have hsame : w'.census = w.census := hk.census
    rw [← hsame]
    exact List.map_append
  have hregistry := hk.registry_addNode spec b env
  have hcapable : ∀ p : NodeId × Capabilities → Bool,
      ((later ++ [(w.nextId.1, b.capabilities)]).filter p).map (·.1) =
        (later.filter p).map (·.1) ++ if p (w.nextId.1, b.capabilities) then [w.nextId.1] else [] := by
    intro p
    rw [List.filter_append, List.map_append, List.filter_singleton]
    cases p (w.nextId.1, b.capabilities) <;> rfl
  refine { census := ?census, nodup := ?nodup, fresh := ?fresh, ids := ?ids, updating := ?updating,
           sensing := ?sensing }
  case census => rw [hcensus, h.census, List.append_assoc]
  case nodup =>
    rw [List.map_append, List.map_singleton]
    refine h.nodup.append (List.nodup_singleton _) ?_
    rw [List.disjoint_singleton]
    intro hmem
    obtain ⟨e, he, hid⟩ := List.mem_map.1 hmem
    have hissued := (h.fresh e he).2
    rw [hid] at hissued
    exact Nat.not_succ_le_self _ hissued
  case fresh =>
    rw [hregistry]
    refine List.forall_mem_append.2 ⟨fun e he => ?_, fun e he => ?_⟩
    · exact ⟨(h.fresh e he).1, Nat.le_succ_of_le (h.fresh e he).2⟩
    · rw [List.mem_singleton.1 he]
      exact ⟨Nat.lt_succ_of_le hle, Nat.le_refl _⟩
  case ids =>
    rw [hregistry, h.ids, List.map_append, List.append_assoc]
    rfl
  case updating => rw [hregistry, hcapable, ← List.append_assoc, ← h.updating]
  case sensing => rw [hregistry, hcapable, ← List.append_assoc, ← h.sensing]

end Adds

namespace ListsSince

theorem refl (w : World) : ListsSince w w :=
  ⟨Nat.le_refl _, fun _ => ⟨[], (List.append_nil _).symm, List.nodup_nil, by simp, (List.append_nil _).symm,
    (List.append_nil _).symm, (List.append_nil _).symm⟩⟩

theorem congr (h : ListsSince w₀ w) (hcensus : w'.census = w.census)
    (hregistry : ∃ names, w'.registry = { w.registry with names }) : ListsSince w₀ w' := by
  refine ⟨?_, fun hsub => ?_⟩
  · obtain ⟨names, hregistry⟩ := hregistry
    rw [hregistry]
    exact h.lastId
  · rw [← map_fst_census w', hcensus, map_fst_census] at hsub
    obtain ⟨later, hadds⟩ := h.later hsub
    exact ⟨later, hadds.congr hcensus hregistry⟩

theorem kept (h : ListsSince w₀ w) (hk : Kept w w') : ListsSince w₀ w' :=
  h.congr hk.census ⟨w.registry.names, by rw [hk.registry]⟩

theorem destroy (h : ListsSince w₀ w) (hw₀ : w₀.Sealed) {n : Node} (hn : n ∈ w.nodes) :
    ListsSince w₀ (w.destroy n) := by
  refine ⟨?_, fun hsub => ?_⟩
  · rw [registry_destroy, Registry.unregister_eq]
    exact h.lastId
  · rw [liveIds_destroy] at hsub
    obtain ⟨later, hadds⟩ := h.later fun id hid => (List.mem_filter.1 (hsub hid)).1
    have hnew : n.id ∉ w₀.liveIds := fun hmem => by simpa using (List.mem_filter.1 (hsub hmem)).2
    exact ⟨_, hadds.destroy hw₀ hn hnew⟩

theorem moves (h : ListsSince w₀ w) (hw₀ : w₀.Sealed) (hm : Moves w w') : ListsSince w₀ w' := by
  induction hm with
  | refl => exact h
  | tail _ hstep ih =>
    cases hstep with
    | kept hk => exact ih.kept hk
    | destroyed n hn => exact ih.destroy hw₀ (mem_nodes_of_node? hn)

theorem setName (h : ListsSince w₀ w) (id : NodeId) (name : String) : ListsSince w₀ (w.setName id name) := by
  refine h.congr (census_setName w id name) ?_
  obtain ⟨heq, -⟩ | ⟨n, -, -, heq⟩ := setName_cases w id name <;> rw [heq]
  · exact ⟨_, rfl⟩
  · exact ⟨_, Registry.rename_eq ..⟩

theorem addNode (h : ListsSince w₀ w) (hk : Kept w.nextId.2 w') (hw₀ : w₀.Sealed) (spec : Specification)
    (b : Behavior) (env : Environment) : ListsSince w₀ (w'.addNode w.nextId.1 spec b env) := by
  have hlast : (w'.addNode w.nextId.1 spec b env).registry.lastId = w.registry.lastId + 1 :=
    congrArg Registry.lastId hk.registry
  refine ⟨hlast ▸ Nat.le_succ_of_le h.lastId, fun hsub => ?_⟩
  have hids : (w'.addNode w.nextId.1 spec b env).liveIds = w.liveIds ++ [w.nextId.1] := by
    have hsame : w'.liveIds = w.liveIds := hk.liveIds
    rw [← hsame]
    exact List.map_append
  have hold : w₀.liveIds ⊆ w.liveIds := by
    intro id hid
    rcases List.mem_append.1 (hids ▸ hsub hid) with hmem | hmem
    · exact hmem
    · -- the new id is none of those
      obtain ⟨n, hn, rfl⟩ := List.mem_map.1 hid
      have hle := Nat.le_trans (hw₀.ids n hn) h.lastId
      rw [List.mem_singleton.1 hmem] at hle
      exact absurd hle (Nat.not_succ_le_self _)
  obtain ⟨later, hadds⟩ := h.later hold
  exact ⟨_, hadds.addNode h.lastId hk spec b env⟩

theorem createOfType (h : ListsSince w₀ w) (hw₀ : w₀.Sealed) {catalog : Catalog} {typeName : String}
    {env : Environment} {id : Option NodeId} (hcreate : w.createOfType catalog typeName env = .ok (id, w')) :
    ListsSince w₀ w' := by
  obtain ⟨-, rfl⟩ | ⟨t, -, spec, v, hspec, -, rfl⟩ := createOfType_cases hcreate
  · exact h
  · exact (h.kept (Recorded.kept_specification hspec)).addNode (.refl _) hw₀ ..

theorem createScene (h : ListsSince w₀ w) (hw₀ : w₀.Sealed) (library filename : String) (renders : Bool)
    (time : Timestamp) : ListsSince w₀ (Scene.create w library filename renders time).2 := by
  unfold Scene.create
  dsimp only
  split
  · rename_i r hspec
    exact h.addNode (Recorded.kept_specification hspec) hw₀ ..
  · exact h.addNode (.refl _) hw₀ ..

/-- **When the later nodes are gone**, the registry lists what it listed before. -/
theorem restored (h : ListsSince w₀ w) (hnodes : w.nodes = w₀.nodes) :
    w.registry = { w₀.registry with lastId := w.registry.lastId, names := w.registry.names } := by
  have hids : w₀.liveIds ⊆ w.liveIds := by
    rw [liveIds, liveIds, hnodes]
    exact fun _ hid => hid
  obtain ⟨later, hadds⟩ := h.later hids
  have hsame : w.census = w₀.census := congrArg (List.map _) hnodes
  obtain rfl : later = [] := List.append_right_eq_self.1 (hadds.census.symm.trans hsame)
  have htables := And.intro hadds.ids (And.intro hadds.updating hadds.sensing)
  simp only [List.map_nil, List.filter_nil, List.append_nil] at htables
  change w.registry = ⟨w.registry.lastId, w₀.registry.ids, w.registry.names, w₀.registry.updating, w₀.registry.sensing⟩
  rw [← htables.1, ← htables.2.1, ← htables.2.2]

end ListsSince

end World

end SceneGraph
