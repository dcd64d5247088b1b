import Mathlib.Data.List.Nodup
import Mathlib.Data.List.Perm.Basic
import SceneGraph.Proofs.World.Calls

/-!
# The registry along a run

Along every run of calls, whichever they are, the registry lists exactly the live nodes and their names. What
the order of its lists means is told against the history of the run (`World.History`): the ids handed out to
nodes, and who took which name, one entry for every change of a name.

* `latest`: the last taking of every node, in the order in which they happened.
* `World.Recorded`: what every step preserves; a node that is destroyed, renamed or made is struck off,
  moved to the end, or added.
* `World.registry_consistent`: the registry is consistent with the nodes and with the history.
-/

namespace SceneGraph

/-- A node takes a name, or gives its name up for the empty one. -/
structure Taking where
  id : NodeId
  name : String
  deriving DecidableEq, Repr

/-- The last taking of every node, in the order in which they happened. -/
def latest : List Taking → List Taking
  | [] => []
  | t :: rest => if rest.any (·.id == t.id) then latest rest else t :: latest rest

/-- The name that a node took last; no name if it never took one. -/
def lastName (taken : List Taking) (id : NodeId) : String :=
  ((latest taken).find? (·.id == id)).elim "" (·.name)

section Takings

variable {taken : List Taking} {t : Taking} {id : NodeId}

theorem latest_subset (taken : List Taking) : latest taken ⊆ taken := by
  induction taken with
  | nil => exact List.Subset.refl _
  | cons t rest ih =>
    rw [latest]
    split
    · exact List.subset_cons_of_subset t ih
    · exact List.cons_subset_cons t ih

/-- Every node has one last taking. -/
theorem nodup_latest (taken : List Taking) : ((latest taken).map (·.id)).Nodup := by
  induction taken with
  | nil => exact List.nodup_nil
  | cons t rest ih =>
    rw [latest]
    split
    · exact ih
    · rename_i hlast
      refine List.nodup_cons.2 ⟨fun hmem => hlast ?_, ih⟩
      obtain ⟨u, hu, hid⟩ := List.mem_map.1 hmem
      exact List.any_eq_true.2 ⟨u, latest_subset rest hu, by simpa using hid⟩

/-- A node that takes a name goes behind all others. -/
theorem latest_concat (taken : List Taking) (t : Taking) :
    latest (taken ++ [t]) = (latest taken).filter (·.id != t.id) ++ [t] := by
  induction taken with
  | nil => rfl
  | cons u rest ih =>
    rw [List.cons_append, latest, latest, List.any_append, ih]
    by_cases hut : u.id = t.id
    · rw [if_pos (by simp [hut])]
      split
      · rfl
      · rw [List.filter_cons_of_neg (by simp [hut])]
    · have hother : [t].any (·.id == u.id) = false := by simpa using Ne.symm hut
      rw [hother, Bool.or_false]
      split
      · rfl
      · rw [List.filter_cons_of_pos (by simpa using hut), List.cons_append]

theorem lastName_of_mem (h : t ∈ latest taken) : lastName taken t.id = t.name := by
  have hnodup := nodup_latest taken
  rw [lastName]
  cases hfind : (latest taken).find? (·.id == t.id) with
  | none => exact absurd (by simp) (List.find?_eq_none.1 hfind t h)
  | some u =>
    have hid : u.id = t.id := by simpa using List.find?_some hfind
    rw [List.inj_on_of_nodup_map hnodup (List.mem_of_find?_eq_some hfind) h hid]
    rfl

theorem lastName_eq_empty (h : ∀ t ∈ taken, t.id ≠ id) : lastName taken id = "" := by
  rw [lastName, List.find?_eq_none.2, Option.elim_none]
  exact fun t ht => by simpa using h t (latest_subset taken ht)

theorem lastName_concat (taken : List Taking) (t : Taking) (id : NodeId) :
    lastName (taken ++ [t]) id = if id = t.id then t.name else lastName taken id := by
  rw [lastName, latest_concat, List.find?_append, List.find?_filter]
  by_cases hid : id = t.id
  · rw [if_pos hid, List.find?_eq_none.2 fun u _ => by simp [hid]]
    simp [hid]
  · have hother : [t].find? (·.id == id) = none := by simpa using Ne.symm hid
    rw [if_neg hid, hother, Option.or_none, lastName]
    congr 2
    funext u
    by_cases hu : u.id = id <;> simp [hu, hid]

end Takings

/-! ### The lists of the registry -/

namespace Registry

variable {r : Registry} {id : NodeId} {name : String}

/-- A node that goes by one name at most is forgotten under it, and nobody else is. -/
theorem names_removeName (hnodup : r.names.Nodup) (hname : ∀ e ∈ r.names, e.1 ≠ "")
    (hid : ∀ e ∈ r.names, e.2 = id → e.1 = name) :
    (r.removeName id name).names = r.names.filter (·.2 != id) := by
  unfold removeName
  split
  · rename_i hempty
    refine (List.filter_eq_self.2 fun e he => ?_).symm
    have hne : e.2 ≠ id := fun heq => hname e he ((hid e he heq).trans hempty)
    simpa using hne
  · rw [hnodup.erase_eq_filter]
    refine List.filter_congr fun e he => ?_
    rw [Bool.eq_iff_iff, bne_iff_ne, bne_iff_ne, not_iff_not]
    exact ⟨fun heq => heq ▸ rfl, fun heq => Prod.ext (hid e he heq) heq⟩

end Registry

namespace World

variable {w w' : World} {id : NodeId} {n : Node} {name : String}

/-! ### Histories -/

/-- What happened to ids and names so far. -/
structure History where
  /-- The ids of the nodes that were made, in their order. -/
  issued : List NodeId := []
  /-- Who took which name, in the order in which it happened. -/
  taken : List Taking := []

/-- What becomes of a name that a node is given: a node that goes by it already does not take it. -/
def takings (w : World) (id : NodeId) (name : String) : List Taking :=
  match w.node? id with
  | some n => if n.name = name then [] else [⟨id, name⟩]
  | none => []

namespace Call

/-- The nodes that a call makes. -/
def issues : Call → World → List NodeId
  | create catalog typeName environment, w =>
    match w.createOfType catalog typeName environment with
    | .ok (id, _) => id.toList
    | .error _ => []
  | createScene library filename renders time, w =>
    [(Scene.create w library filename renders time).1.root]
  | _, _ => []

/-- The names that nodes take in a call. A node that is given up loses its name. -/
def takes : Call → World → List Taking
  | setName id name, w => w.takings id name
  | discard id, w => w.takings id ""
  | _, _ => []

end Call

/-- The history after one more call. -/
def History.after (h : History) (c : Call) (w : World) : History :=
  ⟨h.issued ++ c.issues w, h.taken ++ c.takes w⟩

theorem History.after_eq (h : History) (w : World) {c : Call} (hc : ¬c.IsNotable) : h.after c w = h := by
  have hnothing : c.issues w = [] ∧ c.takes w = [] := by
    cases c <;> first | exact ⟨rfl, rfl⟩ | exact absurd trivial hc
  rw [after, hnothing.1, hnothing.2, List.append_nil, List.append_nil]

/-- The worlds that come out of the empty one by any calls, with what happened on the way. -/
inductive Run : History → World → Prop
  | empty : Run {} {}
  | call {h : History} {w : World} (c : Call) (hw : Run h w) : Run (h.after c w) (c.run w)

/-! ### Identities after a step -/

theorem map_id_identities (w : World) : w.identities.map (·.id) = w.liveIds := by
  rw [identities, List.map_map, liveIds]
  rfl

theorem Kept.liveIds (h : Kept w w') : w'.liveIds = w.liveIds := by
  rw [← map_id_identities, ← map_id_identities, h.identities]

theorem mem_identities (hn : w.node? n.id = some n) : n.identity ∈ w.identities :=
  List.mem_map_of_mem (mem_nodes_of_node? hn)

theorem identities_modify (w : World) (id : NodeId) (f : Node → Node) {g : Identity → Identity}
    (hf : ∀ n, (f n).identity = g n.identity) :
    (w.modify id f).identities = w.identities.map fun i => if i.id = id then g i else i := by
  rw [identities, World.modify, List.map_map, identities, List.map_map]
  refine List.map_congr_left fun n _ => ?_
  have hid : n.identity.id = n.id := rfl
  by_cases hn : n.id = id <;> simp [hn, hid, hf]

theorem identities_destroy (w : World) (n : Node) :
    (w.destroy n).identities = w.identities.filter (·.id != n.id) := by
  have h : (w.destroy n).identities =
      ((w.takeLeave n).reportParents n.id).identities.filter (·.id != n.id) := by
    rw [World.identities, World.identities, List.filter_map]
    rfl
  rw [h, (kept_takeLeave w n).identities]

theorem liveIds_destroy (w : World) (n : Node) :
    (w.destroy n).liveIds = w.liveIds.filter (· != n.id) := by
  rw [← map_id_identities, ← map_id_identities, identities_destroy, List.filter_map]
  rfl

theorem isLive_destroy (w : World) (n : Node) (id : NodeId) :
    (w.destroy n).isLive id = (w.isLive id && id != n.id) := by
  rw [Bool.eq_iff_iff, ← mem_liveIds, liveIds_destroy, List.mem_filter, mem_liveIds, Bool.and_eq_true]

/-- The ids of the nodes that can do something, where identities change but ids and behaviours do not. -/
theorem map_id_filter_map {is : List Identity} {f : Identity → Identity} {c : Capabilities → Bool}
    (hid : ∀ i, (f i).id = i.id) (hb : ∀ i, (f i).behavior = i.behavior) :
    ((is.map f).filter (c ·.behavior.capabilities)).map (·.id) =
      (is.filter (c ·.behavior.capabilities)).map (·.id) := by
  rw [List.filter_map, List.map_map]
  simp [Function.comp_def, hid, hb]

/-! ### What every step preserves -/

/-- The registry and the nodes are as the history tells. -/
structure Recorded (h : History) (w : World) : Prop where
  rising : h.issued.Pairwise (·.value < ·.value)
  bounded : ∀ id ∈ h.issued, id.value ≤ w.registry.lastId
  known : ∀ t ∈ h.taken, t.id ∈ h.issued
  live : w.liveIds.Sublist h.issued
  named : ∀ i ∈ w.identities, i.name = lastName h.taken i.id
  ids : w.registry.ids = w.liveIds
  names : w.registry.names =
    ((latest h.taken).filter fun t => t.name != "" && w.isLive t.id).map fun t => (t.name, t.id)
  updating : w.registry.updating =
    (w.identities.filter (·.behavior.capabilities.update)).map (·.id)
  sensing : w.registry.sensing = (w.identities.filter (·.behavior.capabilities.event)).map (·.id)

namespace Recorded

variable {h : History}

theorem empty : Recorded {} {} where
  rising := .nil
  bounded := by simp
  known := by simp
  live := .slnil
  named := by simp [identities]
  ids := rfl
  names := rfl
  updating := rfl
  sensing := rfl

theorem nodup_issued (hw : Recorded h w) : h.issued.Nodup :=
  hw.rising.imp fun hlt heq => Nat.ne_of_lt hlt (congrArg NodeId.value heq)

theorem nodup_liveIds (hw : Recorded h w) : w.liveIds.Nodup := hw.nodup_issued.sublist hw.live

theorem nodup_ids (hw : Recorded h w) (p : Identity → Bool) :
    ((w.identities.filter p).map (·.id)).Nodup :=
  (map_id_identities w ▸ hw.nodup_liveIds).sublist (List.filter_sublist.map _)

/-- An entry in the list of names is a live node's last taking. -/
theorem of_mem_names (hw : Recorded h w) {e : String × NodeId} (he : e ∈ w.registry.names) :
    ⟨e.2, e.1⟩ ∈ latest h.taken ∧ e.1 ≠ "" ∧ w.isLive e.2 = true := by
  rw [hw.names] at he
  obtain ⟨t, ht, rfl⟩ := List.mem_map.1 he
  obtain ⟨hmem, hp⟩ := List.mem_filter.1 ht
  obtain ⟨hname, hlive⟩ := Bool.and_eq_true_iff.1 hp
  exact ⟨hmem, bne_iff_ne.1 hname, hlive⟩

theorem nodup_names (hw : Recorded h w) : w.registry.names.Nodup := by
  refine List.Nodup.of_map (·.2) ?_
  rw [hw.names, List.map_map]
  exact (nodup_latest h.taken).sublist (List.filter_sublist.map _)

/-- Nobody but the node itself is forgotten when its name is. -/
theorem names_removeName (hw : Recorded h w) (hn : w.node? n.id = some n) :
    (w.registry.removeName n.id n.name).names = w.registry.names.filter (·.2 != n.id) := by
  refine Registry.names_removeName hw.nodup_names (fun e he => (hw.of_mem_names he).2.1) fun e he hid => ?_
  have hlast : lastName h.taken e.2 = e.1 := lastName_of_mem (hw.of_mem_names he).1
  have hname : n.name = lastName h.taken n.id := hw.named _ (mem_identities hn)
  rw [hname, ← hid, hlast]

theorem kept (hw : Recorded h w) (hk : Kept w w') : Recorded h w' where
  rising := hw.rising
  bounded := hk.registry ▸ hw.bounded
  known := hw.known
  live := hk.liveIds ▸ hw.live
  named := hk.identities ▸ hw.named
  ids := by rw [hk.registry, hk.liveIds, hw.ids]
  names := by rw [hk.registry, isLive_congr hk.liveIds, hw.names]
  updating := by rw [hk.registry, hk.identities, hw.updating]
  sensing := by rw [hk.registry, hk.identities, hw.sensing]

/-- A node that is destroyed is struck off every list. -/
theorem destroy (hw : Recorded h w) (hn : w.node? n.id = some n) : Recorded h (w.destroy n) := by
  have hregistry := registry_destroy w n
  rw [Registry.unregister_eq, hw.names_removeName hn] at hregistry
  -- striking an id off a table is the same as leaving the node out of it
  have hcapable : ∀ p : Identity → Bool, ((w.identities.filter p).map (·.id)).erase n.id =
      ((w.destroy n).identities.filter p).map (·.id) := by
    intro p
    rw [(hw.nodup_ids p).erase_eq_filter, List.filter_map, identities_destroy, List.filter_filter,
      List.filter_filter]
    congr 2
    funext i
    exact Bool.and_comm ..
  refine { rising := hw.rising, known := hw.known, bounded := ?bounded, live := ?live, named := ?named, ids := ?ids,
           names := ?names, updating := ?updating, sensing := ?sensing }
  case bounded =>
    rw [hregistry]
    exact hw.bounded
  case live =>
    rw [liveIds_destroy]
    exact List.filter_sublist.trans hw.live
  case named =>
    rw [identities_destroy]
    exact fun i hi => hw.named i (List.mem_filter.1 hi).1
  case ids =>
    rw [hregistry, liveIds_destroy]
    dsimp only
    rw [hw.ids, hw.nodup_liveIds.erase_eq_filter]
  case names =>
    rw [hregistry]
    dsimp only
    rw [hw.names, List.filter_map, List.filter_filter]
    congr 2
    funext t
    rw [isLive_destroy]
    simp only [Function.comp_apply]
    cases t.id != n.id <;> simp
  case updating =>
    rw [hregistry]
    dsimp only
    rw [hw.updating, hcapable]
  case sensing =>
    rw [hregistry]
    dsimp only
    rw [hw.sensing, hcapable]

theorem moves (hw : Recorded h w) (hm : Moves w w') : Recorded h w' := by
  induction hm with
  | refl => exact hw
  | tail _ hstep ih =>
    cases hstep with
    | kept hk => exact ih.kept hk
    | destroyed n hn => exact ih.destroy hn

/-- A node that takes a name goes behind all others that go by it. -/
theorem rename (hw : Recorded h w) (hn : w.node? n.id = some n) (name : String) :
    Recorded ⟨h.issued, h.taken ++ [⟨n.id, name⟩]⟩
      { w.modify n.id ({ · with name }) with registry := w.registry.rename n.id n.name name } := by
  have hids : (w.modify n.id ({ · with name })).liveIds = w.liveIds := liveIds_modify w n.id fun _ => rfl
  have hlive : (w.modify n.id ({ · with name })).isLive = w.isLive := isLive_congr hids
  have hidentities : (w.modify n.id ({ · with name })).identities =
      w.identities.map fun i => if i.id = n.id then { i with name } else i :=
    identities_modify w n.id ({ · with name }) fun _ => rfl
  have hcapable : ∀ c : Capabilities → Bool,
      ((w.modify n.id ({ · with name })).identities.filter (c ·.behavior.capabilities)).map (·.id) =
        (w.identities.filter (c ·.behavior.capabilities)).map (·.id) := by
    intro c
    rw [hidentities]
    exact map_id_filter_map (fun i => by split <;> rfl) fun i => by split <;> rfl
  have hregistry := Registry.rename_eq w.registry n.id n.name name
  rw [hw.names_removeName hn] at hregistry
  have hissued : n.id ∈ h.issued := hw.live.subset (mem_liveIds.2 (isLive_of_node? hn))
  rw [hregistry]
  refine ⟨hw.rising, hw.bounded, ?_, hids ▸ hw.live, fun i hi => ?_, hw.ids.trans hids.symm, ?_,
    hw.updating.trans (hcapable (·.update)).symm, hw.sensing.trans (hcapable (·.event)).symm⟩
  · exact List.forall_mem_append.2 ⟨hw.known, by simpa using hissued⟩
  · obtain ⟨j, hj, rfl⟩ := List.mem_map.1 (hidentities ▸ hi)
    rw [lastName_concat]
    by_cases hid : j.id = n.id
    · simp [hid]
    · simp [hid, hw.named j hj]
  · have hnew : ∀ l : List Taking,
        l.filter (fun t => t.name != "" && (w.modify n.id ({ · with name })).isLive t.id) =
          l.filter fun t => t.name != "" && w.isLive t.id := by rw [hlive]; exact fun _ => rfl
    refine Eq.trans ?_ (congrArg (List.map _) (hnew _)).symm
    rw [latest_concat, List.filter_append, List.map_append, List.filter_filter]
    dsimp only
    rw [hw.names, List.filter_map, List.filter_filter]
    congr 1
    · congr 2
      funext t
      exact Bool.and_comm ..
    · by_cases hname : name = "" <;> simp [hname, isLive_of_node? hn]

theorem setName (hw : Recorded h w) (id : NodeId) (name : String) :
    Recorded ⟨h.issued, h.taken ++ w.takings id name⟩ (w.setName id name) := by
  unfold takings World.setName
  cases hn : w.node? id with
  | none => rwa [List.append_nil]
  | some n =>
    obtain rfl := id_of_node? hn
    dsimp only
    split
    · rwa [List.append_nil]
    · exact hw.rename hn name

/-- A node that is made gets an id that was never handed out, and is listed last. -/
theorem addNode (hw : Recorded h w) (hk : Kept w.nextId.2 w') (spec : Specification) (b : Behavior)
    (env : Environment) :
    Recorded ⟨h.issued ++ [w.nextId.1], h.taken⟩ (w'.addNode w.nextId.1 spec b env) := by
  have hregistry := hk.registry_addNode spec b env
  have hids : w'.liveIds = w.liveIds := hk.liveIds
  have hidentities : w'.identities = w.identities := hk.identities
  -- ids rise, so the new one was never handed out
  have hnew : ∀ id ∈ h.issued, id ≠ w.nextId.1 := by
    rintro id hid rfl
    exact Nat.not_succ_le_self _ (hw.bounded _ hid)
  have hids' : (w'.addNode w.nextId.1 spec b env).liveIds = w.liveIds ++ [w.nextId.1] := by
    rw [← hids, liveIds, liveIds]
    exact List.map_append
  have hidentities' : (w'.addNode w.nextId.1 spec b env).identities =
      w.identities ++ [⟨w.nextId.1, "", spec, b, env⟩] := by
    rw [← hidentities, identities, identities]
    exact List.map_append
  have hlive : ∀ id, id ≠ w.nextId.1 → (w'.addNode w.nextId.1 spec b env).isLive id = w.isLive id := by
    intro id hid
    rw [Bool.eq_iff_iff, ← mem_liveIds, ← mem_liveIds, hids', List.mem_append]
    simp [hid]
  -- the table of a capability grows by the node if it has it
  have hcapable : ∀ c : Capabilities → Bool,
      ((w'.addNode w.nextId.1 spec b env).identities.filter (c ·.behavior.capabilities)).map (·.id) =
        (w.identities.filter (c ·.behavior.capabilities)).map (·.id) ++
          if c b.capabilities then [w.nextId.1] else [] := by
    intro c
    rw [hidentities', List.filter_append, List.map_append, List.filter_singleton]
    split <;> simp_all
  refine { known := fun t ht => List.mem_append_left _ (hw.known t ht), rising := ?rising, bounded := ?bounded,
           live := ?live, named := ?named, ids := ?ids, names := ?names, updating := ?updating, sensing := ?sensing }
  case rising =>
    refine List.pairwise_append.2 ⟨hw.rising, List.pairwise_singleton .., fun a ha c hc => ?_⟩
    rw [List.mem_singleton.1 hc]
    exact Nat.lt_succ_of_le (hw.bounded a ha)
  case bounded =>
    rw [hregistry]
    refine List.forall_mem_append.2 ⟨fun id hid => Nat.le_succ_of_le (hw.bounded id hid), fun id hid => ?_⟩
    rw [List.mem_singleton.1 hid]
    exact Nat.le_refl _
  case live =>
    rw [hids']
    exact hw.live.append (List.Sublist.refl _)
  case named =>
    rw [hidentities']
    refine List.forall_mem_append.2 ⟨hw.named, fun i hi => ?_⟩
    rw [List.mem_singleton.1 hi]
    exact (lastName_eq_empty fun t ht => hnew t.id (hw.known t ht)).symm
  case ids => rw [hregistry, hids', ← hw.ids]
  case names =>
    rw [hregistry]
    -- who took a name is as live as before: nobody among them has the new id
    refine hw.names.trans (congrArg _ (List.filter_congr fun t ht => ?_))
    rw [hlive t.id (hnew t.id (hw.known t (latest_subset _ ht)))]
  case updating =>
    rw [hregistry]
    exact (congrArg (· ++ _) hw.updating).trans (hcapable (·.update)).symm
  case sensing =>
    rw [hregistry]
    exact (congrArg (· ++ _) hw.sensing).trans (hcapable (·.event)).symm

/-- Looking a layout up changes nothing that is recorded. -/
theorem kept_specification {typeName : String} {fields : List FieldSpec} {spec : Specification}
    (h : w.specification typeName fields = .ok (spec, w')) : Kept w w' := by
  obtain ⟨table, rfl⟩ := specification_eq h
  exact ⟨rfl, rfl⟩

theorem createOfType (hw : Recorded h w) {catalog : Catalog} {typeName : String} {env : Environment}
    {id : Option NodeId} (hcreate : w.createOfType catalog typeName env = .ok (id, w')) :
    Recorded ⟨h.issued ++ id.toList, h.taken⟩ w' := by
  obtain ⟨rfl, rfl⟩ | ⟨t, -, spec, v, hspec, rfl, rfl⟩ := createOfType_cases hcreate
  · rwa [Option.toList_none, List.append_nil]
  · exact (hw.kept (kept_specification hspec)).addNode (.refl _) spec _ env

theorem createScene (hw : Recorded h w) (library filename : String) (renders : Bool) (time : Timestamp) :
    Recorded ⟨h.issued ++ [(Scene.create w library filename renders time).1.root], h.taken⟩
      (Scene.create w library filename renders time).2 := by
  unfold Scene.create
  dsimp only
  split
  · rename_i r hspec
    obtain ⟨spec, w₁⟩ := r
    exact hw.addNode (kept_specification hspec) spec _ _
  · exact hw.addNode (.refl _) _ _ _

/-- **Every call is recorded**, whatever the host calls. -/
theorem call (hw : Recorded h w) (c : Call) : Recorded (h.after c w) (c.run w) := by
  by_cases hc : c.IsNotable
  · cases c with
    | create catalog typeName environment =>
      have hafter : h.after (.create catalog typeName environment) w =
          ⟨h.issued ++ Call.issues (.create catalog typeName environment) w, h.taken⟩ :=
        congrArg (History.mk _) (List.append_nil _)
      rw [hafter, Call.issues, Call.run]
      generalize hcreate : w.createOfType catalog typeName environment = r
      obtain e | ⟨id, w'⟩ := r
      · rwa [List.append_nil]
      · exact hw.createOfType hcreate
    | createScene library filename renders time =>
      have hafter : h.after (.createScene library filename renders time) w =
          ⟨h.issued ++ [(Scene.create w library filename renders time).1.root], h.taken⟩ :=
        congrArg (History.mk _) (List.append_nil _)
      exact hafter ▸ hw.createScene library filename renders time
    | setName id name =>
      have hafter : h.after (.setName id name) w = ⟨h.issued, h.taken ++ w.takings id name⟩ :=
        congrArg (History.mk · _) (List.append_nil _)
      exact hafter ▸ hw.setName id name
    | discard id =>
      have hafter : h.after (.discard id) w = ⟨h.issued, h.taken ++ w.takings id ""⟩ :=
        congrArg (History.mk · _) (List.append_nil _)
      exact hafter ▸ (hw.setName id "").moves (moves_discard w id)
    | _ => exact False.elim hc
  · exact (h.after_eq w hc).symm ▸ hw.moves (Call.moves w hc)

end Recorded

theorem Run.recorded {h : History} (hw : Run h w) : Recorded h w := by
  induction hw with
  | empty => exact .empty
  | call c _ ih => exact ih.call c

/-! ### What the registry tells -/

/-- The live nodes that go by a name, in the order in which they took it. -/
def takers (w : World) (h : History) (name : String) : List Node :=
  (latest h.taken).filterMap fun t => if t.name = name then w.node? t.id else none

/-- The registry lists the live nodes, each under its name, and looks names up in the order in which they were
taken. -/
structure Consistent (h : History) (w : World) : Prop where
  /-- No id is handed out twice. -/
  distinct : h.issued.Nodup
  /-- The live nodes, in the order in which they were made. -/
  ids : w.registry.ids = h.issued.filter w.isLive
  updating : w.registry.updating = h.issued.filter fun id => (w.node? id).any (·.capabilities.update)
  sensing : w.registry.sensing = h.issued.filter fun id => (w.node? id).any (·.capabilities.event)
  /-- A node is listed once under its name, and nowhere if it has none. -/
  entries : ∀ n, w.node? n.id = some n →
    w.registry.names.filter (·.2 == n.id) = if n.name = "" then [] else [(n.name, n.id)]
  /-- Nothing else is listed. -/
  valid : ∀ e ∈ w.registry.names, e.1 ≠ "" ∧ w.isLive e.2 = true
  order : ∀ name, name ≠ "" → w.registry.idsNamed name = (w.takers h name).map (·.id)
  /-- All nodes that go by a name are found. -/
  named : ∀ name, name ≠ "" → w.named name = w.takers h name ∧
    ∀ n, n ∈ w.named name ↔ w.node? n.id = some n ∧ n.name = name
  /-- The first one within a scope is found. -/
  found : ∀ name, name ≠ "" → w.find? name = (w.takers h name).head? ∧
    (∀ scene, w.findInScene? name scene = (w.takers h name).find? (·.environment.scene == scene)) ∧
      ∀ file, w.findInFile? name file =
        (w.takers h name).find? fun n => Path.same n.environment.filename file

namespace Recorded

variable {h : History}

/-- A sublist of the ids handed out is told by its members. -/
theorem eq_filter (hw : Recorded h w) {ids : List NodeId} (hids : ids.Sublist h.issued)
    {p : NodeId → Bool} (hp : ∀ id ∈ h.issued, p id = true ↔ id ∈ ids) : ids = h.issued.filter p := by
  have hnodup := hw.nodup_issued
  refine (hnodup.perm_iff_eq_of_sublist hids List.filter_sublist).1 ?_
  refine (List.perm_ext_iff_of_nodup (hnodup.sublist hids) (hnodup.filter p)).2 fun id => ?_
  rw [List.mem_filter]
  exact ⟨fun hid => ⟨hids.subset hid, (hp id (hids.subset hid)).2 hid⟩, fun hid => (hp id hid.1).1 hid.2⟩

theorem capable_eq_filter (hw : Recorded h w) (c : Capabilities → Bool) :
    (w.identities.filter (c ·.behavior.capabilities)).map (·.id) =
      h.issued.filter fun id => (w.node? id).any (c ·.capabilities) := by
  have hsub : ((w.identities.filter (c ·.behavior.capabilities)).map (·.id)).Sublist h.issued :=
    (List.filter_sublist.map _).trans ((map_id_identities w).symm ▸ hw.live)
  refine hw.eq_filter hsub fun id _ => ?_
  rw [identities, List.filter_map, List.map_map, List.mem_map, Option.any_eq_true]
  constructor
  · rintro ⟨n, hn, hc⟩
    exact ⟨n, List.mem_filter.2 ⟨mem_nodes_of_node? hn, hc⟩, id_of_node? hn⟩
  · rintro ⟨n, hn, rfl⟩
    obtain ⟨hmem, hc⟩ := List.mem_filter.1 hn
    exact ⟨n, node?_of_mem hw.nodup_liveIds hmem, hc⟩

theorem mem_latest_iff (hw : Recorded h w) (hn : w.node? n.id = some n) (hname : name ≠ "") :
    ⟨n.id, name⟩ ∈ latest h.taken ↔ n.name = name := by
  have hlast : n.name = lastName h.taken n.id := hw.named _ (mem_identities hn)
  rw [hlast]
  constructor
  · exact fun hmem => lastName_of_mem hmem
  · intro heq
    unfold lastName at heq
    cases hfind : (latest h.taken).find? (·.id == n.id) with
    | none => exact absurd (by rw [← heq, hfind]; rfl) hname
    | some t =>
      have hid : t.id = n.id := by simpa using List.find?_some hfind
      rw [hfind] at heq
      obtain rfl : t.name = name := heq
      exact hid ▸ List.mem_of_find?_eq_some hfind

theorem idsNamed_eq (hw : Recorded h w) (hname : name ≠ "") :
    w.registry.idsNamed name =
      ((latest h.taken).filter fun t => t.name == name && w.isLive t.id).map (·.id) := by
  rw [Registry.idsNamed, hw.names, List.filter_map, List.map_map, List.filter_filter]
  refine congrArg _ (List.filter_congr fun t _ => ?_)
  rw [Function.comp_apply, Bool.eq_iff_iff, Bool.and_eq_true, Bool.and_eq_true, Bool.and_eq_true, beq_iff_eq,
    bne_iff_ne]
  exact and_congr_right fun ht => and_iff_right fun hempty => hname (ht.symm.trans hempty)

theorem takers_eq (hw : Recorded h w) (hname : name ≠ "") : w.named name = w.takers h name := by
  rw [World.named, hw.idsNamed_eq hname, List.filterMap_map, List.filterMap_filter, takers]
  refine List.filterMap_congr fun t _ => ?_
  by_cases ht : t.name = name
  · cases hlive : w.isLive t.id with
    | true => simp [ht]
    | false =>
      have hnone : w.node? t.id = none :=
        Option.eq_none_iff_forall_ne_some.2 fun n hn => by simp [isLive_of_node? hn] at hlive
      simp [ht, hnone]
  · simp [ht]

theorem mem_takers_iff (hw : Recorded h w) (hname : name ≠ "") :
    n ∈ w.takers h name ↔ w.node? n.id = some n ∧ n.name = name := by
  rw [takers, List.mem_filterMap]
  constructor
  · rintro ⟨t, ht, hfound⟩
    split at hfound
    · rename_i htaken
      obtain hid := id_of_node? hfound
      have hn : w.node? n.id = some n := hid ▸ hfound
      refine ⟨hn, (hw.mem_latest_iff hn hname).1 ?_⟩
      rwa [hid, ← htaken]
    · cases hfound
  · rintro ⟨hn, htaken⟩
    exact ⟨⟨n.id, name⟩, (hw.mem_latest_iff hn hname).2 htaken, by simpa using hn⟩

/-- The ids of the nodes that are found are those of them that are live. -/
theorem map_id_filterMap (w : World) (ids : List NodeId) :
    (ids.filterMap w.node?).map (·.id) = ids.filter w.isLive := by
  induction ids with
  | nil => rfl
  | cons id rest ih =>
    cases hn : w.node? id with
    | none =>
      have hlive : ¬w.isLive id = true := fun hlive => by
        obtain ⟨n, hn'⟩ := isLive_iff.1 hlive
        cases hn.symm.trans hn'
      rw [List.filterMap_cons_none hn, List.filter_cons_of_neg hlive, ih]
    | some n =>
      rw [List.filterMap_cons_some hn, List.filter_cons_of_pos (isLive_of_node? hn), List.map_cons, ih,
        id_of_node? hn]

theorem map_id_takers (hw : Recorded h w) (hname : name ≠ "") :
    w.registry.idsNamed name = (w.takers h name).map (·.id) := by
  rw [← hw.takers_eq hname, World.named, map_id_filterMap, List.filter_eq_self.2]
  intro id hid
  obtain ⟨e, he, rfl⟩ := List.mem_map.1 hid
  exact (hw.of_mem_names (List.mem_filter.1 he).1).2.2

theorem filter_names (hw : Recorded h w) (hn : w.node? n.id = some n) :
    w.registry.names.filter (·.2 == n.id) = if n.name = "" then [] else [(n.name, n.id)] := by
  have hlast : n.name = lastName h.taken n.id := hw.named _ (mem_identities hn)
  have hentry : ∀ e ∈ w.registry.names, e.2 = n.id → e.1 = n.name := fun e he hid => by
    have htaken : lastName h.taken e.2 = e.1 := lastName_of_mem (hw.of_mem_names he).1
    rw [hlast, ← hid, htaken]
  split
  · rename_i hempty
    refine List.filter_eq_nil_iff.2 fun e he hid => (hw.of_mem_names he).2.1 ?_
    exact (hentry e he (by simpa using hid)).trans hempty
  · rename_i hname
    have hmem : (n.name, n.id) ∈ w.registry.names := by
      rw [hw.names]
      refine List.mem_map.2 ⟨⟨n.id, n.name⟩, List.mem_filter.2 ⟨(hw.mem_latest_iff hn hname).2 rfl, ?_⟩, rfl⟩
      simpa using ⟨hname, isLive_of_node? hn⟩
    have honly : ∀ e ∈ w.registry.names, (e.2 == n.id) = (e == (n.name, n.id)) := fun e he => by
      rw [Bool.eq_iff_iff, beq_iff_eq, beq_iff_eq]
      exact ⟨fun hid => Prod.ext (hentry e he hid) hid, fun heq => heq ▸ rfl⟩
    rw [List.filter_congr honly, List.filter_beq, List.count_eq_one_of_mem hw.nodup_names hmem]
    rfl

theorem consistent (hw : Recorded h w) : Consistent h w where
  distinct := hw.nodup_issued
  ids := hw.ids.trans (hw.eq_filter hw.live fun _ _ => mem_liveIds.symm)
  updating := hw.updating.trans (hw.capable_eq_filter (·.update))
  sensing := hw.sensing.trans (hw.capable_eq_filter (·.event))
  entries n hn := hw.filter_names hn
  valid e he := (hw.of_mem_names he).2
  order name hname := hw.map_id_takers hname
  named name hname := ⟨hw.takers_eq hname, fun n => hw.takers_eq hname ▸ hw.mem_takers_iff hname⟩
  found name hname := by
    rw [find?, hw.takers_eq hname]
    refine ⟨rfl, fun scene => ?_, fun file => ?_⟩
    · rw [findInScene?, hw.takers_eq hname]
    · rw [findInFile?, hw.takers_eq hname]

end Recorded

/-- **The registry mirrors the nodes.** After any calls it lists exactly the live nodes, in the order in which
they were made, and each of them under its name if it has one; the nodes that go by one name are listed in the
order in which they took it, and looking a name up finds the first of them within the scope. No id is handed out
twice. -/
theorem registry_consistent {h : History} (hw : Run h w) : Consistent h w := hw.recorded.consistent

/-- A group and a timer take the same name; the group takes it once more, leaves it and comes back to it. -/
theorem registry_consistent_renaming : ∃ h w, Run h w ∧ Consistent h w ∧
    h.issued = [⟨1⟩, ⟨2⟩] ∧ w.registry.names = [("A", ⟨2⟩), ("A", ⟨1⟩)] ∧ w.registry.updating = [⟨2⟩] ∧
      (w.find? "A").map (·.id) = some ⟨2⟩ := by
  have hmade := (Run.empty.call (.create Catalog.standard "Group" .detached)).call
    (.create Catalog.standard "TimeSensor" .detached)
  have htaken := ((hmade.call (.setName ⟨1⟩ "A")).call (.setName ⟨2⟩ "A")).call (.setName ⟨1⟩ "A")
  have hrun := (htaken.call (.setName ⟨1⟩ "B")).call (.setName ⟨1⟩ "A")
  exact ⟨_, _, hrun, registry_consistent hrun, rfl, rfl, rfl, rfl⟩

end World

end SceneGraph
