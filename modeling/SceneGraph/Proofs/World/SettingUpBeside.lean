import SceneGraph.Proofs.Cascade.SettingUp
import SceneGraph.Proofs.Traversal
import SceneGraph.Proofs.World.Beside

/-!
# Setting up beside other nodes

A node that is set up in a world is set up in the same way in a world that has other nodes beside
(`World.Beside`): it has the same ancestors, claims the same children, and so on down to the nodes that refer
to no other.

* `Beside.ancestors`: the ancestors of a node.
* `Beside.runAdopt`, `Beside.runSetUp`: what a behaviour does before and after the nodes below.
* `Beside.initializeNode`: setting up as a whole.
-/

namespace SceneGraph

variable {φ : NodeId → NodeId}

theorem Field.timestamp_mapNodes (φ : NodeId → NodeId) (f : Field) : (f.mapNodes φ).timestamp = f.timestamp := by
  obtain ⟨⟨t, d⟩, content, time⟩ := f
  cases t <;> cases d <;> rfl

theorem Field.mapNodes_nodes (φ : NodeId → NodeId) (ids : List NodeId) (time : Timestamp) :
    (nodes ids time).mapNodes φ = nodes (ids.map φ) time := by
  simp [nodes, mapNodes, multi]

namespace World

variable {w₀ w w' : World} {env : Environment} {id : NodeId} {ids : List NodeId}

/-- Two ways to change a world at a node that keep worlds beside each other. -/
def KeepsBeside (w₀ : World) (env : Environment) (act act' : World → NodeId → World) : Prop :=
  ∀ {w w' : World} {id : NodeId}, Beside w₀ env w w' → 0 < id.value →
    Beside w₀ env (act w id) (act' w' (w₀.shift id))

namespace Beside

/-- Something is done at one node after the other. -/
theorem foldl {act act' : World → NodeId → World} (hact : KeepsBeside w₀ env act act')
    (h : Beside w₀ env w w') (hids : ∀ id ∈ ids, 0 < id.value) :
    Beside w₀ env (ids.foldl act w) ((ids.map w₀.shift).foldl act' w') := by
  induction ids generalizing w w' with
  | nil => exact h
  | cons id rest ih =>
    obtain ⟨hid, hrest⟩ := List.forall_mem_cons.1 hids
    exact ih (hact h hid) hrest

variable (h : Beside w₀ env w w')
include h

/-! ### Ancestors and children -/

theorem parentsOf (hid : 0 < id.value) : w'.parentsOf (w₀.shift id) = (w.parentsOf id).map w₀.shift := by
  rw [World.parentsOf, h.node? hid, World.parentsOf]
  cases w.node? id with
  | none => rfl
  | some n => exact n.parentIds_mapNodes _

theorem pos_parentsOf : ∀ p ∈ w.parentsOf id, 0 < p.value := by
  rw [World.parentsOf]
  cases hn : w.node? id with
  | none => simp
  | some n => exact (h.own n (mem_nodes_of_node? hn)).parents

/-- A traversal along the same successors lists the same nodes. -/
theorem preorder {next next' : NodeId → List NodeId} (hnext : ∀ a : NodeId, 0 < a.value →
      (∀ b ∈ next a, 0 < b.value) ∧ next' (w₀.shift a) = (next a).map w₀.shift) (hid : 0 < id.value) :
    preorder next' w'.liveIds (next' (w₀.shift id)) [w₀.shift id] =
      (preorder next w.liveIds (next id) [id]).map w₀.shift := by
  obtain ⟨hpos, heq⟩ := hnext id hid
  have hseen : ∀ a : NodeId, 0 < a.value → (w₀.shift a ∈ [w₀.shift id] ↔ a ∈ [id]) := fun a _ => by
    rw [List.mem_singleton, List.mem_singleton, w₀.shift_injective.eq_iff]
  rw [heq]
  exact preorder_map (fun a _ b _ heq => w₀.shift_injective heq) hnext (fun a ha => h.mem_liveIds ha) hpos hseen

theorem ancestors (hid : 0 < id.value) : w'.ancestors (w₀.shift id) = (w.ancestors id).map w₀.shift :=
  congrArg (w₀.shift id :: ·) (h.preorder (fun _ ha => ⟨h.pos_parentsOf, h.parentsOf ha⟩) hid)

theorem children (hid : 0 < id.value) : w'.children (w₀.shift id) = (w.children id).map w₀.shift := by
  rw [World.children, h.node? hid, World.children]
  cases w.node? id with
  | none => rfl
  | some n => exact n.nodesIn_mapNodes _ _

theorem pos_children : ∀ c ∈ w.children id, 0 < c.value := by
  rw [World.children]
  cases hn : w.node? id with
  | none => simp
  | some n => exact fun c hc => (h.own n (mem_nodes_of_node? hn)).references c (n.nodesIn_subset _ hc)

/-- The same children are accepted. -/
theorem accept (hid : 0 < id.value) (proposed : List NodeId) :
    (w'.accept (w₀.shift id) (proposed.map w₀.shift)).1 = (w.accept id proposed).1.map w₀.shift ∧
      (w'.accept (w₀.shift id) (proposed.map w₀.shift)).2.1 = (w.accept id proposed).2.1.map w₀.shift ∧
      Beside w₀ env (w.accept id proposed).2.2 (w'.accept (w₀.shift id) (proposed.map w₀.shift)).2.2 := by
  have hcontains : ∀ c, (w'.ancestors (w₀.shift id)).contains (w₀.shift c) = (w.ancestors id).contains c := by
    intro c
    rw [h.ancestors hid, Bool.eq_iff_iff, List.contains_iff_mem, List.contains_iff_mem,
      List.mem_map_of_injective w₀.shift_injective]
  refine ⟨?_, ?_, h.unchanged (accept_spec w id proposed).2 (accept_spec w' _ _).2⟩
  · change (proposed.map w₀.shift).filter _ = (proposed.filter _).map w₀.shift
    rw [List.filter_map]
    exact congrArg (List.map _) (List.filter_congr fun c _ => congrArg not (hcontains c))
  · change (proposed.map w₀.shift).filter _ = (proposed.filter _).map w₀.shift
    rw [List.filter_map]
    exact congrArg (List.map _) (List.filter_congr fun c _ => hcontains c)

theorem addParent {c p : NodeId} (hc : 0 < c.value) (hp : 0 < p.value) :
    Beside w₀ env (w.addParent c p) (w'.addParent (w₀.shift c) (w₀.shift p)) := by
  refine h.modify hc (fun n _ _ => ?_) fun n _ _ hn => { hn with parents := fun q hq => ?_ }
  · exact congrArg (fun parents => { n.mapNodes w₀.shift with parents })
      (Node.addParent_map w₀.shift_injective p n.parents)
  · rw [Node.parentIds, Node.map_fst_addParent] at hq
    split at hq
    · exact hn.parents q hq
    · rcases List.mem_append.1 hq with hq | hq
      · exact hn.parents q hq
      · exact List.mem_singleton.1 hq ▸ hp

/-- A list of children is replaced, whatever is left to do. -/
theorem storeChildren (hid : 0 < id.value) {new : List NodeId} (hnew : ∀ c ∈ new, 0 < c.value) (time : Timestamp)
    (old old' : List NodeId) (after after' : Aftermath) :
    Beside w₀ env (w.storeChildren id old new time after).2
      (w'.storeChildren (w₀.shift id) old' (new.map w₀.shift) time after').2 := by
  unfold World.storeChildren
  rw [h.node? hid]
  cases w.node? id with
  | none => exact h
  | some n =>
    dsimp only [Option.map_some]
    rw [Node.fieldOfKind, Node.fieldOfKind, Node.field?_mapNodes]
    cases n.field? childrenField with
    | none => exact h
    | some f =>
      dsimp only [Option.map_some]
      rw [f.kind_mapNodes]
      by_cases hkind : f.kind = ⟨.node, .multi⟩
      · rw [if_pos hkind, if_pos hkind, ← Field.mapNodes_nodes]
        refine (h.store hid ?_).enter _ _
        rw [Field.references_nodes]
        exact hnew
      · rw [if_neg hkind, if_neg hkind]
        exact h

/-- The same children are claimed, and the same are given up. -/
theorem adoptChildren (hid : 0 < id.value) :
    ∃ released, (w.adoptChildren id).1 = { released } ∧
      (w'.adoptChildren (w₀.shift id)).1 = { released := released.map w₀.shift } ∧
        (∀ r ∈ released, 0 < r.value) ∧ Beside w₀ env (w.adoptChildren id).2 (w'.adoptChildren (w₀.shift id)).2 := by
  obtain ⟨haccepted, hrejected, hquiet⟩ := h.accept hid (w.children id)
  have hpos : ∀ (q : NodeId → Bool), ∀ c ∈ (w.children id).filter q, 0 < c.value :=
    fun q c hc => h.pos_children c (List.mem_filter.1 hc).1
  have hclaim : KeepsBeside w₀ env (fun w c => w.addParent c id) fun w c => w.addParent c (w₀.shift id) :=
    fun h hc => h.addParent hc hid
  -- the list is stored again only if a child was rejected, and as many are rejected on both sides
  unfold World.adoptChildren
  dsimp only
  rw [h.children hid, haccepted, hrejected, List.length_map, List.length_map]
  split
  · have htime : ∀ {v v' : World}, Beside w₀ env v v' →
        ((v'.node? (w₀.shift id)).bind (·.field? childrenField)).elim .unset (·.timestamp) =
          ((v.node? id).bind (·.field? childrenField)).elim .unset (·.timestamp) := by
      intro v v' hv
      rw [hv.node? hid]
      cases v.node? id with
      | none => rfl
      | some n =>
        rw [Option.map_some, Option.bind_some, Option.bind_some, Node.field?_mapNodes]
        cases n.field? childrenField with
        | none => rfl
        | some f => exact f.timestamp_mapNodes _
    rw [storeChildren_fst, storeChildren_fst, htime hquiet]
    refine ⟨(w.accept id (w.children id)).2.1 ++ w.children id, rfl, ?_, ?_, ?_⟩
    · rw [List.map_append]
      rfl
    · exact List.forall_mem_append.2 ⟨hpos _, h.pos_children⟩
    · exact .foldl hclaim (hquiet.storeChildren hid (hpos _) _ _ _ _ _) (hpos _)
  · exact ⟨_, rfl, rfl, hpos _, .foldl hclaim hquiet (hpos _)⟩

/-! ### Behaviours -/

theorem adopt {n : Node} (hid : 0 < n.id.value) :
    ∃ released, (w.adopt n).1 = { released } ∧
      (w'.adopt (n.mapNodes w₀.shift)).1 = { released := released.map w₀.shift } ∧
        (∀ r ∈ released, 0 < r.value) ∧ Beside w₀ env (w.adopt n).2 (w'.adopt (n.mapNodes w₀.shift)).2 := by
  have hbehavior : (n.mapNodes w₀.shift).behavior = n.behavior := rfl
  unfold World.adopt
  rw [hbehavior]
  cases n.behavior with
  | grouping => exact h.adoptChildren hid
  | recorder c => exact ⟨[], rfl, rfl, by simp, h.enter _ _⟩
  | _ => exact ⟨[], rfl, rfl, by simp, h⟩

theorem runAdopt (hid : 0 < id.value) : Beside w₀ env (w.runAdopt id) (w'.runAdopt (w₀.shift id)) := by
  unfold World.runAdopt
  rw [h.node? hid]
  cases hn : w.node? id with
  | none => exact h
  | some n =>
    have hstep := h.enter (.step (.adopting id)) (.step (.adopting (w₀.shift id)))
    obtain ⟨released, heq, heq', hpos, hadopted⟩ := hstep.adopt (id_of_node? hn ▸ hid)
    dsimp only [Option.map_some, World.step]
    rw [heq, heq']
    exact hadopted.release hpos

/-- What a node refers to is held while something is done with it. -/
theorem forReferences {act act' : World → NodeId → World} (hact : KeepsBeside w₀ env act act')
    (hid : 0 < id.value) : Beside w₀ env (w.forReferences id act) (w'.forReferences (w₀.shift id) act') := by
  have hpos : ∀ r ∈ w.referencesOf id, 0 < r.value := h.pos_referencesOf
  unfold World.forReferences
  dsimp only
  rw [h.referencesOf hid]
  exact (Beside.foldl hact (h.holdAll _) hpos).dropAll hpos

theorem attach (p p' c c' : NodeId) : Beside w₀ env (w.attach p c) (w'.attach p' c') :=
  h.unchanged (reparents_attach w p c) (reparents_attach w' p' c')

theorem renderNode {n : Node} (hid : 0 < n.id.value) :
    Beside w₀ env (w.renderNode n) (w'.renderNode (n.mapNodes w₀.shift)) := by
  have hrenders : (n.mapNodes w₀.shift).environment.renders = n.environment.renders := rfl
  have htype : (n.mapNodes w₀.shift).typeName = n.typeName := rfl
  unfold World.renderNode
  rw [hrenders, htype]
  split
  · refine (h.enter _ _).modify hid (fun m _ _ => ?_) fun _ _ _ hm =>
      hm.unseen ..
    refine congrArg (fun object => { m.mapNodes w₀.shift with object }) ?_
    split <;> rfl
  · exact h

theorem setUpChildren (hid : 0 < id.value) :
    Beside w₀ env (w.setUpChildren id) (w'.setUpChildren (w₀.shift id)) := by
  unfold World.setUpChildren
  rw [h.node? hid]
  cases hn : w.node? id with
  | none => exact h
  | some n =>
    have hobject : (n.mapNodes w₀.shift).object.isNone = n.object.isNone := Option.isNone_map
    have hfirst : (n.mapNodes w₀.shift).isFirstInitialization = n.isFirstInitialization := rfl
    have hrendered : Beside w₀ env (if n.object.isNone then w.renderNode n else w)
        (if n.object.isNone then w'.renderNode (n.mapNodes w₀.shift) else w') := by
      split
      · exact h.renderNode (id_of_node? hn ▸ hid)
      · exact h
    dsimp only [Option.map_some]
    rw [hobject, hfirst]
    split
    · rw [hrendered.children hid]
      exact .foldl (fun h _ => h.attach _ _ _ _) hrendered hrendered.pos_children
    · exact hrendered

theorem setUp {n : Node} (hid : 0 < n.id.value) (time : Timestamp) :
    Beside w₀ env (w.setUp n time) (w'.setUp (n.mapNodes w₀.shift) time) := by
  have hbehavior : (n.mapNodes w₀.shift).behavior = n.behavior := rfl
  unfold World.setUp
  rw [hbehavior]
  cases n.behavior with
  | grouping => exact h.setUpChildren hid
  | recorder c => exact h.enter _ _
  | _ => exact h

theorem runSetUp (hid : 0 < id.value) (time : Timestamp) :
    Beside w₀ env (w.runSetUp id time) (w'.runSetUp (w₀.shift id) time) := by
  have hcounted : Beside w₀ env (w.modify id fun n => { n with initializations := n.initializations + 1 })
      (w'.modify (w₀.shift id) fun n => { n with initializations := n.initializations + 1 }) :=
    h.modify hid (fun _ _ _ => rfl) fun _ _ _ hm => hm.unseen ..
  unfold World.runSetUp
  dsimp only
  rw [hcounted.node? hid]
  cases hn : (w.modify id fun n => { n with initializations := n.initializations + 1 }).node? id with
  | none => exact hcounted
  | some n => exact (hcounted.enter _ _).setUp (id_of_node? hn ▸ hid) time

theorem mark (hid : 0 < id.value) : Beside w₀ env (w.mark id) (w'.mark (w₀.shift id)) :=
  h.modify hid (fun _ _ _ => rfl) fun _ _ _ hm => hm.unseen ..

/-! ### Levels -/

omit h in
theorem setUpLevel {nested nested' : World → NodeId → World} (hnested : KeepsBeside w₀ env nested nested')
    (time : Timestamp) : KeepsBeside w₀ env (setUpLevel time nested) (setUpLevel time nested') := by
  intro w w' id h hid
  unfold World.setUpLevel
  rw [h.node? hid]
  cases w.node? id with
  | none => exact h
  | some n =>
    have hmarked : (n.mapNodes w₀.shift).initialized = n.initialized := rfl
    dsimp only [Option.map_some]
    rw [hmarked]
    split
    · exact h
    · exact (((h.mark hid).runAdopt hid).forReferences hnested hid).runSetUp hid time

/-- **Setting up** goes on in the same way, by induction on the levels. -/
theorem initializeNode (hid : 0 < id.value) (time : Timestamp) :
    Beside w₀ env (w.initializeNode id time) (w'.initializeNode (w₀.shift id) time) := by
  have hlevels : ∀ levels, KeepsBeside w₀ env ((World.setUpLevel time)^[levels] fun w _ => w)
      ((World.setUpLevel time)^[levels] fun w _ => w) := by
    intro levels
    induction levels with
    | zero => exact fun h _ => h
    | succ levels ih =>
      rw [Function.iterate_succ_apply']
      exact setUpLevel ih time
  -- more nodes may wait to be set up in one world than in the other: a number of levels that is enough for both
  have hw : w.uninitializedCount < w.uninitializedCount + w'.uninitializedCount + 1 := by omega
  have hw' : w'.uninitializedCount < w.uninitializedCount + w'.uninitializedCount + 1 := by omega
  rw [← iterate_setUpLevel_eq time (fun w _ => w) hw, ← iterate_setUpLevel_eq time (fun w _ => w) hw']
  exact hlevels _ h hid

end Beside

end World

end SceneGraph
