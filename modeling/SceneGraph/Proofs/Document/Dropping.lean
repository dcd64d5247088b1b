import Mathlib.Data.Fintype.Card
import Mathlib.Data.Fintype.EquivFin
import Mathlib.Data.Fintype.Sets
import Mathlib.Order.WellFounded
import SceneGraph.Proofs.Document.Upkeep

/-!
# Dropping a scene

When a scene is dropped that nobody else holds, and the references among its nodes form no cycle, then all its
nodes go, each once, and the world is as it was before the document was read, but for the ids that were handed
out.

* `Upheld.exists_source`: whatever lives is reached from a handle or from a cycle of references.
* `Beside.exists_destroyed`: what a release destroys, and that it reports no error.
* `Document.drop_read`: dropping a scene that was read releases everything, whatever world it was read into, as
  long as only ids are in use there that were handed out (`World.Sealed`).
-/

namespace SceneGraph

open Relation (ReflTransGen TransGen)

/-- The node that an entry tells the destruction of. -/
def Entry.destroyed? : Entry → Option NodeId
  | .step (.destroyed id) => some id
  | _ => none

namespace Journal

/-- The nodes that were destroyed, the last one first. -/
def destroyed (j : Journal) : List NodeId := j.filterMap Entry.destroyed?

theorem destroyed_append (j j' : Journal) : destroyed (j ++ j') = destroyed j ++ destroyed j' :=
  List.filterMap_append

theorem destroyed_cons (id : NodeId) (j : Journal) : destroyed (.step (.destroyed id) :: j) = id :: destroyed j :=
  List.filterMap_cons_some rfl

theorem destroyed_of_events {j : Journal} (h : ∀ e ∈ j, ∃ event, e = .event event) : destroyed j = [] := by
  rw [destroyed, List.filterMap_eq_nil_iff]
  intro e he
  obtain ⟨event, rfl⟩ := h e he
  rfl

end Journal

namespace World

/-- A live node is registered for a scene. -/
def BelongsTo (w : World) (scene id : NodeId) : Prop := ∃ n ∈ w.nodes, n.id = id ∧ n.environment.scene = scene

instance (w : World) (scene id : NodeId) : Decidable (w.BelongsTo scene id) :=
  inferInstanceAs (Decidable (∃ n ∈ w.nodes, n.id = id ∧ n.environment.scene = scene))

/-- A node of a scene refers to another one. -/
structure RefersWithin (w : World) (scene a b : NodeId) : Prop where
  refers : w.Refers a b
  source : w.BelongsTo scene a
  target : w.BelongsTo scene b

/-- A scene that may go as a whole: references among its nodes form no cycle, and the scene's handle of its
root is the only handle of one of them. -/
structure Releasable (w : World) (root : NodeId) : Prop where
  acyclic : ∀ id, ¬ TransGen (w.RefersWithin root) id id
  handles : ∀ id, w.BelongsTo root id → w.held.count id = if id = root then 1 else 0

variable {w₀ w w' : World} {env : Environment} {ids : List NodeId} {root : NodeId}

/-! ### Acyclic references -/

/-- **Whatever lives is reached** from a handle or from a cycle of references: among the finitely many nodes from which
it is reached there would be a first one otherwise, which nobody holds. -/
theorem Upheld.exists_source (h : Upheld [] w) {id : NodeId} (hid : id ∈ w.liveIds) :
    ∃ c, ReflTransGen w.Refers c id ∧ (c ∈ w.held ∨ TransGen w.Refers c c) := by
  by_contra hnone
  push Not at hnone
  let before (a b : { a // a ∈ w.liveIds ∧ ReflTransGen w.Refers a id }) : Prop := TransGen w.Refers a.1 b.1
  have htrans : IsTrans _ before := ⟨fun _ _ _ hab hbc => TransGen.trans hab hbc⟩
  have hirrefl : Std.Irrefl before := ⟨fun a => (hnone a.1 a.2.2).2⟩
  have hfinite : Finite { a // a ∈ w.liveIds ∧ ReflTransGen w.Refers a id } :=
    .of_injective (fun a => (⟨a.1, a.2.1⟩ : { a // a ∈ w.liveIds })) fun _ _ h => Subtype.ext (Subtype.mk.inj h)
  have hwf : WellFounded before := Finite.wellFounded_of_trans_of_irrefl before
  obtain ⟨⟨a, hlive, hreaches⟩, -, hfirst⟩ := hwf.has_min Set.univ ⟨⟨id, hid, .refl⟩, trivial⟩
  have hisHeld := (h.held a hlive).resolve_right List.not_mem_nil
  rcases isHeld_iff.1 hisHeld with hmem | ⟨m, hm, hr⟩
  · exact (hnone a hreaches).1 hmem
  · have hrefers : w.Refers m.id a := by rwa [Refers, World.referencesOf, node?_of_mem h.nodup hm]
    exact hfirst ⟨m.id, List.mem_map_of_mem hm, .head hrefers hreaches⟩ trivial (.single hrefers)

/-- Where there are no handles and no cycles of references, nobody lives. -/
theorem Upheld.nodes_eq_nil (h : Upheld [] w) (hheld : w.held = []) (hacyclic : ∀ id, ¬ TransGen w.Refers id id) :
    w.nodes = [] := by
  rw [List.eq_nil_iff_forall_not_mem]
  intro n hn
  obtain ⟨c, -, hmem | hcycle⟩ := h.exists_source (List.mem_map_of_mem hn)
  · rw [hheld] at hmem
    cases hmem
  · exact hacyclic c hcycle

/-- A release adds no references. -/
theorem Refers.of_release (hw : w.liveIds.Nodup) {a b : NodeId} (h : (release ids w).Refers a b) : w.Refers a b := by
  have hgraph : (release ids w).graph ⊆ w.graph := by
    refine release_induction (I := fun v => v.graph ⊆ w.graph) (fun v n _ _ hv => ?_) ids fun _ he => he
    rw [graph_destroy]
    exact fun e he => hv (List.mem_filter.1 he).1
  obtain ⟨n, hn, hb⟩ := h.exists_node
  obtain rfl := id_of_node? hn
  obtain ⟨m, hm, hsame⟩ := List.mem_map.1 (hgraph (List.mem_map.2 ⟨n, mem_nodes_of_node? hn, rfl⟩))
  obtain ⟨hid, hreferences⟩ := Prod.mk.inj hsame
  rwa [Refers, World.referencesOf, ← hid, node?_of_mem hw hm, Option.map_some, Option.getD_some, hreferences]

/-- Calls hand out every id that comes into use, but for the scenes that a host writes into environments. -/
theorem Reachable.sealed {types : Catalog} (hr : types.Regular) (htypes : ∀ t ∈ Catalog.withScenes, t ∈ types)
    (hw : Reachable types w) (hscenes : ∀ n ∈ w.nodes, n.environment.scene.value ≤ w.registry.lastId) :
    w.Sealed := by
  have hissued := hw.issued hr htypes hscenes
  obtain ⟨history, hrun⟩ : ∃ history, Run history w := by
    clear hscenes hissued
    induction hw with
    | empty => exact ⟨_, .empty⟩
    | call hw hc ih =>
      obtain ⟨history, hrun⟩ := ih
      exact ⟨_, .call _ hrun⟩
  have hrecorded := hrun.recorded
  have hlive : ∀ id ∈ w.liveIds, id.value ≤ w.registry.lastId := List.forall_mem_map.2 hissued.ids
  refine ⟨hissued, fun n hn p hp => ?_, hrecorded.ids ▸ hlive, ?_, ?_⟩
  · -- parents are grouping nodes that are alive
    have hclaimed := ((hw.mirrored hr).counts.mem_parentIds_iff hn p).1 hp
    obtain ⟨g, hg, rfl, -⟩ := exists_of_mem_claimed hclaimed
    exact hissued.ids g hg
  · rw [hrecorded.updating]
    exact fun id hid => hlive id (map_id_identities w ▸ (List.filter_sublist.map _).subset hid)
  · rw [hrecorded.sensing]
    exact fun id hid => hlive id (map_id_identities w ▸ (List.filter_sublist.map _).subset hid)

/-- References that always lead to nodes made later form no cycle. -/
theorem Releasable.of_rising (hrising : ∀ n ∈ w.nodes, ∀ r ∈ n.references, n.id.value < r.value)
    (hhandles : ∀ n ∈ w.nodes, n.environment.scene = root → w.held.count n.id = if n.id = root then 1 else 0) :
    w.Releasable root := by
  have hone : ∀ {a b}, w.RefersWithin root a b → a.value < b.value := by
    intro a b h
    obtain ⟨n, hn, hb⟩ := h.refers.exists_node
    obtain rfl := id_of_node? hn
    exact hrising n (mem_nodes_of_node? hn) b hb
  have hlt : ∀ {a b}, TransGen (w.RefersWithin root) a b → a.value < b.value := by
    intro a b h
    induction h with
    | single h => exact hone h
    | tail _ h ih => exact ih.trans (hone h)
  refine ⟨fun id hcycle => Nat.lt_irrefl _ (hlt hcycle), ?_⟩
  rintro id ⟨n, hn, rfl, hbelongs⟩
  exact hhandles n hn hbelongs

theorem held_drop {id : NodeId} (hheld : w.held = [id]) : (w.drop id).held = [] := by
  refine (calm_release _ _).held.trans ?_
  rw [hheld]
  exact List.erase_cons_head id []

/-- When the only handle is given back, everything goes that is not on a cycle of references. -/
theorem Upheld.nodes_drop {id : NodeId} (h : Upheld [] w) (hheld : w.held = [id])
    (hacyclic : ∀ id, ¬ TransGen w.Refers id id) : (w.drop id).nodes = [] := by
  have hbefore : ∀ a b, (w.drop id).Refers a b → w.Refers a b := fun a b hab =>
    Refers.of_release (w := { w with held := [id].foldl List.erase w.held }) h.nodup hab
  exact (h.dropAll [id]).nodes_eq_nil (held_drop hheld) fun a hcycle =>
    hacyclic a (TransGen.mono hbefore _ _ hcycle)

/-- Where there are no nodes, nobody goes by a name. -/
theorem Upheld.names_eq_nil (h : Upheld ids w) (hnodes : w.nodes = []) : w.registry.names = [] := by
  obtain ⟨history, hw⟩ := h.recorded
  rw [List.eq_nil_iff_forall_not_mem]
  intro e he
  have hlive := mem_liveIds.2 (hw.of_mem_names he).2.2
  rw [liveIds, hnodes] at hlive
  cases hlive

/-! ### What is destroyed -/

/-- A node that takes leave enters what recorders and the renderer are told, and nothing else. -/
theorem journal_takeLeave (w : World) (n : Node) :
    ∃ entries, (w.takeLeave n).journal = entries ++ w.journal ∧ ∀ e ∈ entries, ∃ event, e = .event event := by
  have hchildren : ∀ (l : List NodeId) (v : World), ∃ entries,
      (l.foldl (fun v c => (v.removeParent c n.id).detach n.id c) v).journal = entries ++ v.journal ∧
        ∀ e ∈ entries, ∃ event, e = .event event := by
    intro l
    induction l with
    | nil => exact fun v => ⟨[], rfl, by simp⟩
    | cons c rest ih =>
      intro v
      obtain ⟨entries, hentries, hevents⟩ := ih ((v.removeParent c n.id).detach n.id c)
      rw [List.foldl_cons, hentries, detach]
      split
      · rename_i a b _
        refine ⟨entries ++ [.event (.detached a b)], by simp [tell, enter, removeParent, modify], ?_⟩
        exact List.forall_mem_append.2 ⟨hevents, fun e he => ⟨_, List.mem_singleton.1 he⟩⟩
      · exact ⟨entries, rfl, hevents⟩
  obtain heq | heq | heq := takeLeave_cases w n <;> rw [heq]
  · exact ⟨[], rfl, by simp⟩
  · exact ⟨[.event (.destroyed n.id n.name)], rfl, fun e he => ⟨_, List.mem_singleton.1 he⟩⟩
  · exact hchildren _ w

/-- Nobody who is not held has a parent, also after its behaviour took leave. -/
theorem Orderly.parents_takeLeave (h : Orderly w) {n : Node} (hn : w.node? n.id = some n)
    (hfree : w.isHeld n.id = false) : ∃ m, (w.takeLeave n).node? n.id = some m ∧ m.parents = [] := by
  have hnil := h.counts.parents_eq_nil (mem_nodes_of_node? hn) hfree
  refine ⟨_, ((reparents_takeLeave w n).node? n.id).trans (by rw [hn]; rfl), ?_⟩
  dsimp only
  rw [hnil]
  exact Function.iterate_fixed rfl _

theorem Orderly.destroy (h : Orderly w) {n : Node} (hn : w.node? n.id = some n) (hfree : w.isHeld n.id = false) :
    Orderly (w.destroy n) := h.change (.destroyed w n hn hfree)

namespace Beside

/-- The image of a node that nobody holds goes without a complaint. -/
theorem exists_journal_destroy (h : Beside w₀ env w w') (hw : Orderly w) {n : Node} (hn : w.node? n.id = some n)
    (hfree : w.isHeld n.id = false) : ∃ entries,
      (w'.destroy (n.mapNodes w₀.shift)).journal = .step (.destroyed (w₀.shift n.id)) :: entries ++ w'.journal ∧
        ∀ e ∈ entries, ∃ event, e = .event event := by
  have hmem := mem_nodes_of_node? hn
  obtain ⟨m, hm, hnil⟩ := hw.parents_takeLeave hn hfree
  have himage := (h.takeLeave hmem).node? (h.own n hmem).id
  rw [hm, Option.map_some] at himage
  have hsilent : (w'.takeLeave (n.mapNodes w₀.shift)).reportParents (w₀.shift n.id) =
      w'.takeLeave (n.mapNodes w₀.shift) := by
    unfold reportParents
    rw [himage]
    dsimp only
    rw [if_pos]
    rw [Node.mapNodes, hnil]
    rfl
  obtain ⟨entries, hentries, hevents⟩ := journal_takeLeave w' (n.mapNodes w₀.shift)
  refine ⟨entries, ?_, hevents⟩
  have hid : (n.mapNodes w₀.shift).id = w₀.shift n.id := rfl
  rw [World.destroy, hid, hsilent]
  exact congrArg (Entry.step (.destroyed (w₀.shift n.id)) :: ·) hentries

/-- **A release destroys each node at most once**, those that are gone afterwards, and reports no error. -/
theorem exists_destroyed (h : Beside w₀ env w w') (hw : Orderly w) (hids : ∀ id ∈ ids, 0 < id.value) :
    ∃ entries, (World.release (ids.map w₀.shift) w').journal = entries ++ w'.journal ∧
      (∀ e ∈ entries, e.isError = false) ∧
        (Journal.destroyed entries ++ (World.release ids w).liveIds.map w₀.shift).Perm (w.liveIds.map w₀.shift) := by
  let P (v v' : World) : Prop := Orderly v ∧ ∃ entries, v'.journal = entries ++ w'.journal ∧
    (∀ e ∈ entries, e.isError = false) ∧
      (Journal.destroyed entries ++ v.liveIds.map w₀.shift).Perm (w.liveIds.map w₀.shift)
  refine (h.release_induction (P := P) hids ⟨hw, [], rfl, by simp, .refl _⟩ ?_).2.2
  rintro v v' n hv hn hfree ⟨horderly, entries, hentries, hquiet, hperm⟩
  refine ⟨horderly.destroy hn hfree, ?_⟩
  obtain ⟨more, hmore, hevents⟩ := hv.exists_journal_destroy horderly hn hfree
  refine ⟨.step (.destroyed (w₀.shift n.id)) :: more ++ entries, ?_, ?_, ?_⟩
  · rw [hmore, hentries, List.append_assoc]
  · refine List.forall_mem_append.2 ⟨List.forall_mem_cons.2 ⟨rfl, fun e he => ?_⟩, hquiet⟩
    obtain ⟨event, rfl⟩ := hevents e he
    rfl
  · have hdestroyed : Journal.destroyed (.step (.destroyed (w₀.shift n.id)) :: more ++ entries) =
        w₀.shift n.id :: Journal.destroyed entries := by
      rw [List.cons_append, Journal.destroyed_cons, Journal.destroyed_append, Journal.destroyed_of_events hevents]
      rfl
    have hlive : v.liveIds.Perm (n.id :: (v.destroy n).liveIds) := by
      rw [liveIds_destroy, ← horderly.sound.distinct.erase_eq_filter]
      exact List.perm_cons_erase (List.mem_map_of_mem (mem_nodes_of_node? hn))
    rw [hdestroyed, List.cons_append]
    refine (List.perm_middle.symm.trans ?_).trans hperm
    exact (hlive.map w₀.shift).symm.append_left _

/-- The nodes of the scene are the images. -/
theorem belongsTo_iff (h : Beside w₀ env w w') (hscene : 0 < env.scene.value) {id : NodeId} :
    w'.BelongsTo (w₀.shift env.scene) id ↔ ∃ a ∈ w.liveIds, w₀.shift a = id := by
  constructor
  · rintro ⟨n, hn, rfl, hn'⟩
    rw [h.nodes] at hn
    rcases List.mem_append.1 hn with hn | hn
    · exact absurd hn' (ne_shift (h.base.scenes n hn) hscene)
    · obtain ⟨m, hm, rfl⟩ := List.mem_map.1 hn
      exact ⟨m.id, List.mem_map_of_mem hm, rfl⟩
  · rintro ⟨a, ha, rfl⟩
    obtain ⟨m, hm, rfl⟩ := List.mem_map.1 ha
    refine ⟨m.mapNodes w₀.shift, ?_, rfl, congrArg (fun e : Environment => w₀.shift e.scene) (h.own m hm).environment⟩
    rw [h.nodes]
    exact List.mem_append_right _ (List.mem_map_of_mem hm)

/-- References lead from image to image. -/
theorem refersWithin (h : Beside w₀ env w w') (hw : Orderly w) (hscene : 0 < env.scene.value) {a b : NodeId}
    (hab : w.Refers a b) : w'.RefersWithin (w₀.shift env.scene) (w₀.shift a) (w₀.shift b) := by
  obtain ⟨n, hn, hb⟩ := hab.exists_node
  obtain rfl := id_of_node? hn
  have hmem := mem_nodes_of_node? hn
  have hlive : w.isLive b = true := hw.sound.references b (List.mem_flatMap.2 ⟨n, hmem, hb⟩)
  refine ⟨?_, (h.belongsTo_iff hscene).2 ⟨n.id, List.mem_map_of_mem hmem, rfl⟩,
    (h.belongsTo_iff hscene).2 ⟨b, World.mem_liveIds.2 hlive, rfl⟩⟩
  rw [Refers, h.referencesOf (h.own n hmem).id]
  exact List.mem_map_of_mem hab

theorem count_held (h : Beside w₀ env w w') {id : NodeId} (hid : 0 < id.value) :
    w'.held.count (w₀.shift id) = w.held.count id := by
  have hold : w₀.shift id ∉ w₀.held := fun hmem => ne_shift (h.base.held _ hmem) hid rfl
  rw [h.held, List.count_append, List.count_map_of_injective _ _ w₀.shift_injective,
    List.count_eq_zero_of_not_mem hold, Nat.add_zero]

/-- When nothing is left, each node of the scene was destroyed once, and nobody else. -/
theorem exists_destroyed_drop (h : Beside w₀ env w w') (hw : Orderly w) (hscene : 0 < env.scene.value)
    (hnodes : (w.drop env.scene).nodes = []) : ∃ entries,
      (w'.drop (w₀.shift env.scene)).journal = entries ++ w'.journal ∧ (Journal.destroyed entries).Nodup ∧
        (∀ id, id ∈ Journal.destroyed entries ↔ w'.BelongsTo (w₀.shift env.scene) id) ∧
          ∀ e ∈ entries, e.isError = false := by
  have hids : ∀ id ∈ [env.scene], 0 < id.value := fun id hid => List.mem_singleton.1 hid ▸ hscene
  obtain ⟨entries, hentries, hquiet, hperm⟩ :=
    (h.unhold hids).exists_destroyed (hw.change (.unheld w [env.scene])) hids
  have hall : (Journal.destroyed entries).Perm (w.liveIds.map w₀.shift) := by
    have hempty : (w.drop env.scene).liveIds = [] := congrArg (List.map Node.id) hnodes
    refine List.Perm.trans (.of_eq ?_) hperm
    change _ = _ ++ (w.drop env.scene).liveIds.map w₀.shift
    rw [hempty, List.map_nil, List.append_nil]
  refine ⟨entries, hentries, hall.nodup_iff.2 (hw.sound.distinct.map w₀.shift_injective), fun id => ?_, hquiet⟩
  rw [hall.mem_iff, List.mem_map, h.belongsTo_iff hscene]

/-- Nothing is held but the root of the scene, if the scene's handle is the only one of its nodes. -/
theorem held_eq (h : Beside w₀ env w w') (hw : Orderly w) (hscene : 0 < env.scene.value) (hroot : env.scene ∈ w.held)
    (hhandles : ∀ id, w'.BelongsTo (w₀.shift env.scene) id →
      w'.held.count id = if id = w₀.shift env.scene then 1 else 0) : w.held = [env.scene] := by
  have hcount : ∀ id ∈ w.held, w.held.count id = if id = env.scene then 1 else 0 := by
    intro id hid
    have hlive : id ∈ w.liveIds := World.mem_liveIds.2 (hw.sound.held id hid)
    have hsame := hhandles _ ((h.belongsTo_iff hscene).2 ⟨id, hlive, rfl⟩)
    obtain ⟨n, hn, rfl⟩ := List.mem_map.1 hlive
    simpa only [h.count_held (h.own n hn).id, w₀.shift_injective.eq_iff] using hsame
  have honly : ∀ id ∈ w.held, id = env.scene := by
    intro id hid
    by_contra hne
    have hpos := List.count_pos_iff.2 hid
    rw [hcount id hid, if_neg hne] at hpos
    exact Nat.lt_irrefl _ hpos
  have hreplicate := List.eq_replicate_of_mem honly
  have hone := hcount _ hroot
  rw [if_pos rfl, hreplicate, List.count_replicate_self] at hone
  rwa [hone] at hreplicate

end Beside

end World

namespace Document

variable {d : Document} {w₀ : World} {scene : Scene}

/-- The handle of the root is not given back while a document is read. -/
theorem root_mem_held (hcatalog : d.catalog = Catalog.standard) (hread : (d.read {}).result = .ok scene) :
    d.environment.scene ∈ (d.read {}).world.held := by
  obtain ⟨header, hheader⟩ := exists_header hread
  obtain ⟨ids, bound, t, v, e, time, -, hassembles, -, -, hworld⟩ := exists_of_read .empty hcatalog hheader hread
  rw [hworld]
  have hheld := (World.retains_initializeUpTo time v.uninitializedCount v (d.context header {}).environment.scene).held
  exact hheld ▸ hassembles.held

/-- A document that was read beside other nodes can be read into an empty world. -/
theorem exists_read_own (hw : w₀.Issued) (hcatalog : d.catalog = Catalog.standard)
    (hread : (d.read w₀).result = .ok scene) :
    ∃ own, (d.read {}).result = .ok own ∧ scene.root = w₀.shift d.environment.scene := by
  obtain ⟨-, hresult, -, -, hroot⟩ := beside_read hw hcatalog
  rw [hread] at hresult
  cases hown : (d.read {}).result with
  | error e =>
    rw [hown] at hresult
    cases hresult
  | ok own =>
    rw [hown] at hresult
    refine ⟨own, rfl, ?_⟩
    rw [Except.ok.inj hresult, ← hroot own hown]
    rfl

/-- **Dropping a scene releases everything.** A document was read into a world in which every id that is in use
anywhere was handed out, and its scene may go as a whole. Then dropping the scene destroys each of its nodes
once, and nobody else; no node is reported to be destroyed while it is counted among children; the nodes, the
handles and the registry are what they were before the reading, but for the ids handed out; and no list of
parents has one of the nodes that are gone. -/
theorem drop_read (hw : w₀.Sealed) (hcatalog : d.catalog = Catalog.standard)
    (hread : (d.read w₀).result = .ok scene) (hreleasable : (d.read w₀).world.Releasable scene.root) :
    (∃ entries, (scene.drop (d.read w₀).world).journal = entries ++ (d.read w₀).world.journal ∧
      (Journal.destroyed entries).Nodup ∧
      (∀ id, id ∈ Journal.destroyed entries ↔ (d.read w₀).world.BelongsTo scene.root id) ∧
      ∀ e ∈ entries, e.isError = false) ∧
    (scene.drop (d.read w₀).world).nodes = w₀.nodes ∧
    (scene.drop (d.read w₀).world).held = w₀.held ∧
    (scene.drop (d.read w₀).world).registry =
      { w₀.registry with lastId := (d.read w₀).world.registry.lastId } ∧
    ∀ n ∈ (scene.drop (d.read w₀).world).nodes, ∀ p ∈ n.parentIds,
      ¬ (d.read w₀).world.BelongsTo scene.root p := by
  -- what happens is told of the same scene in a world of its own, where the references form no cycle either
  obtain ⟨hbeside, -⟩ := beside_read hw.toIssued hcatalog
  obtain ⟨own, hown, hshift⟩ := exists_read_own hw.toIssued hcatalog hread
  have hpos : 0 < d.environment.scene.value := Nat.one_pos
  obtain ⟨header, hheader⟩ := exists_header hown
  have horderly : World.Orderly (d.read {}).world := (ready .empty hcatalog hheader hown).orderly
  have hupheld := upheld_read hcatalog
  rw [hshift] at hreleasable ⊢
  have hheld := hbeside.held_eq horderly hpos (root_mem_held hcatalog hown) hreleasable.handles
  generalize hv : (d.read {}).world = v at *
  generalize hw' : (d.read w₀).world = w at *
  have hnodes : (v.drop d.environment.scene).nodes = [] := by
    refine hupheld.nodes_drop hheld fun id hcycle => hreleasable.acyclic (w₀.shift id) ?_
    exact hcycle.lift w₀.shift fun a b => hbeside.refersWithin horderly hpos
  have hdropped := hbeside.drop hpos
  have hrestored : (w.drop (w₀.shift d.environment.scene)).nodes = w₀.nodes := by
    rw [hdropped.nodes, hnodes, List.map_nil, List.append_nil]
  rw [Scene.drop, hshift]
  refine ⟨hbeside.exists_destroyed_drop horderly hpos hnodes, hrestored, ?_, ?_, ?_⟩
  · rw [hdropped.held, World.held_drop hheld, List.map_nil, List.nil_append]
  · -- the lists are as before, nobody goes by a name any longer, and the ids stay handed out
    have hsince : World.ListsSince w₀ (w.drop (w₀.shift d.environment.scene)) :=
      (hw' ▸ listsSince_read hw d).moves hw (World.moves_dropAll w _)
    have hnames : (w.drop (w₀.shift d.environment.scene)).registry.names = w₀.registry.names := by
      have hnone : (v.drop d.environment.scene).registry.names = [] := (hupheld.dropAll _).names_eq_nil hnodes
      rw [hdropped.names, hnone, List.map_nil, List.append_nil]
    have htrims : World.Trims {} (fun _ => False) w (w.drop (w₀.shift d.environment.scene)) := .dropAll w _
    rw [hsince.restored hrestored, hnames, htrims.lastId]
  · rw [hrestored]
    rintro n hn p hp hbelongs
    obtain ⟨a, ha, rfl⟩ := (hbeside.belongsTo_iff hpos).1 hbelongs
    obtain ⟨m, hm, rfl⟩ := List.mem_map.1 ha
    exact World.ne_shift (hw.parents n hn _ hp) (hbeside.own m hm).id rfl

/-! ### Scenes that can be dropped -/

/-- A document with a shape that two groups list, one of them twice. -/
def diamond : Document where
  text := "#VRML V2.0 utf8\nDEF A Group \x7b children [ DEF B Shape \x7b \x7d USE B ] \x7d\nUSE B\n"
  file := "diamond.wrl"
  check := .any
  catalog := Catalog.standard
  time := .unset
  now := .unset

/-- A document that was read to a scene which may go as a whole, as can be seen from the order of its nodes. -/
theorem exists_releasable (d : Document) (w : World) (root : NodeId)
    (h : (d.read w).result.toOption.map Scene.root = some root ∧
      (∀ n ∈ (d.read w).world.nodes, ∀ r ∈ n.references, n.id.value < r.value) ∧
        ∀ n ∈ (d.read w).world.nodes, n.environment.scene = root →
          (d.read w).world.held.count n.id = if n.id = root then 1 else 0) :
    ∃ scene, (d.read w).result = .ok scene ∧ scene.root = root ∧ (d.read w).world.Releasable scene.root := by
  obtain ⟨hscene, hrising, hhandles⟩ := h
  have hreleasable := World.Releasable.of_rising hrising hhandles
  generalize (d.read w).result = r at hscene
  cases r with
  | error e => cases hscene
  | ok scene =>
    obtain rfl : scene.root = root := Option.some.inj hscene
    exact ⟨scene, rfl, rfl, hreleasable⟩

/-- Beside a group that a host made, a scene goes with the shape that its groups share. -/
theorem drop_read_diamond : (lender ⟨1⟩).Sealed ∧ ∃ scene, (diamond.read (lender ⟨1⟩)).result = .ok scene ∧
    (diamond.read (lender ⟨1⟩)).world.Releasable scene.root ∧
    (diamond.read (lender ⟨1⟩)).world.BelongsTo scene.root ⟨5⟩ ∧
    (scene.drop (diamond.read (lender ⟨1⟩)).world).nodes = (lender ⟨1⟩).nodes := by
  have hsealed : (lender ⟨1⟩).Sealed :=
    (reachable_lender ⟨1⟩).sealed Catalog.regular_withScenes (fun _ ht => ht) (by decide +kernel)
  obtain ⟨scene, hread, hroot, hreleasable⟩ := exists_releasable diamond (lender ⟨1⟩) ⟨3⟩ (by decide +kernel)
  have hshape : (diamond.read (lender ⟨1⟩)).world.BelongsTo ⟨3⟩ ⟨5⟩ := by decide +kernel
  exact ⟨hsealed, scene, hread, hreleasable, hroot ▸ hshape, (drop_read hsealed rfl hread hreleasable).2.1⟩

/-- A document with a group of a name. -/
def lone : Document where
  text := "#VRML V2.0 utf8\nDEF A Group \x7b \x7d\n"
  file := "lone.wrl"
  check := .any
  catalog := Catalog.standard
  time := .unset
  now := .unset

/-- A group that was told of a parent which is still to be made. -/
def expectant : World := ((World.Call.create Catalog.standard "Group" {}).run {}).addParent ⟨1⟩ ⟨3⟩

/-- A group that lists another one, which pretends to belong to the scene to come. -/
def infiltrated : World :=
  (World.Call.drop ⟨2⟩).run <| (World.Call.setField ⟨1⟩ childrenField (.nodes [⟨2⟩])).run <|
    (World.Call.create Catalog.standard "Group" { scene := ⟨3⟩ }).run <|
      (World.Call.create Catalog.standard "Group" {}).run {}

/-- A group that goes by a name which was entered before for a node that is still to be made. -/
def foretold : World :=
  (World.Call.setName ⟨1⟩ "A").run (((World.Call.create Catalog.standard "Group" {}).run {}).renameEntry ⟨3⟩ "" "A")

/-- A node that was told of a parent to come keeps it when the parent is gone. A node that pretends to belong to
the scene outlives it. And the entry of a name for a node to come is behind others after the scene is gone. -/
theorem drop_read_unsealed :
    (∃ scene, (lone.read expectant).result = .ok scene ∧ (lone.read expectant).world.Releasable scene.root ∧
      ∃ n ∈ (scene.drop (lone.read expectant).world).nodes, ∃ p ∈ n.parentIds,
        (lone.read expectant).world.BelongsTo scene.root p) ∧
    (∃ scene, (lone.read infiltrated).result = .ok scene ∧ (lone.read infiltrated).world.Releasable scene.root ∧
      ∃ id ∈ (scene.drop (lone.read infiltrated).world).liveIds,
        (lone.read infiltrated).world.BelongsTo scene.root id) ∧
    ∃ scene, (lone.read foretold).result = .ok scene ∧ (lone.read foretold).world.Releasable scene.root ∧
      (scene.drop (lone.read foretold).world).registry.names ≠ foretold.registry.names := by
  refine ⟨?_, ?_, ?_⟩
  · obtain ⟨scene, hread, hroot, hreleasable⟩ := exists_releasable lone expectant ⟨2⟩ (by decide +kernel)
    refine ⟨scene, hread, hreleasable, ?_⟩
    rw [Scene.drop, hroot]
    decide +kernel
  · obtain ⟨scene, hread, hroot, hreleasable⟩ := exists_releasable lone infiltrated ⟨3⟩ (by decide +kernel)
    refine ⟨scene, hread, hreleasable, ?_⟩
    rw [Scene.drop, hroot]
    decide +kernel
  · obtain ⟨scene, hread, hroot, hreleasable⟩ := exists_releasable lone foretold ⟨2⟩ (by decide +kernel)
    refine ⟨scene, hread, hreleasable, ?_⟩
    rw [Scene.drop, hroot]
    decide +kernel

end Document

end SceneGraph
