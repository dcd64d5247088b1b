import Mathlib.Data.List.Count
import SceneGraph.Proofs.Document.Seclusion
import SceneGraph.Proofs.World.Registration
import SceneGraph.Proofs.World.Renaming

/-!
# Worlds with other nodes beside

What is done to a world can be done to one that has other nodes beside as well: the nodes get ids of their
own there, as much higher as ids were handed out before, and the nodes that were there before are left
alone (`World.Beside`).

* `World.Issued`: every id that is in use anywhere was handed out.
* `Beside.node?`, `Beside.findInScene?`: what a lookup finds.
* `Beside.modify`, `Beside.reparents`, `Beside.release`: what changes keep.
-/

namespace SceneGraph

/-- The layouts of the types of documents are those of the standard catalog, if they were met. -/
def World.HasLayouts (w : World) : Prop :=
  ∀ s ∈ w.specifications, ∀ t ∈ Catalog.withScenes, s.typeName = t.name → s = t.layout

/-- Every id that is in use anywhere was handed out, and so were the ids of the scenes that nodes belong
to. -/
structure World.Issued (w : World) : Prop where
  ids : ∀ n ∈ w.nodes, n.id.value ≤ w.registry.lastId
  scenes : ∀ n ∈ w.nodes, n.environment.scene.value ≤ w.registry.lastId
  references : ∀ id ∈ w.references, id.value ≤ w.registry.lastId
  held : ∀ id ∈ w.held, id.value ≤ w.registry.lastId
  names : ∀ e ∈ w.registry.names, e.2.value ≤ w.registry.lastId
  cascade : ∀ e ∈ w.cascade, e.1.value ≤ w.registry.lastId
  layouts : w.HasLayouts

/-- The id that a node gets beside the nodes of a world instead of in an empty one. -/
def World.shift (w : World) (id : NodeId) : NodeId := ⟨w.registry.lastId + id.value⟩

/-- A node of the scene of an environment, whose neighbours have proper ids. -/
structure Node.IsOwn (env : Environment) (n : Node) : Prop where
  id : 0 < n.id.value
  references : ∀ r ∈ n.references, 0 < r.value
  parents : ∀ p ∈ n.parentIds, 0 < p.value
  environment : n.environment = env
  free : n.spec.IsFree

/-- Whose node it is does not depend on its name, its routes and how far it was set up. -/
theorem Node.IsOwn.unseen {env : Environment} {n : Node} (h : n.IsOwn env) (name : String)
    (routes : List (String × List Route)) (initialized : Bool) (initializations : Nat) (object : Option NodeId) :
    IsOwn env { n with name, routes, initialized, initializations, object } :=
  ⟨h.id, h.references, h.parents, h.environment, h.free⟩

namespace World

variable {w₀ w w' v v' : World} {env : Environment} {id : NodeId} {ids : List NodeId}

theorem shift_injective (w₀ : World) : Function.Injective w₀.shift := fun _ _ h =>
  NodeId.eq_of_value (Nat.add_left_cancel (congrArg NodeId.value h))

/-- An id that was handed out before is no node's that is made later. -/
theorem ne_shift {a : NodeId} (ha : a.value ≤ w₀.registry.lastId) (hid : 0 < id.value) : a ≠ w₀.shift id := by
  rintro rfl
  exact absurd ha (Nat.not_le_of_gt (Nat.lt_add_of_pos_right hid))

/-- The table of layouts answers with the layout of a type, and knows it from then on. -/
theorem HasLayouts.specification (h : w.HasLayouts) {t : NodeType} (ht : t ∈ Catalog.withScenes)
    (hdistinct : Specification.duplicate? [] t.fields = none) :
    ∃ specifications, w.specification t.name t.fields = .ok (t.layout, { w with specifications }) ∧
      HasLayouts { w with specifications } := by
  have hfields : Specification.ofFields t.name t.fields = .ok t.layout := by
    rw [Specification.ofFields, hdistinct]
    rfl
  unfold World.specification
  cases hfind : w.specifications.find? (·.typeName == t.name) with
  | some s =>
    obtain rfl := h s (List.mem_of_find?_eq_some hfind) t ht (by simpa using List.find?_some hfind)
    exact ⟨w.specifications, rfl, h⟩
  | none =>
    rw [hfields]
    refine ⟨w.specifications ++ [t.layout], rfl, fun s hs u hu hname => ?_⟩
    rcases List.mem_append.1 hs with hs | hs
    · exact h s hs u hu hname
    · rw [List.mem_singleton.1 hs] at hname ⊢
      have hname : t.name = u.name := hname
      rw [NodeType.layout, NodeType.layout, Catalog.regular_withScenes.layouts t ht u hu hname, hname]

/-- The nodes of `w`, which all belong to the scene of `env`, are in `w'` as well, after those of `w₀` and
under higher ids. What is on the cascade stack is that of `w₀`, and the two journals may differ. -/
structure Beside (w₀ : World) (env : Environment) (w w' : World) : Prop where
  base : w₀.Issued
  nodes : w'.nodes = w₀.nodes ++ w.nodes.map (·.mapNodes w₀.shift)
  lastId : w'.registry.lastId = w₀.registry.lastId + w.registry.lastId
  names : w'.registry.names = w₀.registry.names ++ w.registry.names.map fun e => (e.1, w₀.shift e.2)
  held : w'.held = w.held.map w₀.shift ++ w₀.held
  cascade : w.cascade = [] ∧ w'.cascade = w₀.cascade
  layouts : w.HasLayouts ∧ w'.HasLayouts
  own : ∀ n ∈ w.nodes, n.IsOwn env
  named : ∀ e ∈ w.registry.names, 0 < e.2.value

namespace Beside

/-- Nothing is in an empty world. -/
theorem start (h : w₀.Issued) (env : Environment) : Beside w₀ env {} w₀ where
  base := h
  nodes := (List.append_nil _).symm
  lastId := rfl
  names := (List.append_nil _).symm
  held := rfl
  cascade := ⟨rfl, rfl⟩
  layouts := ⟨by simp [HasLayouts], h.layouts⟩
  own := by simp
  named := by simp

variable (h : Beside w₀ env w w')
include h

/-! ### Lookups -/

theorem node? (hid : 0 < id.value) : w'.node? (w₀.shift id) = (w.node? id).map (·.mapNodes w₀.shift) := by
  have hold : w₀.nodes.find? (·.id == w₀.shift id) = none := by
    rw [List.find?_eq_none]
    intro n hn
    simpa using ne_shift (h.base.ids n hn) hid
  rw [World.node?, h.nodes, List.find?_append, hold, Option.none_or, List.find?_map, World.node?]
  congr 2
  funext n
  exact (w₀.shift_injective).beq_eq

theorem node?_old (hid : id.value ≤ w₀.registry.lastId) : w'.node? id = w₀.node? id := by
  have hnew : (w.nodes.map (·.mapNodes w₀.shift)).find? (·.id == id) = none := by
    rw [List.find?_eq_none]
    intro n hn
    obtain ⟨m, hm, rfl⟩ := List.mem_map.1 hn
    exact fun heq => ne_shift hid (h.own m hm).id (beq_iff_eq.1 heq).symm
  rw [World.node?, h.nodes, List.find?_append, hnew, Option.or_none, World.node?]

theorem references : w'.references = w₀.references ++ w.references.map w₀.shift := by
  rw [World.references, h.nodes, List.flatMap_append, List.flatMap_map, World.references, World.references,
    List.map_flatMap]
  simp only [Node.references_mapNodes]

theorem isHeld (hid : 0 < id.value) : w'.isHeld (w₀.shift id) = w.isHeld id := by
  have hold : ∀ ids : List NodeId, (∀ a ∈ ids, a.value ≤ w₀.registry.lastId) → w₀.shift id ∉ ids :=
    fun ids hids hmem => ne_shift (hids _ hmem) hid rfl
  rw [Bool.eq_iff_iff, World.isHeld, World.isHeld, Bool.or_eq_true, Bool.or_eq_true]
  simp only [List.contains_iff_mem, h.held, h.references, List.mem_append, hold _ h.base.held,
    hold _ h.base.references, or_false, false_or, List.mem_map_of_injective w₀.shift_injective]

theorem mem_liveIds (hid : 0 < id.value) : w₀.shift id ∈ w'.liveIds ↔ id ∈ w.liveIds := by
  rw [World.mem_liveIds, isLive_iff, h.node? hid, World.mem_liveIds, isLive_iff]
  simp

theorem referencesOf (hid : 0 < id.value) : w'.referencesOf (w₀.shift id) = (w.referencesOf id).map w₀.shift := by
  rw [World.referencesOf, h.node? hid, World.referencesOf]
  cases w.node? id with
  | none => rfl
  | some n => exact n.references_mapNodes _

theorem pos_referencesOf : ∀ r ∈ w.referencesOf id, 0 < r.value := by
  rw [World.referencesOf]
  cases hn : w.node? id with
  | none => simp
  | some n => exact (h.own n (mem_nodes_of_node? hn)).references

/-! ### Changes of nodes -/

/-- What is in the journals does not matter. -/
theorem journals (j j' : Journal) : Beside w₀ env { w with journal := j } { w' with journal := j' } :=
  ⟨h.base, h.nodes, h.lastId, h.names, h.held, h.cascade, h.layouts, h.own, h.named⟩

theorem enter (e e' : Entry) : Beside w₀ env (w.enter e) (w'.enter e') := h.journals _ _

theorem hold (id : NodeId) : Beside w₀ env (w.hold id) (w'.hold (w₀.shift id)) :=
  { h with held := congrArg (w₀.shift id :: ·) h.held }

theorem holdAll (ids : List NodeId) : Beside w₀ env (w.holdAll ids) (w'.holdAll (ids.map w₀.shift)) :=
  have hheld : ids.map w₀.shift ++ w'.held = (ids ++ w.held).map w₀.shift ++ w₀.held := by
    rw [h.held, List.map_append, List.append_assoc]
  { h with held := hheld }

/-- A node and its image are changed in the same way. -/
theorem modify (hid : 0 < id.value) {f f' : Node → Node}
    (hf : ∀ n ∈ w.nodes, n.id = id → f' (n.mapNodes w₀.shift) = (f n).mapNodes w₀.shift)
    (hown : ∀ n ∈ w.nodes, n.id = id → n.IsOwn env → (f n).IsOwn env) :
    Beside w₀ env (w.modify id f) (w'.modify (w₀.shift id) f') where
  base := h.base
  nodes := by
    have hold : w₀.nodes.map (fun n => if n.id = w₀.shift id then f' n else n) = w₀.nodes := by
      refine (List.map_congr_left fun n hn => ?_).trans (List.map_id _)
      exact if_neg (ne_shift (h.base.ids n hn) hid)
    rw [World.modify, h.nodes, List.map_append, hold, World.modify, List.map_map, List.map_map]
    -- of the rest, the image of a node has the id if the node has it
    refine congrArg (w₀.nodes ++ ·) (List.map_congr_left fun n hn => ?_)
    by_cases hn' : n.id = id
    · have himage : (n.mapNodes w₀.shift).id = w₀.shift id := congrArg w₀.shift hn'
      rw [Function.comp_apply, Function.comp_apply, if_pos himage, if_pos hn', hf n hn hn']
    · have himage : (n.mapNodes w₀.shift).id ≠ w₀.shift id := w₀.shift_injective.ne hn'
      rw [Function.comp_apply, Function.comp_apply, if_neg himage, if_neg hn']
  lastId := h.lastId
  names := h.names
  held := h.held
  cascade := h.cascade
  layouts := h.layouts
  own := by
    intro m hm
    obtain ⟨n, hn, rfl⟩ := List.mem_map.1 hm
    split
    · exact hown n hn ‹_› (h.own n hn)
    · exact h.own n hn
  named := h.named

/-- The parents of a node and its image are counted in the same way, and those of other nodes stay. -/
theorem reparents {g g' : NodeId → List (NodeId × Nat) → List (NodeId × Nat)} (hg : Reparents g w v)
    (hg' : Reparents g' w' v') (hold : ∀ n ∈ w₀.nodes, g' n.id n.parents = n.parents)
    (hnew : ∀ n ∈ w.nodes, g' (w₀.shift n.id) (n.parents.map fun e => (w₀.shift e.1, e.2)) =
      (g n.id n.parents).map fun e => (w₀.shift e.1, e.2))
    (hown : ∀ n ∈ w.nodes, ∀ p ∈ (g n.id n.parents).map (·.1), 0 < p.value) : Beside w₀ env v v' where
  base := h.base
  nodes := by
    have hkept : w₀.nodes.map (fun n => { n with parents := g' n.id n.parents }) = w₀.nodes := by
      refine (List.map_congr_left fun n hn => ?_).trans (List.map_id' _)
      rw [hold n hn]
    rw [hg'.nodes, h.nodes, List.map_append, hkept, hg.nodes, List.map_map, List.map_map]
    refine congrArg (w₀.nodes ++ ·) (List.map_congr_left fun n hn => ?_)
    exact congrArg (fun parents => { n.mapNodes w₀.shift with parents }) (hnew n hn)
  lastId := by rw [hg'.registry, hg.registry, h.lastId]
  names := by rw [hg'.registry, hg.registry, h.names]
  held := by rw [hg'.held, hg.held, h.held]
  cascade := ⟨hg.cascade.trans h.cascade.1, hg'.cascade.trans h.cascade.2⟩
  layouts := by
    rw [HasLayouts, HasLayouts, hg.specifications, hg'.specifications]
    exact h.layouts
  own := by
    rw [hg.nodes]
    intro m hm
    obtain ⟨n, hn, rfl⟩ := List.mem_map.1 hm
    exact { h.own n hn with parents := hown n hn }
  named := by
    rw [hg.registry]
    exact h.named

/-- Nothing is changed but the journals. -/
theorem unchanged (hv : Reparents (fun _ ps => ps) w v) (hv' : Reparents (fun _ ps => ps) w' v') :
    Beside w₀ env v v' :=
  h.reparents hv hv' (fun _ _ => rfl) (fun _ _ => rfl) fun n hn => (h.own n hn).parents

/-! ### Letting go -/

theorem claimed_subset {n : Node} (hn : n ∈ w.nodes) : ∀ c ∈ n.claimed, 0 < c.value := by
  unfold Node.claimed
  split
  · exact fun c hc => (h.own n hn).references c (n.nodesIn_subset _ hc)
  · simp

theorem takeLeave {n : Node} (hn : n ∈ w.nodes) :
    Beside w₀ env (w.takeLeave n) (w'.takeLeave (n.mapNodes w₀.shift)) := by
  have hclaimed : (n.mapNodes w₀.shift).claimed = n.claimed.map w₀.shift := by
    have hsame : (n.mapNodes w₀.shift).behavior = n.behavior ∧
        (n.mapNodes w₀.shift).initialized = n.initialized := ⟨rfl, rfl⟩
    rw [Node.claimed, Node.nodesIn_mapNodes, Node.claimed, hsame.1, hsame.2]
    split <;> rfl
  refine h.reparents (reparents_takeLeave w n) (reparents_takeLeave w' _) (fun m hm => ?_) (fun m hm => ?_)
    fun m hm => ?_
  -- no node that was there before is claimed
  · have hnone : m.id ∉ n.claimed.map w₀.shift := by
      rintro hmem
      obtain ⟨c, hc, heq⟩ := List.mem_map.1 hmem
      exact ne_shift (h.base.ids m hm) (h.claimed_subset hn c hc) heq.symm
    rw [hclaimed, List.count_eq_zero_of_not_mem hnone]
    rfl
  -- a claim is counted as often for the image, and each count is taken back in the same way
  · rw [hclaimed, List.count_map_of_injective _ _ w₀.shift_injective]
    have hstep : Function.Semiconj (List.map fun e : NodeId × Nat => (w₀.shift e.1, e.2)) (Node.removeParent n.id)
        (Node.removeParent (w₀.shift n.id)) :=
      fun ps => (Node.removeParent_map w₀.shift_injective n.id ps).symm
    exact ((hstep.iterate_right _).eq m.parents).symm
  · refine Function.Iterate.rec (fun ps : List (NodeId × Nat) => ∀ p ∈ ps.map (·.1), 0 < p.value)
      (h.own m hm).parents (fun ps hps p hp => ?_) _
    exact hps p ((Node.map_fst_removeParent_sublist n.id ps).subset hp)

theorem names_removeName (hid : 0 < id.value) (name : String) :
    (w'.registry.removeName (w₀.shift id) name).names =
      w₀.registry.names ++ (w.registry.removeName id name).names.map fun e => (e.1, w₀.shift e.2) := by
  unfold Registry.removeName
  split
  · exact h.names
  · have hold : (name, w₀.shift id) ∉ w₀.registry.names := fun hmem => ne_shift (h.base.names _ hmem) hid rfl
    have hinj : Function.Injective fun e : String × NodeId => (e.1, w₀.shift e.2) := by
      rintro ⟨a, x⟩ ⟨b, y⟩ heq
      obtain ⟨rfl, hxy⟩ := Prod.mk.inj heq
      exact congrArg (Prod.mk a) (w₀.shift_injective hxy)
    dsimp only
    rw [h.names, List.erase_append_right _ hold, List.map_erase hinj]

theorem named_removeName (id : NodeId) (name : String) :
    ∀ e ∈ (w.registry.removeName id name).names, 0 < e.2.value :=
  fun e he => h.named e (Registry.mem_of_mem_removeName he)

theorem remove {n : Node} (hid : 0 < n.id.value) :
    Beside w₀ env (w.remove n) (w'.remove (n.mapNodes w₀.shift)) := by
  refine { base := h.base, held := h.held, cascade := h.cascade, layouts := h.layouts,
           own := fun m hm => h.own m (List.mem_filter.1 hm).1, nodes := ?nodes, lastId := ?lastId, names := ?names,
           named := ?named }
  case nodes =>
    have hold : w₀.nodes.filter (fun m => m.id != w₀.shift n.id) = w₀.nodes := by
      rw [List.filter_eq_self]
      intro m hm
      simpa using ne_shift (h.base.ids m hm) hid
    change w'.nodes.filter (fun m => m.id != w₀.shift n.id) = w₀.nodes ++ (w.nodes.filter _).map _
    rw [h.nodes, List.filter_append, hold, List.filter_map]
    congr 3
    funext m
    exact congrArg not (w₀.shift_injective).beq_eq
  case lastId =>
    change (w'.registry.unregister _ _).lastId = _ + (w.registry.unregister _ _).lastId
    rw [Registry.unregister_eq, Registry.unregister_eq]
    exact h.lastId
  case names =>
    change (w'.registry.unregister (w₀.shift n.id) n.name).names =
      _ ++ (w.registry.unregister n.id n.name).names.map _
    rw [Registry.unregister_eq, Registry.unregister_eq]
    exact h.names_removeName hid n.name
  case named =>
    change ∀ e ∈ (w.registry.unregister n.id n.name).names, _
    rw [Registry.unregister_eq]
    exact h.named_removeName n.id n.name

theorem destroy {n : Node} (hn : n ∈ w.nodes) :
    Beside w₀ env (w.destroy n) (w'.destroy (n.mapNodes w₀.shift)) := by
  have hleft := h.takeLeave hn
  rw [World.destroy, World.destroy, reportParents_eq, reportParents_eq (w'.takeLeave _)]
  exact (hleft.journals _ _).remove (h.own n hn).id

/-- What holds of two worlds and survives the destruction of a node that nobody holds, together with that of
its image, survives letting go. By induction on what is let go of. -/
theorem release_induction {P : World → World → Prop} (hids : ∀ id ∈ ids, 0 < id.value) (hP : P w w')
    (hstep : ∀ v v' n, Beside w₀ env v v' → v.node? n.id = some n → v.isHeld n.id = false → P v v' →
      P (v.destroy n) (v'.destroy (n.mapNodes w₀.shift))) :
    Beside w₀ env (World.release ids w) (World.release (ids.map w₀.shift) w') ∧
      P (World.release ids w) (World.release (ids.map w₀.shift) w') := by
  have hcontains : ∀ (id : NodeId) (rest : List NodeId), (rest.map w₀.shift).contains (w₀.shift id) =
      rest.contains id := by
    intro id rest
    rw [Bool.eq_iff_iff, List.contains_iff_mem, List.contains_iff_mem,
      List.mem_map_of_injective w₀.shift_injective]
  -- what is held is not let go of, and neither is what comes again later in the list: both hold of an id
  -- exactly if they hold of its image
  fun_induction World.release ids w generalizing w' with
  | case1 w =>
    rw [List.map_nil, World.release]
    exact ⟨h, hP⟩
  | case2 w id rest hheld ih =>
    obtain ⟨hid, hrest⟩ := List.forall_mem_cons.1 hids
    rw [List.map_cons, World.release, h.isHeld hid, hcontains, if_pos hheld]
    exact ih h hrest hP
  | case3 w id rest hfree hn ih =>
    obtain ⟨hid, hrest⟩ := List.forall_mem_cons.1 hids
    have hn' := h.node? hid
    rw [hn, Option.map_none] at hn'
    rw [List.map_cons, World.release, h.isHeld hid, hcontains, if_neg hfree]
    split
    · exact ih h hrest hP
    · rename_i heq
      rw [hn'] at heq
      cases heq
  | case4 w id rest hfree n hn ih =>
    obtain rfl := id_of_node? hn
    obtain ⟨hid, hrest⟩ := List.forall_mem_cons.1 hids
    have hmem := mem_nodes_of_node? hn
    have hn' := h.node? hid
    rw [hn, Option.map_some] at hn'
    rw [List.map_cons, World.release, h.isHeld hid, hcontains, if_neg hfree]
    split
    · rename_i heq
      rw [hn'] at heq
      cases heq
    · rename_i m heq
      obtain rfl := Option.some.inj (hn'.symm.trans heq)
      rw [n.references_mapNodes, ← List.map_append]
      rw [Bool.or_eq_true, not_or, Bool.not_eq_true] at hfree
      exact ih (h.destroy hmem) (List.forall_mem_append.2 ⟨(h.own n hmem).references, hrest⟩)
        (hstep w w' n h hn hfree.1 hP)

/-- **Letting go** goes on in the same way. -/
theorem release (hids : ∀ id ∈ ids, 0 < id.value) :
    Beside w₀ env (World.release ids w) (World.release (ids.map w₀.shift) w') :=
  (h.release_induction (P := fun _ _ => True) hids trivial fun _ _ _ _ _ _ _ => trivial).1

/-- Handles are given back. -/
theorem unhold (hids : ∀ id ∈ ids, 0 < id.value) : Beside w₀ env { w with held := ids.foldl List.erase w.held }
    { w' with held := (ids.map w₀.shift).foldl List.erase w'.held } := by
  -- the handles from before stand last, so they are never the first that is found
  have herase : ∀ (ids held : List NodeId), (∀ id ∈ ids, 0 < id.value) →
      (ids.map w₀.shift).foldl List.erase (held.map w₀.shift ++ w₀.held) =
        (ids.foldl List.erase held).map w₀.shift ++ w₀.held := by
    intro ids held hids
    induction ids generalizing held with
    | nil => rfl
    | cons id rest ih =>
      obtain ⟨hid, hrest⟩ := List.forall_mem_cons.1 hids
      have hold : w₀.shift id ∉ w₀.held := fun hmem => ne_shift (h.base.held _ hmem) hid rfl
      have hfirst : (held.map w₀.shift ++ w₀.held).erase (w₀.shift id) =
          (held.erase id).map w₀.shift ++ w₀.held := by
        rw [List.map_erase w₀.shift_injective, List.erase_append, List.erase_of_not_mem hold]
        split
        · rfl
        · rw [List.erase_of_not_mem ‹_›]
      rw [List.map_cons, List.foldl_cons, List.foldl_cons, hfirst]
      exact ih (held.erase id) hrest
  exact { h with held := h.held ▸ herase ids w.held hids }

theorem dropAll (hids : ∀ id ∈ ids, 0 < id.value) :
    Beside w₀ env (w.dropAll ids) (w'.dropAll (ids.map w₀.shift)) := (h.unhold hids).release hids

theorem drop (hid : 0 < id.value) : Beside w₀ env (w.drop id) (w'.drop (w₀.shift id)) :=
  h.dropAll fun _ hr => List.mem_singleton.1 hr ▸ hid

/-! ### Names -/

theorem setName (hid : 0 < id.value) (name : String) :
    Beside w₀ env (w.setName id name) (w'.setName (w₀.shift id) name) := by
  unfold World.setName
  rw [h.node? hid]
  cases w.node? id with
  | none => exact h
  | some n =>
    dsimp only [Option.map_some]
    have hname : (n.mapNodes w₀.shift).name = n.name := rfl
    rw [hname]
    split
    · exact h
    · have hnamed : Beside w₀ env (w.modify id ({ · with name })) (w'.modify (w₀.shift id) ({ · with name })) :=
        h.modify hid (fun _ _ _ => rfl) fun _ _ _ hm => hm.unseen ..
      refine { hnamed with lastId := ?_, names := ?_, named := ?_ }
      · rw [Registry.lastId_rename, Registry.lastId_rename]
        exact h.lastId
      · rw [Registry.rename_eq, Registry.rename_eq]
        dsimp only
        rw [h.names_removeName hid, List.map_append, List.append_assoc]
        split <;> rfl
      · rw [Registry.rename_eq]
        refine List.forall_mem_append.2 ⟨h.named_removeName id n.name, fun e he => ?_⟩
        split at he
        · cases he
        · rw [List.mem_singleton.1 he]
          exact hid

theorem discard (hid : 0 < id.value) : Beside w₀ env (w.discard id) (w'.discard (w₀.shift id)) := by
  have hnamed := h.setName hid ""
  have hforgotten : Beside w₀ env ((w.setName id "").modify id Node.forget)
      ((w'.setName (w₀.shift id) "").modify (w₀.shift id) Node.forget) :=
    hnamed.modify hid (fun n hn _ => n.forget_mapNodes w₀.shift (hnamed.own n hn).free) fun n _ _ hn =>
      ⟨hn.id, by rw [Node.references_forget hn.free]; simp, hn.parents, hn.environment, hn.free⟩
  unfold World.discard
  dsimp only
  rw [hnamed.referencesOf hid]
  exact hforgotten.release hnamed.pos_referencesOf

/-- The nodes that go by a name: those that did before, and those that do beside them. -/
theorem named_eq (name : String) :
    w'.named name = w₀.named name ++ (w.named name).map (·.mapNodes w₀.shift) := by
  have hids : w'.registry.idsNamed name =
      w₀.registry.idsNamed name ++ (w.registry.idsNamed name).map w₀.shift := by
    rw [Registry.idsNamed, h.names, List.filter_append, List.map_append, List.filter_map, List.map_map,
      Registry.idsNamed, Registry.idsNamed, List.map_map]
    rfl
  have hold : (w₀.registry.idsNamed name).filterMap w'.node? = w₀.named name := by
    refine List.filterMap_congr fun id hid => ?_
    obtain ⟨e, he, rfl⟩ := List.mem_map.1 hid
    exact h.node?_old (h.base.names e (List.mem_filter.1 he).1)
  have hnew : ((w.registry.idsNamed name).map w₀.shift).filterMap w'.node? =
      (w.named name).map (·.mapNodes w₀.shift) := by
    rw [List.filterMap_map, World.named, List.map_filterMap]
    refine List.filterMap_congr fun id hid => ?_
    obtain ⟨e, he, rfl⟩ := List.mem_map.1 hid
    exact h.node? (h.named e (List.mem_filter.1 he).1)
  rw [World.named, hids, List.filterMap_append, hold, hnew]

theorem own_of_mem_named {n : Node} {name : String} (hn : n ∈ w.named name) : n.IsOwn env := by
  obtain ⟨id, -, hid⟩ := List.mem_filterMap.1 hn
  exact h.own n (mem_nodes_of_node? hid)

/-- The scene has the same nodes under a name. -/
theorem findInScene? (hscene : 0 < env.scene.value) (name : String) :
    w'.findInScene? name (w₀.shift env.scene) = (w.findInScene? name env.scene).map (·.mapNodes w₀.shift) := by
  have hold : (w₀.named name).find? (·.environment.scene == w₀.shift env.scene) = none := by
    rw [List.find?_eq_none]
    intro n hn
    obtain ⟨id, -, hid⟩ := List.mem_filterMap.1 hn
    simpa using ne_shift (h.base.scenes n (mem_nodes_of_node? hid)) hscene
  rw [World.findInScene?, h.named_eq, List.find?_append, hold, Option.none_or, List.find?_map, World.findInScene?]
  congr 2
  funext n
  exact (w₀.shift_injective).beq_eq

/-- Every other scene has the nodes under a name that it had before. -/
theorem findInScene?_other {scene : NodeId} (hscene : scene ≠ w₀.shift env.scene) (name : String) :
    w'.findInScene? name scene = w₀.findInScene? name scene := by
  have hnew : ((w.named name).map (·.mapNodes w₀.shift)).find? (·.environment.scene == scene) = none := by
    rw [List.find?_eq_none]
    intro n hn
    obtain ⟨m, hm, rfl⟩ := List.mem_map.1 hn
    have hm' : (m.mapNodes w₀.shift).environment.scene = w₀.shift env.scene :=
      congrArg (fun e : Environment => w₀.shift e.scene) (h.own_of_mem_named hm).environment
    rw [hm']
    simpa using hscene.symm
  rw [World.findInScene?, h.named_eq, List.find?_append, hnew, Option.or_none, World.findInScene?]

/-! ### Fields and routes -/

theorem store {name : String} {f : Field} (hid : 0 < id.value) (hf : ∀ r ∈ f.references, 0 < r.value) :
    Beside w₀ env (w.modify id (·.store name f))
      (w'.modify (w₀.shift id) (·.store name (f.mapNodes w₀.shift))) :=
  h.modify hid (fun n _ _ => n.store_mapNodes w₀.shift name f) fun n _ _ hn =>
    { id := by rw [Node.store_id]; exact hn.id
      references := fun r hr => (Node.references_store hr).elim (hn.references r) (hf r)
      parents := by rw [Node.parentIds, Node.store_parents]; exact hn.parents
      environment := by rw [Node.store_environment, hn.environment]
      free := by rw [Node.store_spec]; exact hn.free }

theorem initField (hid : 0 < id.value) (name : String) {value : Field}
    (hvalue : ∀ r ∈ value.references, 0 < r.value) :
    (w'.initField (w₀.shift id) name (value.mapNodes w₀.shift)).1 = (w.initField id name value).1 ∧
      Beside w₀ env (w.initField id name value).2
        (w'.initField (w₀.shift id) name (value.mapNodes w₀.shift)).2 := by
  have hnode := h.node? hid
  have hnothing : Beside w₀ env (World.release [] w) (World.release [] w') := h.release (by simp)
  cases hn : w.node? id with
  | none =>
    rw [hn, Option.map_none] at hnode
    unfold World.initField
    rw [hn, hnode]
    exact ⟨rfl, h⟩
  | some n =>
    rw [hn, Option.map_some] at hnode
    have hfield := n.field?_mapNodes w₀.shift name
    cases hold : n.field? name with
    | none =>
      rw [hold, Option.map_none] at hfield
      unfold World.initField
      rw [hn, hnode]
      dsimp only
      unfold produce
      rw [hold, hfield]
      exact ⟨rfl, hnothing⟩
    | some old =>
      rw [hold, Option.map_some] at hfield
      by_cases hkind : old.kind = value.kind
      -- shifting references keeps the kind of a value
      · have hkind' : (old.mapNodes w₀.shift).kind = (value.mapNodes w₀.shift).kind := by
          rw [old.kind_mapNodes, value.kind_mapNodes, hkind]
        have hreferences : ∀ r ∈ old.references, 0 < r.value := fun r hr =>
          (h.own n (mem_nodes_of_node? hn)).references r (Node.references_subset_of_field? hold hr)
        rw [initField_eq hn hold hkind, initField_eq hnode hfield hkind', old.references_mapNodes]
        exact ⟨rfl, ((h.store hid hvalue).enter _ _).release hreferences⟩
      · have hkind' : (old.mapNodes w₀.shift).kind ≠ (value.mapNodes w₀.shift).kind := by
          rwa [old.kind_mapNodes, value.kind_mapNodes]
        unfold World.initField
        rw [hn, hnode]
        dsimp only
        unfold produce
        rw [hold, hfield]
        dsimp only
        rw [if_pos hkind, if_pos hkind', old.kind_mapNodes, value.kind_mapNodes]
        exact ⟨rfl, hnothing⟩

theorem addField (hid : 0 < id.value) (name : String) (k : Kind) :
    (w'.addField (w₀.shift id) name (.initial k)).1 = (w.addField id name (.initial k)).1 ∧
      Beside w₀ env (w.addField id name (.initial k)).2 (w'.addField (w₀.shift id) name (.initial k)).2 := by
  unfold World.addField
  rw [h.node? hid]
  cases w.node? id with
  | none => exact ⟨rfl, h⟩
  | some n =>
    have hcapabilities : (n.mapNodes w₀.shift).capabilities = n.capabilities := rfl
    have htype : (n.mapNodes w₀.shift).typeName = n.typeName := rfl
    dsimp only [Option.map_some]
    rw [hcapabilities, htype, (n.matches_mapNodes w₀.shift).hasField]
    split
    · exact ⟨rfl, h⟩
    split
    · exact ⟨rfl, h⟩
    refine ⟨rfl, h.modify hid (fun m _ _ => ?_) fun m _ _ hm => ?_⟩
    · have hinitial : (Field.initial k).mapNodes w₀.shift = .initial k :=
        Field.mapNodes_of_references (Field.references_initial k)
      refine congrArg (fun dynamic => { m.mapNodes w₀.shift with dynamic }) ?_
      rw [Node.mapNodes, List.map_append, List.map_singleton, hinitial]
    · refine ⟨hm.id, fun r hr => hm.references r ?_, hm.parents, hm.environment, hm.free⟩
      rwa [Node.references_append_dynamic, Field.references_initial, List.append_nil] at hr

theorem addConnection (hid : 0 < id.value) (output : String) (r : Route) :
    (w'.addConnection (w₀.shift id) output (r.mapNodes w₀.shift)).1 = (w.addConnection id output r).1 ∧
      Beside w₀ env (w.addConnection id output r).2
        (w'.addConnection (w₀.shift id) output (r.mapNodes w₀.shift)).2 := by
  unfold World.addConnection
  rw [h.node? hid]
  cases w.node? id with
  | none => exact ⟨rfl, h⟩
  | some n =>
    have himage := fun m : Node => m.addConnection_mapNodes w₀.shift_injective output r
    dsimp only [Option.map_some]
    refine ⟨by rw [himage n], h.modify hid (fun m _ _ => congrArg Prod.snd (himage m)) ?_⟩
    intro m _ _ hm
    obtain ⟨routes, hroutes⟩ := m.addConnection_eq output r
    rw [hroutes]
    exact hm.unseen ..

/-! ### Making nodes -/

/-- Both tables of layouts answer with the layout of a type. -/
theorem specification {t : NodeType} (ht : t ∈ Catalog.withScenes)
    (hdistinct : Specification.duplicate? [] t.fields = none) :
    ∃ specifications specifications',
      w.specification t.name t.fields = .ok (t.layout, { w with specifications }) ∧
        w'.specification t.name t.fields = .ok (t.layout, { w' with specifications := specifications' }) ∧
          Beside w₀ env { w with specifications } { w' with specifications := specifications' } := by
  obtain ⟨specifications, heq, hlayouts⟩ := h.layouts.1.specification ht hdistinct
  obtain ⟨specifications', heq', hlayouts'⟩ := h.layouts.2.specification ht hdistinct
  exact ⟨specifications, specifications', heq, heq', { h with layouts := ⟨hlayouts, hlayouts'⟩ }⟩

theorem create {spec : Specification} (hfree : spec.IsFree) (b : Behavior) :
    (w'.create spec b (env.mapNodes w₀.shift)).1 = w₀.shift (w.create spec b env).1 ∧
      Beside w₀ env (w.create spec b env).2 (w'.create spec b (env.mapNodes w₀.shift)).2 ∧
        0 < (w.create spec b env).1.value := by
  have hid : (⟨w'.registry.lastId + 1⟩ : NodeId) = w₀.shift ⟨w.registry.lastId + 1⟩ := by
    rw [h.lastId]
    rfl
  refine ⟨hid, ⟨h.base, ?_, ?_, h.names, ?_, h.cascade, h.layouts, ?_, h.named⟩, Nat.succ_pos _⟩
  · change w'.nodes ++ [Node.fresh ⟨w'.registry.lastId + 1⟩ spec b (env.mapNodes w₀.shift)] =
      w₀.nodes ++ (w.nodes ++ [Node.fresh ⟨w.registry.lastId + 1⟩ spec b env]).map _
    rw [h.nodes, hid, List.map_append, List.append_assoc, List.map_singleton, Node.fresh_mapNodes _ _ hfree]
  · exact congrArg (· + 1) h.lastId
  · change _ :: w'.held = (_ :: w.held).map w₀.shift ++ w₀.held
    rw [h.held, List.map_cons, List.cons_append]
    exact congrArg (· :: _) hid
  · refine List.forall_mem_append.2 ⟨h.own, fun n hn => ?_⟩
    rw [List.mem_singleton.1 hn]
    refine ⟨Nat.succ_pos _, ?_, fun p hp => ?_, rfl, hfree⟩
    · rw [Node.references_fresh hfree]
      simp
    · cases hp

end Beside

end World

end SceneGraph
