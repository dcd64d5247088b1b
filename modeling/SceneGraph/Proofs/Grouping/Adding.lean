import SceneGraph.Proofs.Cascade.Forwarding
import SceneGraph.Proofs.Grouping.Rejection

/-!
# Adding and removing children

A grouping node puts children to add behind those that it lists. It leaves out what it lists already and what is
above it, and nothing else: a node that is to be added twice is listed twice. Nobody goes meanwhile, because all of
the old list is either kept or was handed in by a caller, who holds it. So removing the same children leads back to
the old list.

* `World.nextChildren`: the list that a grouping node has afterwards.
* `exists_setField_input`: adding or removing changes the list in one go.
* `setField_addChildren`: what is added, and that removing undoes it.
* `setField_addChildren_twice`: a new child is listed as often as it is added.
-/

namespace SceneGraph

open Relation (ReflTransGen)

namespace World

variable {types : Catalog} {w w' : World} {id : NodeId} {n : Node} {name : String} {value : Field}
  {ids old new : List NodeId} {time : Timestamp}

theorem children_of_field? {g : Node} (hg : w.node? id = some g)
    (hf : g.field? childrenField = some (.nodes ids time)) : w.children id = ids := by
  have hkind : (Field.nodes ids time).kind = ⟨.node, .multi⟩ := rfl
  rw [children, hg, Option.map_some, Option.getD_some, Node.nodesIn, hf]
  dsimp only
  rw [if_pos hkind, Field.references_nodes]

/-- The new list of children is stored, whether the node is set up or not. -/
theorem exists_replaceChildren {f : Field} (hn : w.node? n.id = some n) (hf : n.field? childrenField = some f)
    (hk : f.kind = ⟨.node, .multi⟩) (old new : List NodeId) (time : Timestamp) (after : Aftermath) :
    ∃ g, (w.replaceChildren n.id old new time after).2.node? n.id = some g ∧ g.behavior = n.behavior ∧
      g.field? childrenField = some (.nodes new time) := by
  by_cases hi : n.initialized = true
  · refine ⟨n.relinked n.id old new time, ?_, ?_, Node.field?_relinked_self hf old new time⟩
    · rw [node?_replaceChildren hn hi hf hk, hn]
      rfl
    · rw [Node.relinked, if_pos rfl]
      exact n.store_behavior ..
  · have hstore := storeChildren_eq hn hf hk old new time after
    rw [replaceChildren, hn, Option.any_some, if_neg hi, hstore]
    refine ⟨n.store childrenField (.nodes new time), ?_, n.store_behavior .., ?_⟩
    · exact (node?_modify_self w n.id fun m => m.store_id _ _).trans (congrArg (Option.map _) hn)
    · rw [Node.field?_store, if_pos rfl, hf]
      rfl

/-- The children of a grouping node after children were added or removed. -/
def nextChildren (w : World) (id : NodeId) (name : String) (incoming : List NodeId) : List NodeId :=
  if name = addChildrenField then
    w.children id ++
      (incoming.filter (!(w.children id).contains ·)).filter (!(w.ancestors id).contains ·)
  else (w.children id).filter (!incoming.contains ·)

/-- Children to add or to remove are always taken. What is let go of afterwards was handed in or is still listed. -/
theorem exists_changeChildren (hr : types.Regular) (hs : Sound types w) (hn : w.node? n.id = some n)
    (hb : n.behavior = .grouping) (hname : name = addChildrenField ∨ name = removeChildrenField)
    (hkind : value.kind = ⟨.node, .multi⟩) :
    ∃ released v, w.changeChildren n.id name value = (true, { released }, v) ∧
      (∀ x ∈ released, x ∈ value.references ∨ x ∈ w.nextChildren n.id name value.references) ∧
      ∃ g, v.node? n.id = some g ∧ g.behavior = .grouping ∧
        g.field? childrenField = some (.nodes (w.nextChildren n.id name value.references) value.timestamp) := by
  obtain ⟨f, hf, hk⟩ := hs.exists_children hr (mem_nodes_of_node? hn) hb
  rcases hname with rfl | rfl
  -- children that are listed already are not added again
  · generalize hfresh : value.references.filter (!(w.children n.id).contains ·) = fresh
    obtain ⟨-, hquiet⟩ := accept_spec w n.id fresh
    have hn' : (w.accept n.id fresh).2.2.node? n.id = some n := by
      rw [hquiet.node?, hn]
      rfl
    have hnext : w.nextChildren n.id addChildrenField value.references =
        w.children n.id ++ fresh.filter (!(w.ancestors n.id).contains ·) := hfresh ▸ if_pos rfl
    obtain ⟨g, hg, hbehavior, hstored⟩ := exists_replaceChildren hn' hf hk (w.children n.id)
      (w.nextChildren n.id addChildrenField value.references) value.timestamp
      { released := fresh.filter ((w.ancestors n.id).contains ·) }
    refine ⟨fresh.filter ((w.ancestors n.id).contains ·) ++ w.children n.id, _, ?_, fun x hx => ?_, g, hg,
      hbehavior.trans hb, hstored⟩
    · unfold changeChildren
      rw [if_neg (not_not.2 hkind)]
      dsimp only
      rw [if_neg (by decide), if_pos rfl, hfresh, hnext, replaceChildren, storeChildren_fst]
      rfl
    · rcases List.mem_append.1 hx with hx | hx
      · exact .inl (List.mem_filter.1 (hfresh ▸ List.mem_of_mem_filter hx)).1
      · exact .inr (hnext ▸ List.mem_append_left _ hx)
  · have hnext : w.nextChildren n.id removeChildrenField value.references =
        (w.children n.id).filter (!value.references.contains ·) := if_neg (by decide)
    obtain ⟨g, hg, hbehavior, hstored⟩ := exists_replaceChildren hn hf hk (w.children n.id)
      (w.nextChildren n.id removeChildrenField value.references) value.timestamp {}
    refine ⟨w.children n.id, _, ?_, fun x hx => ?_, g, hg, hbehavior.trans hb, hstored⟩
    · unfold changeChildren
      rw [if_neg (not_not.2 hkind)]
      dsimp only
      rw [if_neg (by decide), if_neg (by decide), hnext, replaceChildren, storeChildren_fst]
      rfl
    · by_cases hmem : x ∈ value.references
      · exact .inl hmem
      · exact .inr (hnext ▸ List.mem_filter.2 ⟨hx, by simpa using hmem⟩)

/-- **Adding or removing children changes the list in one go.** Nothing goes out along routes, and nobody goes. -/
theorem exists_setField_input (hr : types.Regular) (hs : Sound types w) (hidle : w.cascade = [])
    (hn : w.node? id = some n) (hb : n.behavior = .grouping)
    (hname : name = addChildrenField ∨ name = removeChildrenField) (value : Field)
    (hkind : value.kind = ⟨.node, .multi⟩) (hv : value.references ⊆ w.held) :
    ∃ w', w.setField id name value = (.ok (), w') ∧
      w'.children id = w.nextChildren id name value.references ∧
      ∃ g, w'.node? id = some g ∧ g.behavior = .grouping := by
  obtain rfl := id_of_node? hn
  generalize hu : { w with cascade := (n.id, name) :: w.cascade }.step (.entered n.id name) = u
  have hn' : u.node? n.id = some n := hu ▸ hn
  have hs' : Sound types u := hs.leads hr (hu ▸ .tail (.single (.cascaded w _)) (.entered _ _ rfl))
  have hnext : u.nextChildren n.id name value.references = w.nextChildren n.id name value.references := hu ▸ rfl
  have hheld : u.held = w.held := hu ▸ rfl
  have hproceeds : Proceeds types u (u.changeChildren n.id name value).2.2 :=
    proceeds_changeChildren hr hs' hn' hb (hs'.of_held (hheld ▸ hv))
  obtain ⟨released, v, hchange, hreleased, g, hg, hbehavior, hstored⟩ :=
    exists_changeChildren hr hs' hn' hb hname hkind
  rw [hnext] at hreleased hstored
  rw [hchange] at hproceeds
  have hchildren : v.children n.id = w.nextChildren n.id name value.references := children_of_field? hg hstored
  -- the caller holds what was handed in, and the group what it lists
  have hkept : release released v = v := by
    refine release_of_isHeld fun x hx => ?_
    rw [isHeld, Bool.or_eq_true, List.contains_iff_mem, List.contains_iff_mem]
    rcases hreleased x hx with hx | hx
    · exact .inl (hproceeds.held ▸ hheld ▸ hv hx)
    · exact .inr (children_subset_references v n.id (hchildren ▸ hx))
  have haccess := hs'.access_inputs hr (mem_nodes_of_node? hn') hb hname
  have hdispatch : v.dispatch? n.id name = none := by
    have hunread := (hs'.leads hr hproceeds.leads).access_inputs hr (mem_nodes_of_node? hg) hbehavior hname
    rw [dispatch?, hg]
    dsimp only
    rw [hunread]
    rfl
  have hset := setField_of_receive hidle hn hu
    (receive_of_changeChildren haccess rfl rfl hb (.inr hname) hchange) hdispatch
  exact ⟨v.leaveCascade, hset.trans (by rw [hkept]), hchildren, g, hg, hbehavior⟩

/-! ### Adding, and removing again -/

open Classical in
/-- **What is added.** A grouping node takes every list of children to add from a caller who holds them. It lists
behind its old children those of the list that it did not list and from which no lists of children lead to it, as
often and in the order as the list has them. If the old children and the list have no node in common, then removing
the list again restores the old children. -/
theorem setField_addChildren (hr : types.Regular) (hw : Reachable types w) (hn : w.node? id = some n)
    (hb : n.behavior = .grouping) (l : List (Option NodeId)) (hl : l.reduceOption ⊆ w.held) (time later : Timestamp) :
    ∃ w', w.setField id addChildrenField (.multi .node l time) = (.ok (), w') ∧
      w'.children id = w.children id ++
        l.reduceOption.filter (fun x => x ∉ w.children id ∧ ¬ ReflTransGen w.Groups x id) ∧
      ((∀ x ∈ w.children id, some x ∉ l) →
        ∃ w'', w'.setField id removeChildrenField (.multi .node l later) = (.ok (), w'') ∧
          w''.children id = w.children id) := by
  have h : Coherent types w := ⟨hw.sound hr, (hw.mirrored hr).counts⟩
  have hreferences : ∀ time, (Field.multi .node l time).references = l.reduceOption := fun _ => rfl
  obtain ⟨w', hset, hchildren, g, hg, hbehavior⟩ := exists_setField_input hr h.sound hw.idle hn hb (.inl rfl)
    (.multi .node l time) rfl hl
  have hadded : w'.children id = w.children id ++
      l.reduceOption.filter (fun x => x ∉ w.children id ∧ ¬ ReflTransGen w.Groups x id) := by
    rw [hchildren, nextChildren, if_pos rfl, hreferences, List.filter_filter]
    congr 1
    refine List.filter_congr fun x _ => ?_
    simp [h.mem_ancestors_iff, and_comm]
  refine ⟨w', hset, hadded, fun hnone => ?_⟩
  have hproceeds : Proceeds types w w' := by
    have hsetField : Proceeds types w (w.setField id addChildrenField (.multi .node l time)).2 :=
      proceeds_setField hr h.sound hl
    rwa [hset] at hsetField
  obtain ⟨w'', hunset, hrest, -⟩ := exists_setField_input hr (h.sound.leads hr hproceeds.leads)
    (hproceeds.cascade.trans hw.idle) hg hbehavior (.inr rfl) (.multi .node l later) rfl
    (hproceeds.held ▸ hl)
  refine ⟨w'', hunset, ?_⟩
  -- removing spares all old children, and none of the new ones
  have hold : (w.children id).filter (!l.reduceOption.contains ·) = w.children id := by
    refine List.filter_eq_self.2 fun x hx => ?_
    have hmem : x ∉ l.reduceOption := fun hmem => hnone x hx (List.reduceOption_mem_iff.1 hmem)
    simpa using hmem
  have hnew : ∀ added : List NodeId, (∀ x ∈ added, x ∈ l.reduceOption) →
      added.filter (!l.reduceOption.contains ·) = [] := by
    refine fun added hadded => List.filter_eq_nil_iff.2 fun x hx => ?_
    simpa using hadded x hx
  rw [hrest, nextChildren, if_neg (by decide), hreferences, hadded, List.filter_append, hold,
    hnew _ fun x hx => List.mem_of_mem_filter hx, List.append_nil]

/-- The outer group takes a third one behind the inner one, but not itself, and gives it up again. -/
theorem setField_addChildren_nested :
    Catalog.withScenes.Regular ∧ Reachable Catalog.withScenes nested ∧
      (∃ n, nested.node? ⟨1⟩ = some n ∧ n.behavior = .grouping) ∧
      ([some ⟨3⟩, none, some ⟨1⟩] : List (Option NodeId)).reduceOption ⊆ nested.held ∧
      ∃ w' w'', nested.setField ⟨1⟩ addChildrenField (.multi .node [some ⟨3⟩, none, some ⟨1⟩] .unset) = (.ok (), w') ∧
        w'.children ⟨1⟩ = [⟨2⟩, ⟨3⟩] ∧
        w'.setField ⟨1⟩ removeChildrenField (.multi .node [some ⟨3⟩, none, some ⟨1⟩] .unset) = (.ok (), w'') ∧
        w''.children ⟨1⟩ = [⟨2⟩] := by
  classical
  have hr := Catalog.regular_withScenes
  have hfound : (nested.node? ⟨1⟩).map (·.behavior) = some .grouping := by decide +kernel
  obtain ⟨n, hn, hb⟩ := Option.map_eq_some_iff.1 hfound
  have hheld : ([some ⟨3⟩, none, some ⟨1⟩] : List (Option NodeId)).reduceOption ⊆ nested.held := by decide +kernel
  obtain ⟨w', hset, hadded, hback⟩ := setField_addChildren hr reachable_nested hn hb
    [some ⟨3⟩, none, some ⟨1⟩] hheld .unset .unset
  have hchildren : nested.children ⟨1⟩ = [⟨2⟩] := by decide +kernel
  obtain ⟨w'', hunset, hrestored⟩ := hback (by rw [hchildren]; decide)
  have h : Coherent Catalog.withScenes nested :=
    ⟨reachable_nested.sound hr, (reachable_nested.mirrored hr).counts⟩
  have habove : nested.ancestors ⟨1⟩ = [⟨1⟩] := by decide +kernel
  have haccepted : ([some ⟨3⟩, none, some ⟨1⟩] : List (Option NodeId)).reduceOption.filter
      (fun x => x ∉ nested.children ⟨1⟩ ∧ ¬ ReflTransGen nested.Groups x ⟨1⟩) = [⟨3⟩] := by
    simp only [← h.mem_ancestors_iff, habove, hchildren]
    decide
  rw [haccepted, hchildren] at hadded
  exact ⟨hr, reachable_nested, ⟨n, hn, hb⟩, hheld, w', w'', hset, hadded, hunset, hchildren ▸ hrestored⟩

/-- A group that lists nothing, and a shape. -/
def vacant : World :=
  (Call.create Catalog.withScenes "Shape" .detached).run <|
    (Call.create Catalog.withScenes "Group" .detached).run {}

/-- **A new child is listed as often as it is added**: a shape that is added twice in one list is listed twice. -/
theorem setField_addChildren_twice :
    Reachable Catalog.withScenes vacant ∧ (vacant.node? ⟨1⟩).map (·.behavior) = some .grouping ∧
      [⟨2⟩, ⟨2⟩] ⊆ vacant.held ∧
      ¬ ∀ x ∈ [(⟨2⟩ : NodeId), ⟨2⟩], x ∉ vacant.children ⟨1⟩ → ¬ ReflTransGen vacant.Groups x ⟨1⟩ →
        ((vacant.setField ⟨1⟩ addChildrenField (.nodes [⟨2⟩, ⟨2⟩])).2.children ⟨1⟩).count x = 1 := by
  have hr := Catalog.regular_withScenes
  have hw : Reachable Catalog.withScenes vacant := .call (.call .empty fun _ ht => ht) fun _ ht => ht
  have h : Coherent Catalog.withScenes vacant := ⟨hw.sound hr, (hw.mirrored hr).counts⟩
  have habove : ¬ ReflTransGen vacant.Groups ⟨2⟩ ⟨1⟩ := by
    rw [← h.mem_ancestors_iff]
    decide +kernel
  refine ⟨hw, by decide +kernel, by decide +kernel, fun honce => ?_⟩
  have hcount : ((vacant.setField ⟨1⟩ addChildrenField (.nodes [⟨2⟩, ⟨2⟩])).2.children ⟨1⟩).count ⟨2⟩ = 2 := by
    decide +kernel
  have hone := honce ⟨2⟩ List.mem_cons_self (by decide +kernel) habove
  omega

end World

end SceneGraph
