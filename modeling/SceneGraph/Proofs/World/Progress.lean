import SceneGraph.Proofs.Cascade.Induction
import SceneGraph.Proofs.World.Change

/-!
# What operations are made of

Every operation on a world is a sequence of changes that leaves the handles and the cascade stack as
they were (`World.Proceeds`), apart from the handles that it takes or lets go of itself.

* `proceeds_release`: letting go destroys nodes that nobody holds, one by one.
* `proceeds_receive`: what a node does with a value.
* `proceeding`, `proceeds_setField`: the parts of a cascade, and whole cascades.
* `proceeds_initializeNode`: setting nodes up, by induction on the depth of the recursion.
-/

namespace SceneGraph

namespace World

variable {types : Catalog} {w w' w'' : World} {n : Node} {name : String} {value : Field}

/-- Some changes after which the handles and the cascade stack are the same as before. -/
structure Proceeds (types : Catalog) (w w' : World) : Prop where
  leads : Leads types w w'
  held : w'.held = w.held
  cascade : w'.cascade = w.cascade

namespace Proceeds

theorem refl (types : Catalog) (w : World) : Proceeds types w w := ⟨.refl, rfl, rfl⟩

theorem trans (h : Proceeds types w w') (h' : Proceeds types w' w'') : Proceeds types w w'' :=
  ⟨h.leads.trans h'.leads, h'.held.trans h.held, h'.cascade.trans h.cascade⟩

theorem of_change (h : Change types w w') (hh : w'.held = w.held) (hc : w'.cascade = w.cascade) :
    Proceeds types w w' := ⟨.single h, hh, hc⟩

theorem enter (w : World) {e : Entry} (he : e.isPlain = true) : Proceeds types w (w.enter e) :=
  of_change (.entered w e he) rfl rfl

theorem foldl {α : Type} {act : World → α → World}
    (hact : ∀ w a, Proceeds types w (act w a)) (w : World) (l : List α) :
    Proceeds types w (l.foldl act w) := by
  induction l generalizing w with
  | nil => exact refl types w
  | cons a rest ih => exact (hact w a).trans (ih (act w a))

/-- Changes that preserve soundness, one for each entry of a list. -/
theorem foldl_sound {α : Type} {act : World → α → World} (hr : types.Regular) {held : List NodeId}
    (hact : ∀ w a, Sound types w → w.held = held → Proceeds types w (act w a)) (hs : Sound types w)
    (hh : w.held = held) (l : List α) : Proceeds types w (l.foldl act w) := by
  induction l generalizing w with
  | nil => exact refl types w
  | cons a rest ih =>
    have h := hact w a hs hh
    exact h.trans (ih (hs.leads hr h.leads) (h.held.trans hh))

end Proceeds

/-! ### Letting go -/

theorem held_destroy (w : World) (n : Node) : (w.destroy n).held = w.held := by
  have h : (w.destroy n).held = ((w.takeLeave n).reportParents n.id).held := rfl
  rw [h, held_reportParents, (reparents_takeLeave w n).held]

theorem cascade_destroy (w : World) (n : Node) : (w.destroy n).cascade = w.cascade := by
  have h : (w.destroy n).cascade = ((w.takeLeave n).reportParents n.id).cascade := rfl
  rw [h, cascade_reportParents, (reparents_takeLeave w n).cascade]

/-- Whoever else is there when a node goes only loses it as a parent. -/
theorem node?_destroy (w : World) (n : Node) (id : NodeId) :
    (w.destroy n).node? id = if id = n.id then none else
      (w.node? id).map fun m => { m with parents := (Node.removeParent n.id)^[n.claimed.count m.id] m.parents } := by
  rw [destroy, node?_remove, node?_congr (nodes_reportParents _ _), (reparents_takeLeave w n).node?]

/-- What survives the destruction of a node that nobody holds survives every release. -/
theorem release_induction {I : World → Prop}
    (h : ∀ w n, w.node? n.id = some n → w.isHeld n.id = false → I w → I (w.destroy n))
    (ids : List NodeId) (hI : I w) : I (release ids w) := by
  fun_induction World.release ids w with
  | case1 w => exact hI
  | case2 w id rest _ ih => exact ih hI
  | case3 w id rest _ _ ih => exact ih hI
  | case4 w id rest hfree n hn ih =>
    obtain rfl := id_of_node? hn
    rw [Bool.or_eq_true, not_or, Bool.not_eq_true] at hfree
    exact ih (h w n hn hfree.1 hI)

/-- What is still held does not go. -/
theorem release_of_isHeld {ids : List NodeId} (h : ∀ id ∈ ids, w.isHeld id = true) : release ids w = w := by
  induction ids with
  | nil => rw [release]
  | cons id rest ih =>
    obtain ⟨hid, hrest⟩ := List.forall_mem_cons.1 h
    rw [release, if_pos (by rw [hid, Bool.true_or]), ih hrest]

theorem proceeds_release (types : Catalog) (ids : List NodeId) (w : World) :
    Proceeds types w (release ids w) :=
  release_induction (I := Proceeds types w)
    (fun v n hn hfree h => h.trans
      (.of_change (.destroyed v n hn hfree) (held_destroy v n) (cascade_destroy v n)))
    ids (.refl types w)

/-- Some nodes are held while something is done. -/
theorem Proceeds.holding {ids : List NodeId} (hlive : ∀ id ∈ ids, w.isLive id = true)
    (h : Proceeds types (w.holdAll ids) w') : Proceeds types w (w'.dropAll ids) := by
  have hrelease := proceeds_release types ids { w' with held := ids.foldl List.erase w'.held }
  refine ⟨?_, ?_, ?_⟩
  · exact .trans (.single (.held w ids hlive))
      (h.leads.trans (.trans (.single (.unheld w' ids)) hrelease.leads))
  · rw [dropAll, hrelease.held, h.held]
    exact foldl_erase_append ids w.held
  · exact hrelease.cascade.trans h.cascade

/-! ### Reactions -/

/-- Storing a value of the right kind is allowed unless it replaces the children of a grouping node that
is set up. -/
def MayStore (w : World) (id : NodeId) (name : String) : Prop :=
  ∀ n, w.node? id = some n → n.behavior = .grouping → n.initialized = true → name ≠ childrenField

theorem MayStore.of_ne {id : NodeId} (h : name ≠ childrenField) : MayStore w id name :=
  fun _ _ _ _ => h

theorem MayStore.of_behavior (hn : w.node? n.id = some n) (h : n.behavior ≠ .grouping) :
    MayStore w n.id name := by
  intro m hm hb
  obtain rfl : n = m := Option.some.inj (hn.symm.trans hm)
  exact absurd hb h

theorem proceeds_assign {id : NodeId} {after : Aftermath}
    (hlive : ∀ r ∈ value.references, w.isLive r = true) (hs : MayStore w id name) :
    Proceeds types w (w.assign id name value after).2.2 := by
  obtain heq | ⟨n, old, hn, hold, hkind, heq⟩ := assign_cases w id name value after <;> rw [heq]
  · exact .refl types w
  · obtain rfl := id_of_node? hn
    exact (Proceeds.of_change (.stored w n name old value hn hold hkind hlive (hs n hn)) rfl rfl).trans
      (.enter _ rfl)

theorem proceeds_emit {id : NodeId} {after : Aftermath}
    (hlive : ∀ r ∈ value.references, w.isLive r = true) (hs : MayStore w id name) :
    Proceeds types w (w.emit id name value after).2.2 := by
  rw [emit_world]
  exact proceeds_assign hlive hs

/-- Storing values changes no ids. -/
theorem isLive_emit {id : NodeId} {after : Aftermath} :
    (w.emit id name value after).2.2.isLive = w.isLive := by
  rw [emit_world]
  obtain heq | ⟨n, old, -, -, -, heq⟩ := assign_cases w id name value after <;> rw [heq]
  exact isLive_modify w id fun n => Node.store_id n _ _

theorem proceeds_emitBoth {id : NodeId} {a b : String} {u v : Field}
    (hu : ∀ r ∈ u.references, w.isLive r = true) (hv : ∀ r ∈ v.references, w.isLive r = true)
    (ha : a ≠ childrenField) (hb : b ≠ childrenField) :
    Proceeds types w (w.emitBoth id (a, u) (b, v)).2.2 := by
  have h : Proceeds types w (w.emit id a u {}).2.2 := proceeds_emit hu (.of_ne ha)
  have hlive : (w.emit id a u {}).2.2.isLive = w.isLive := isLive_emit
  unfold emitBoth
  split
  · rename_i heq
    rw [heq] at h hlive
    exact h.trans (proceeds_emit (by rwa [hlive]) (.of_ne hb))
  · exact h

theorem proceeds_filterInput (hn : w.node? n.id = some n) (hb : n.behavior ≠ .grouping)
    (hlive : ∀ r ∈ value.references, w.isLive r = true) :
    Proceeds types w (w.filterInput n.id name value).2.2 := by
  unfold filterInput
  split
  · exact proceeds_assign hlive (.of_behavior hn hb)
  · split
    · rename_i b _
      refine proceeds_emitBoth (by simp [Field.references_eq_nil, Field.single])
        (by simp [Field.references_eq_nil, Field.single]) ?_ (by decide)
      cases b <;> decide
    · exact .refl types w

theorem value_ok {t : FieldType} {v : t.Carrier} (h : n.value t name = .ok v) :
    ∃ f, n.field? name = some f ∧ f.kind = ⟨t, .single⟩ := by
  unfold Node.value at h
  split at h
  · rename_i f hf
    exact ⟨f, Node.fieldOfKind_ok hf⟩
  · cases h

theorem proceeds_bumpCount (w : World) (id : NodeId) (time : Timestamp) :
    Proceeds types w (w.bumpCount id time).2.2 := by
  unfold bumpCount
  split
  · rename_i n hn
    obtain rfl := id_of_node? hn
    split
    · rename_i count hcount
      obtain ⟨old, hold, hkind⟩ := value_ok hcount
      exact (Proceeds.of_change (.stored w n "count" old _ hn hold hkind
        (by simp [Field.references_eq_nil, Field.single]) fun _ _ => by decide) rfl rfl).trans
        (.enter _ rfl)
    · exact .enter w rfl
  · exact .refl types w

theorem proceeds_recordInput (hn : w.node? n.id = some n) (hb : n.behavior ≠ .grouping)
    (hlive : ∀ r ∈ value.references, w.isLive r = true) :
    Proceeds types w (w.recordInput n.id name value).2.2 := by
  unfold recordInput
  dsimp only
  split
  · exact .refl types w
  split
  · exact proceeds_emit hlive (.of_behavior hn hb)
  split
  · exact proceeds_emitBoth hlive hlive (by decide) (by decide)
  split
  · exact proceeds_bumpCount w n.id _
  split
  · unfold survey
    split
    · exact .enter w rfl
    · exact .refl types w
  · exact proceeds_assign hlive (.of_behavior hn hb)

/-! ### Children -/

theorem Reparents.children {g : NodeId → List (NodeId × Nat) → List (NodeId × Nat)}
    (h : Reparents g w w') : w'.children = w.children := by
  funext id
  rw [World.children, h.node?, World.children, Option.map_map]
  rfl

theorem Reparents.parentsOf (h : Reparents (fun _ ps => ps) w w') : w'.parentsOf = w.parentsOf := by
  funext id
  rw [World.parentsOf, h.node?, World.parentsOf, Option.map_map]
  rfl

theorem Reparents.ancestors (h : Reparents (fun _ ps => ps) w w') : w'.ancestors = w.ancestors := by
  funext id
  rw [World.ancestors, World.ancestors, h.parentsOf, h.liveIds]

theorem proceeds_logRejected (types : Catalog) (w : World) (p c : NodeId) :
    Proceeds types w (w.logRejected p c) := by
  obtain heq | ⟨text, heq⟩ := logRejected_cases w p c <;> rw [heq]
  · exact .refl types w
  · exact .enter w rfl

theorem proceeds_accept (types : Catalog) (w : World) (p : NodeId) (proposed : List NodeId) :
    Proceeds types w (w.accept p proposed).2.2 :=
  .foldl (fun w c => proceeds_logRejected types w p c) w _

theorem kept_storeChildren (w : World) (id : NodeId) (old new : List NodeId) (time : Timestamp)
    (after : Aftermath) :
    (w.storeChildren id old new time after).2.held = w.held ∧
      (w.storeChildren id old new time after).2.cascade = w.cascade := by
  obtain heq | ⟨n, f, -, -, -, heq⟩ := storeChildren_cases w id old new time after <;> rw [heq] <;> exact ⟨rfl, rfl⟩

theorem kept_replaceChildren (w : World) (id : NodeId) (old new : List NodeId) (time : Timestamp)
    (after : Aftermath) :
    (w.replaceChildren id old new time after).2.held = w.held ∧
      (w.replaceChildren id old new time after).2.cascade = w.cascade := by
  have hlink := reparents_relink w id old new
  unfold replaceChildren
  dsimp only
  split
  · obtain ⟨hheld, hcascade⟩ := kept_storeChildren
      (new.foldl (link · id ·) (old.foldl (unlink · id ·) w)) id old new time after
    exact ⟨hheld.trans hlink.held, hcascade.trans hlink.cascade⟩
  · exact kept_storeChildren w id old new time after

/-- A grouping node takes a list of children as it is told to: a node that is not set up just stores
it, and one that is set up takes no ancestor that it did not list before. -/
theorem proceeds_replaceChildren (hr : types.Regular) (hs : Sound types w) {next : List NodeId}
    (hn : w.node? n.id = some n) (hb : n.behavior = .grouping)
    (hlive : ∀ c ∈ next, w.isLive c = true)
    (hnext : ∀ c ∈ next, c ∈ w.children n.id ∨ c ∉ w.ancestors n.id) (time : Timestamp)
    (after : Aftermath) :
    Proceeds types w (w.replaceChildren n.id (w.children n.id) next time after).2 := by
  obtain ⟨f, hf, hk⟩ := hs.exists_children hr (mem_nodes_of_node? hn) hb
  by_cases hi : n.initialized = true
  · obtain ⟨hheld, hcascade⟩ := kept_replaceChildren w n.id (w.children n.id) next time after
    exact .of_change (.relinked w n next time after hn hb hi hlive hnext) hheld hcascade
  · have hstore := storeChildren_eq hn hf hk (w.children n.id) next time after
    rw [replaceChildren, hn, Option.any_some, if_neg hi, hstore]
    exact (Proceeds.of_change (.stored w n childrenField f _ hn hf hk
      (by simpa using hlive) fun _ h => absurd h hi) rfl rfl).trans (.enter _ rfl)

theorem proceeds_changeChildren (hr : types.Regular) (hs : Sound types w)
    (hn : w.node? n.id = some n) (hb : n.behavior = .grouping)
    (hlive : ∀ r ∈ value.references, w.isLive r = true) :
    Proceeds types w (w.changeChildren n.id name value).2.2 := by
  have hreplace : ∀ w', Reparents (fun _ ps => ps) w w' → Proceeds types w w' →
      ∀ next after, (∀ c ∈ next, c ∈ w.children n.id ∨
        c ∈ value.references ∧ c ∉ w.ancestors n.id) → Proceeds types w
          (w'.replaceChildren n.id (w.children n.id) next value.timestamp after).2 := by
    intro w' hq hp next after hnext
    have hn' : w'.node? n.id = some n := by rw [hq.node?, hn]; rfl
    refine hp.trans ?_
    rw [← hq.children]
    refine proceeds_replaceChildren hr (hs.leads hr hp.leads) hn' hb (fun c hc => ?_)
      (fun c hc => ?_) _ _
    · rw [isLive_congr hq.liveIds]
      exact (hnext c hc).elim (hs.children n.id c) fun h => hlive c h.1
    · rw [hq.children, hq.ancestors]
      exact (hnext c hc).imp_right fun h => h.2
  have haccept : ∀ proposed, (∀ c ∈ proposed, c ∈ value.references) →
      ∀ c ∈ (w.accept n.id proposed).1, c ∈ value.references ∧ c ∉ w.ancestors n.id := by
    intro proposed hsub c hc
    obtain ⟨hmem, hanc⟩ := List.mem_filter.1 hc
    exact ⟨hsub c hmem, by simpa using hanc⟩
  unfold changeChildren
  split
  · exact .refl types w
  dsimp only
  split
  · exact hreplace _ (accept_spec w _ _).2 (proceeds_accept types w _ _) _ _
      fun c hc => .inr (haccept _ (fun _ h => h) c hc)
  split
  · refine hreplace _ (accept_spec w _ _).2 (proceeds_accept types w _ _) _ _ fun c hc => ?_
    rcases List.mem_append.1 hc with hc | hc
    · exact .inl hc
    · exact .inr (haccept _ (fun _ h => (List.mem_filter.1 h).1) c hc)
  · exact hreplace w (.refl w) (.refl types w) _ _ fun c hc => .inl (List.mem_filter.1 hc).1

/-! ### Values from outside -/

/-- The children of a grouping node are put before its behaviour. -/
theorem Sound.access_children (hr : types.Regular) (hs : Sound types w) (hn : n ∈ w.nodes)
    (hb : n.behavior = .grouping) : n.access? childrenField = some .all := by
  obtain ⟨t, ht, hspec, hbt⟩ := hs.typed n hn
  obtain ⟨rest, hrest⟩ := hr.grouping t ht (hbt ▸ hb)
  have hentry : n.spec.entry? childrenField = some ⟨childrenField, .all, .nodes []⟩ := by
    rw [hspec, Specification.entry?, NodeType.layout, hrest]; rfl
  rw [Node.access?, hentry]

theorem proceeds_changeField (hr : types.Regular) (hs : Sound types w) (hn : w.node? n.id = some n)
    (hlive : ∀ r ∈ value.references, w.isLive r = true) :
    Proceeds types w (w.changeField n name value).2.2 := by
  unfold changeField
  split
  · rename_i hb
    split
    · exact proceeds_changeChildren hr hs hn hb hlive
    · rename_i hname
      exact proceeds_assign hlive (.of_ne fun h => hname (.inl h))
  · exact proceeds_filterInput hn (by simp [*]) hlive
  · exact (Proceeds.enter w rfl).trans (proceeds_recordInput hn (by simp [*]) hlive)
  · exact proceeds_assign hlive (.of_behavior hn ‹_›)

theorem proceeds_noticeChange (types : Catalog) (w : World) (id : NodeId) (name : String) :
    Proceeds types w (w.noticeChange id name) := by
  obtain heq | ⟨value, heq⟩ := noticeChange_cases w id name <;> rw [heq]
  · exact .refl types w
  · exact .enter w rfl

/-- What a node does with a value is a sequence of changes of the node and, if it groups children, of
their parents. -/
theorem proceeds_receive (hr : types.Regular) (hs : Sound types w) (hn : w.node? n.id = some n)
    (hlive : ∀ r ∈ value.references, w.isLive r = true) :
    Proceeds types w (w.receive n name value).2.2 := by
  unfold receive
  split
  · exact .refl types w
  rename_i access haccess
  split
  · exact .refl types w
  split
  · have h : Proceeds types w (w.changeField n name value).2.2 := proceeds_changeField hr hs hn hlive
    split <;> (rename_i heq; rwa [heq] at h)
  rename_i hexplicit
  split
  · exact .refl types w
  split
  · exact .refl types w
  dsimp only
  have h : Proceeds types w (w.assign n.id name value {}).2.2 := by
    refine proceeds_assign hlive fun m hm hb _ hname => hexplicit ?_
    obtain rfl : n = m := Option.some.inj (hn.symm.trans hm)
    rw [hname, hs.access_children hr (mem_nodes_of_node? hn) hb] at haccess
    obtain rfl := Option.some.inj haccess
    rfl
  split
  · exact h.trans (proceeds_noticeChange types _ _ _)
  · exact h

theorem proceeds_produce (hlive : ∀ r ∈ value.references, w.isLive r = true)
    (hs : MayStore w n.id name) : Proceeds types w (w.produce n name value).2.2 := by
  obtain ⟨e, heq⟩ | ⟨old, -, -, heq⟩ := produce_cases w n name value <;> rw [heq]
  · exact .refl types w
  · exact proceeds_assign hlive hs

/-! ### Cascades -/

theorem Sound.of_held (hs : Sound types w) (hv : value.references ⊆ w.held) :
    ∀ r ∈ value.references, w.isLive r = true := fun r hr => hs.held r (hv hr)

/-- What is sent out is in a field, so it refers to live nodes. -/
theorem Sound.dispatch (hs : Sound types w) {id : NodeId} {d : Dispatch}
    (hd : w.dispatch? id name = some d) : ∀ r ∈ d.value.references, w.isLive r = true := by
  unfold dispatch? at hd
  split at hd
  · rename_i n hn
    split at hd
    · obtain ⟨v, hv, rfl⟩ := Option.map_eq_some_iff.1 hd
      exact fun r hr => hs.references r (references_subset_of_mem (mem_nodes_of_node? hn)
        (Node.references_subset_of_field? hv hr))
    · cases hd
  · cases hd

/-- While a field is on the cascade stack, something is done that leaves the stack as it is. -/
theorem Proceeds.entered {id : NodeId} (hin : w.enterCascade id name = some w')
    (h : Proceeds types w' w'') : Proceeds types w w''.leaveCascade := by
  obtain ⟨-, rfl⟩ := enterCascade_eq_some hin
  have hcascade : w''.cascade = (id, name) :: w.cascade := h.cascade
  refine ⟨?_, h.held, ?_⟩
  · exact .trans (.tail (.single (.cascaded w _)) (.entered _ _ rfl))
      (h.leads.trans (.tail (.single (.cascaded w'' _)) (.entered _ _ rfl)))
  · rw [leaveCascade, step, World.enter, hcascade]
    rfl

theorem Sound.entered (hs : Sound types w) {id : NodeId} (hin : w.enterCascade id name = some w') :
    Sound types w' ∧ w'.held = w.held ∧ w'.nodes = w.nodes := by
  obtain ⟨-, rfl⟩ := enterCascade_eq_some hin
  exact ⟨hs.congr rfl rfl rfl hs.held, rfl, rfl⟩

/-- What is held goes on to be held when handles are taken. -/
theorem references_subset_holdAll (ids : List NodeId) (h : value.references ⊆ w.held) :
    value.references ⊆ (w.holdAll ids).held := fun _ hr => List.mem_append_right ids (h hr)

/-- The cascade stack has nothing to do with handles. -/
theorem references_subset_entered {v w : World} {id : NodeId} {name : String} {value : Field}
    (hin : v.enterCascade id name = some w) (h : value.references ⊆ v.held) : value.references ⊆ w.held := by
  obtain ⟨-, rfl⟩ := enterCascade_eq_some hin
  exact h

/-- The parts of a cascade go on as a run does, where values refer to nodes that are held. -/
def proceeding (hr : types.Regular) : CascadeRule where
  Inv := Sound types
  Fit w value := value.references ⊆ w.held
  Holdable w ids := ∀ id ∈ ids, w.isLive id = true
  Rel := Proceeds types
  Suits _ _ _ := False
  Due _ _ _ := True
  refl := .refl types
  trans := .trans
  inv_rel hs h := hs.leads hr h.leads
  fit_rel _ h hv := h.held ▸ hv
  log w level text hlevel := .enter w (by cases level <;> first | rfl | exact absurd rfl hlevel)
  release ids _ := proceeds_release types ids _
  holdable _ hn := by simpa using isLive_of_node? hn
  inv_held hs hlive := hs.change hr (.held _ _ hlive)
  fit_held := @references_subset_holdAll
  held _ hlive h := .holding hlive h
  inv_entered hin hs := (hs.entered hin).1
  fit_entered := @references_subset_entered
  suits_entered _ h := h
  left hin h := h.entered hin
  receive hs hn hv := ⟨proceeds_receive hr hs hn (hs.of_held hv), False.elim⟩
  dispatched hs hd := ⟨hs.dispatch hd, List.subset_append_left _ _, fun _ _ => trivial⟩
  followed w _ _ _ := .enter w rfl

theorem proceeds_settle (hr : types.Regular) (hs : Sound types w) (depth : Nat) (n : Node) (after : Aftermath) :
    Proceeds types w (settle (deliverUpTo depth) n after w) :=
  (proceeding hr).settle ((proceeding hr).deliverUpTo depth) hs n after

theorem proceeds_setField (hr : types.Regular) (hs : Sound types w) {id : NodeId}
    (hv : value.references ⊆ w.held) : Proceeds types w (w.setField id name value).2 :=
  (proceeding hr).setField hs hv id name

theorem proceeds_emitField (hr : types.Regular) (hs : Sound types w) {id : NodeId}
    (hv : value.references ⊆ w.held) (hstore : MayStore w id name) :
    Proceeds types w (w.emitField id name value).2 := by
  refine (proceeding hr).emitField hs fun n w' hn hid hin => ?_
  obtain ⟨hs', hheld, hnodes⟩ := hs.entered hin
  have hstore' : MayStore w' n.id name := fun m hm => hstore m ((node?_congr hnodes).symm.trans (hid ▸ hm))
  exact proceeds_produce (hs'.of_held (hheld ▸ hv)) hstore'

theorem proceeds_initField (hs : Sound types w) {id : NodeId} (hv : value.references ⊆ w.held)
    (hstore : MayStore w id name) : Proceeds types w (w.initField id name value).2 := by
  unfold initField
  split
  · exact .refl types w
  rename_i n hn
  obtain rfl := id_of_node? hn
  have h : Proceeds types w (w.produce n name value).2.2 := proceeds_produce (hs.of_held hv) hstore
  split
  rename_i heq
  rw [heq] at h
  exact h.trans (proceeds_release types _ _)

end World

end SceneGraph
