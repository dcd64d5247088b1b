import SceneGraph.Proofs.Cascade.SettingUp
import SceneGraph.Proofs.World.Reachable

/-!
# What a set-up does to the nodes

Setting nodes up runs their hooks, and the journal tells which (`World.hooks`). A node is marked when its
first hook runs, and what it refers to changes at no other moment (`World.Latches`). Nodes may go meanwhile,
but not those that are held by a handle or that a node which is set up and stays refers to (`World.Secured`).

* `latches_release`: letting go runs no hook, and what is secured stays.
* `latches_runAdopt`, `latches_runSetUp`: the two hooks of a node.
* `initializeUpTo_eq`, `initializeNode_eq`: the bound on the levels plays no part.
-/

namespace SceneGraph

/-- A hook that runs when a node is set up: the first one claims what is the node's own, the second one
finishes the set-up. -/
inductive Hook where
  | adopt (node : NodeId)
  | setUp (node : NodeId)
  deriving DecidableEq, Repr

/-- The hook that an entry tells of. -/
def Entry.hook? : Entry → Option Hook
  | .step (.adopting id) => some (.adopt id)
  | .step (.settingUp id) => some (.setUp id)
  | _ => none

namespace World

variable {types : Catalog} {w w' w'' : World} {id : NodeId} {n m : Node} {T T' : List Hook}

/-- The hooks that have run, the first one first. -/
def hooks (w : World) : List Hook := w.journal.reverse.filterMap Entry.hook?

theorem hooks_enter (w : World) (e : Entry) : (w.enter e).hooks = w.hooks ++ e.hook?.toList := by
  rw [hooks, enter, List.reverse_cons, List.filterMap_append, hooks]
  cases he : e.hook? <;> simp [he]

/-- A live node that is set up. -/
def IsSetUp (w : World) (id : NodeId) : Prop := ∃ n, w.node? id = some n ∧ n.initialized = true

/-- A node that is in `handles`, or that a node which is set up and secured itself refers to. -/
inductive Secured (handles : List NodeId) (w : World) : NodeId → Prop
  | held {id : NodeId} (h : id ∈ handles) : Secured handles w id
  | referenced {p id : NodeId} {n : Node} (hp : Secured handles w p) (hn : w.node? p = some n)
      (hi : n.initialized = true) (hid : id ∈ n.references) : Secured handles w id

/-- From one moment to another the hooks of `T` have run. A node whose first hook was among them is marked,
any other one that is left has its mark and its references from before, and what was secured still is. -/
structure Latches (T : List Hook) (w w' : World) : Prop where
  hooks : w'.hooks = w.hooks ++ T
  held : w'.held = w.held
  nodes : ∀ id m, w'.node? id = some m → ∃ n, w.node? id = some n ∧
    (.adopt id ∈ T → n.initialized = false ∧ m.initialized = true) ∧
    (.adopt id ∉ T → m.initialized = n.initialized ∧ m.references = n.references)
  secured : ∀ handles, handles ⊆ w.held → ∀ id, Secured handles w id → Secured handles w' id

/-! ### Secured nodes -/

namespace Secured

variable {handles more : List NodeId}

/-- Nodes that are set up stay so and refer to the same nodes, as far as they are secured. -/
theorem map (hmap : ∀ p n, Secured handles w p → w.node? p = some n → n.initialized = true →
      ∃ m, w'.node? p = some m ∧ m.initialized = true ∧ m.references = n.references)
    (h : Secured handles w id) : Secured handles w' id := by
  induction h with
  | held h => exact .held h
  | referenced hp hn hi hid ih =>
    obtain ⟨m, hm, hmi, hreferences⟩ := hmap _ _ hp hn hi
    exact ih.referenced hm hmi (hreferences ▸ hid)

theorem congr (hn : w'.nodes = w.nodes) (h : Secured handles w id) : Secured handles w' id :=
  h.map fun _ n _ hp hi => ⟨n, (node?_congr hn).trans hp, hi, rfl⟩

/-- Handles of nodes that are secured without them may as well be dropped. -/
theorem trans (hmore : ∀ r ∈ more, Secured handles w r) (h : Secured more w id) : Secured handles w id := by
  induction h with
  | held h => exact hmore _ h
  | referenced _ hn hi hid ih => exact ih.referenced hn hi hid

theorem isHeld (hheld : handles ⊆ w.held) (h : Secured handles w id) : w.isHeld id = true := by
  simp only [World.isHeld, Bool.or_eq_true, List.contains_iff_mem]
  cases h with
  | held h => exact .inl (hheld h)
  | referenced _ hn _ hid => exact .inr (references_subset_of_mem (mem_nodes_of_node? hn) hid)

theorem isLive (hs : Sound types w) (hheld : handles ⊆ w.held) (h : Secured handles w id) :
    w.isLive id = true := by
  cases h with
  | held h => exact hs.held id (hheld h)
  | referenced _ hn _ hid => exact hs.references id (references_subset_of_mem (mem_nodes_of_node? hn) hid)

end Secured

/-! ### One part after the other -/

namespace Latches

theorem refl (w : World) : Latches [] w w where
  hooks := (List.append_nil _).symm
  held := rfl
  nodes _ m hm := ⟨m, hm, nofun, fun _ => ⟨rfl, rfl⟩⟩
  secured _ _ _ h := h

theorem trans (h : Latches T w w') (h' : Latches T' w' w'') : Latches (T ++ T') w w'' where
  hooks := by rw [h'.hooks, h.hooks, List.append_assoc]
  held := h'.held.trans h.held
  nodes id l hl := by
    obtain ⟨m, hm, hlatched', hkept'⟩ := h'.nodes id l hl
    obtain ⟨n, hn, hlatched, hkept⟩ := h.nodes id m hm
    refine ⟨n, hn, fun hid => ?_, fun hid => ?_⟩
    · -- the first hook of a node runs once: the node is marked in between, or it is not
      by_cases hfirst : .adopt id ∈ T
      · have hlater : .adopt id ∉ T' := fun hsecond =>
          Bool.false_ne_true ((hlatched' hsecond).1.symm.trans (hlatched hfirst).2)
        exact ⟨(hlatched hfirst).1, (hkept' hlater).1.trans (hlatched hfirst).2⟩
      · have hsecond := (List.mem_append.1 hid).resolve_left hfirst
        exact ⟨(hkept hfirst).1.symm.trans (hlatched' hsecond).1, (hlatched' hsecond).2⟩
    · obtain ⟨hfirst, hsecond⟩ := not_or.1 (mt List.mem_append.2 hid)
      exact ⟨(hkept' hsecond).1.trans (hkept hfirst).1, (hkept' hsecond).2.trans (hkept hfirst).2⟩
  secured handles hheld id hid := h'.secured handles (h.held ▸ hheld) id (h.secured handles hheld id hid)

/-- Nothing happens to the nodes. -/
theorem of_nodes (hn : w'.nodes = w.nodes) (hh : w'.held = w.held) (hj : w'.hooks = w.hooks ++ T)
    (hT : ∀ id, .adopt id ∉ T) : Latches T w w' where
  hooks := hj
  held := hh
  nodes id m hm := ⟨m, (node?_congr hn).symm.trans hm, fun hid => absurd hid (hT id), fun _ => ⟨rfl, rfl⟩⟩
  secured _ _ _ h := h.congr hn

theorem enter (w : World) {e : Entry} (he : e.hook? = none) : Latches [] w (w.enter e) :=
  .of_nodes rfl rfl (by rw [hooks_enter, he]; rfl) nofun

/-- A node changes something that is neither its mark nor a reference. -/
theorem modify (w : World) (id : NodeId) {f : Node → Node} (hid : ∀ n, (f n).id = n.id)
    (hf : ∀ n, (f n).initialized = n.initialized ∧ (f n).references = n.references) :
    Latches [] w (w.modify id f) where
  hooks := (List.append_nil _).symm
  held := rfl
  nodes other m hm := by
    rw [node?_modify w id other hid] at hm
    obtain ⟨n, hn, rfl⟩ := Option.map_eq_some_iff.1 hm
    refine ⟨n, hn, nofun, fun _ => ?_⟩
    split
    · exact hf n
    · exact ⟨rfl, rfl⟩
  secured handles _ other h := by
    refine h.map fun p n _ hn hi => ?_
    have hn' : (w.modify id f).node? p = some (if n.id = id then f n else n) := by
      rw [node?_modify w id p hid, hn]
      rfl
    refine ⟨_, hn', ?_⟩
    split
    · exact ⟨(hf n).1.trans hi, (hf n).2⟩
    · exact ⟨hi, rfl⟩

theorem foldl {α : Type} {act : World → α → World} (hact : ∀ w a, Latches [] w (act w a)) (w : World)
    (l : List α) : Latches [] w (l.foldl act w) := by
  induction l generalizing w with
  | nil => exact refl w
  | cons a rest ih => exact (hact w a).trans (ih (act w a))

/-! What was there before, told from what is there afterwards. -/

theorem referencesOf (h : Latches T w w') (hnot : .adopt id ∉ T) (hlive : w'.isLive id = true) :
    w'.referencesOf id = w.referencesOf id := by
  obtain ⟨m, hm⟩ := isLive_iff.1 hlive
  obtain ⟨n, hn, -, hkept⟩ := h.nodes id m hm
  rw [World.referencesOf, hm, World.referencesOf, hn]
  exact (hkept hnot).2

theorem fresh (h : Latches T w w') (hid : Call.Fresh w' id) :
    Call.Fresh w id ∧ .adopt id ∉ T ∧ w'.referencesOf id = w.referencesOf id := by
  obtain ⟨m, hm, hi⟩ := hid
  obtain ⟨n, hn, hlatched, hkept⟩ := h.nodes id m hm
  have hnot : .adopt id ∉ T := fun hmem => Bool.false_ne_true (hi.symm.trans (hlatched hmem).2)
  exact ⟨⟨n, hn, (hkept hnot).1.symm.trans hi⟩, hnot, h.referencesOf hnot (isLive_of_node? hm)⟩

theorem isSetUp_or (h : Latches T w w') (hid : IsSetUp w' id) : IsSetUp w id ∨ .adopt id ∈ T := by
  obtain ⟨m, hm, hi⟩ := hid
  obtain ⟨n, hn, -, hkept⟩ := h.nodes id m hm
  by_cases hmem : .adopt id ∈ T
  · exact .inr hmem
  · exact .inl ⟨n, hn, (hkept hmem).1.symm.trans hi⟩

end Latches

/-! ### Letting go -/

theorem latches_detach (w : World) (p c : NodeId) : Latches [] w (w.detach p c) := by
  obtain heq | ⟨a, b, heq⟩ := detach_cases w p c <;> rw [heq]
  · exact .refl w
  · exact .enter w rfl

theorem latches_addParent (w : World) (c p : NodeId) : Latches [] w (w.addParent c p) :=
  .modify w c (f := fun n => { n with parents := Node.addParent p n.parents }) (fun _ => rfl) fun _ => ⟨rfl, rfl⟩

theorem latches_removeParent (w : World) (c p : NodeId) : Latches [] w (w.removeParent c p) :=
  .modify w c (f := fun n => { n with parents := Node.removeParent p n.parents }) (fun _ => rfl) fun _ => ⟨rfl, rfl⟩

theorem latches_takeLeave (w : World) (n : Node) : Latches [] w (w.takeLeave n) := by
  obtain heq | heq | heq := takeLeave_cases w n <;> rw [heq]
  · exact .refl w
  · exact .enter w rfl
  · exact .foldl (fun v c => (latches_removeParent v c n.id).trans (latches_detach _ n.id c)) w _

theorem latches_reportParents (w : World) (id : NodeId) : Latches [] w (w.reportParents id) := by
  obtain heq | ⟨text, heq⟩ := reportParents_cases w id <;> rw [heq]
  · exact .refl w
  · exact .enter w rfl

/-- A node that nobody holds is not secured, so nobody who is misses it. -/
theorem latches_destroy (hfree : w.isHeld n.id = false) : Latches [] w (w.destroy n) := by
  have hleave := (latches_takeLeave w n).trans (latches_reportParents _ n.id)
  refine ⟨?_, hleave.held, fun id m hm => ?_, fun handles hheld id hid => hid.map fun p k hp hk hi => ?_⟩
  · exact (hooks_enter _ _).trans ((List.append_nil _).trans hleave.hooks)
  · rw [node?_destroy] at hm
    split at hm
    · cases hm
    · obtain ⟨k, hk, rfl⟩ := Option.map_eq_some_iff.1 hm
      exact ⟨k, hk, nofun, fun _ => ⟨rfl, rfl⟩⟩
  · have hstays : p ≠ n.id := by
      rintro rfl
      rw [hp.isHeld hheld] at hfree
      cases hfree
    rw [node?_destroy, if_neg hstays, hk]
    exact ⟨_, rfl, hi, rfl⟩

theorem latches_release (ids : List NodeId) (w : World) : Latches [] w (release ids w) :=
  release_induction (I := Latches [] w) (fun _ _ _ hfree h => h.trans (latches_destroy hfree)) ids (.refl w)

/-- Some nodes are held while hooks run. -/
theorem Latches.holding {ids : List NodeId} (h : Latches T (w.holdAll ids) w') : Latches T w (w'.dropAll ids) := by
  have hnodes : (w.holdAll ids).nodes = w.nodes := rfl
  have hnodes' : ({ w' with held := ids.foldl List.erase w'.held } : World).nodes = w'.nodes := rfl
  have hunheld : Latches T w { w' with held := ids.foldl List.erase w'.held } := by
    refine ⟨h.hooks, ?_, h.nodes, fun handles hheld id hid => ?_⟩
    · change ids.foldl List.erase w'.held = w.held
      rw [h.held]
      exact foldl_erase_append ids w.held
    · have hmore : handles ⊆ (w.holdAll ids).held := fun r hr => List.mem_append_right ids (hheld hr)
      exact (h.secured handles hmore id (hid.congr hnodes)).congr hnodes'
  exact List.append_nil T ▸ hunheld.trans (latches_release ids _)

/-! ### The first hook -/

/-- The node that runs its first hook may change its references as well. -/
theorem Latches.latch (hi : ∀ n, w.node? id = some n → n.initialized = false)
    (hi' : ∀ m, w'.node? id = some m → m.initialized = true) (hlive : (w'.node? id).isSome → (w.node? id).isSome)
    (hothers : ∀ other, other ≠ id → w'.node? other = w.node? other) (hh : w'.held = w.held)
    (hj : w'.hooks = w.hooks ++ [.adopt id]) : Latches [.adopt id] w w' where
  hooks := hj
  held := hh
  nodes other m hm := by
    by_cases hother : other = id
    · subst hother
      obtain ⟨n, hn⟩ := Option.isSome_iff_exists.1 (hlive (by rw [hm]; rfl))
      exact ⟨n, hn, fun _ => ⟨hi n hn, hi' m hm⟩, fun hnot => absurd List.mem_cons_self hnot⟩
    · refine ⟨m, (hothers other hother).symm.trans hm, fun hmem => ?_, fun _ => ⟨rfl, rfl⟩⟩
      exact absurd (Hook.adopt.inj (List.mem_singleton.1 hmem)) hother
  secured handles _ other hid := by
    refine hid.map fun p n _ hn hset => ⟨n, (hothers p ?_).trans hn, hset, rfl⟩
    rintro rfl
    exact Bool.false_ne_true ((hi n hn).symm.trans hset)

theorem node?_storeChildren_of_ne (w : World) {id other : NodeId} (old new : List NodeId) (time : Timestamp)
    (after : Aftermath) (h : other ≠ id) :
    (w.storeChildren id old new time after).2.node? other = w.node? other := by
  obtain heq | ⟨n, f, -, -, -, heq⟩ := storeChildren_cases w id old new time after <;> rw [heq]
  exact node?_modify_of_ne w (fun n => n.store_id _ _) h

theorem initialized_storeChildren (w : World) (id : NodeId) (old new : List NodeId) (time : Timestamp)
    (after : Aftermath) :
    ((w.storeChildren id old new time after).2.node? id).map (·.initialized) = (w.node? id).map (·.initialized) := by
  obtain heq | ⟨n, f, -, -, -, heq⟩ := storeChildren_cases w id old new time after <;> rw [heq]
  change ((w.modify id _).node? id).map _ = _
  rw [node?_modify_self w id fun n => n.store_id _ _, Option.map_map]
  congr 1
  funext n
  exact n.store_initialized _ _

theorem hooks_storeChildren (w : World) (id : NodeId) (old new : List NodeId) (time : Timestamp)
    (after : Aftermath) : (w.storeChildren id old new time after).2.hooks = w.hooks := by
  obtain heq | ⟨n, f, -, -, -, heq⟩ := storeChildren_cases w id old new time after <;> rw [heq]
  exact (hooks_enter _ _).trans (List.append_nil _)

theorem latches_accept (w : World) (id : NodeId) (proposed : List NodeId) :
    Latches [] w (w.accept id proposed).2.2 := by
  refine .foldl (fun v c => ?_) w _
  obtain heq | ⟨text, heq⟩ := logRejected_cases v id c <;> rw [heq]
  · exact .refl v
  · exact .enter v rfl

/-- The world in which a node that has been marked runs its first hook. -/
def latched (w : World) (id : NodeId) : World := (w.mark id).step (.adopting id)

theorem hooks_latched (w : World) (id : NodeId) : (w.latched id).hooks = w.hooks ++ [.adopt id] :=
  hooks_enter _ _

theorem node?_latched (w : World) (id : NodeId) :
    (w.latched id).node? id = (w.node? id).map fun n => { n with initialized := true } := node?_mark w id

theorem node?_latched_of_ne (w : World) {id other : NodeId} (h : other ≠ id) :
    (w.latched id).node? other = w.node? other :=
  node?_modify_of_ne w (f := fun n => { n with initialized := true }) (fun _ => rfl) h

theorem runAdopt_eq (hn : w.node? id = some n) :
    (w.mark id).runAdopt id = release ((w.latched id).adopt { n with initialized := true }).1.released
      ((w.latched id).adopt { n with initialized := true }).2 := by
  unfold runAdopt
  rw [node?_mark, hn, Option.map_some]
  dsimp only
  rw [settle, emitted_adopt]
  rfl

/-- **The first hook**: the node is marked, and its behaviour claims what is its own. -/
theorem latches_adopt (hn : w.node? id = some n) (hi : n.initialized = false) :
    Latches [.adopt id] w ((w.latched id).adopt { n with initialized := true }).2 := by
  obtain rfl := id_of_node? hn
  have hunmarked : ∀ k, w.node? n.id = some k → k.initialized = false := fun k hk =>
    Option.some.inj (hn.symm.trans hk) ▸ hi
  -- whatever becomes of the references of the node, and of nothing else
  have hlatch : ∀ v : World, (∀ other, other ≠ n.id → v.node? other = (w.latched n.id).node? other) →
      (v.node? n.id).map (·.initialized) = ((w.latched n.id).node? n.id).map (·.initialized) →
      v.held = w.held → v.hooks = (w.latched n.id).hooks → Latches [.adopt n.id] w v := by
    intro v hothers hself hheld hhooks
    rw [node?_latched, hn] at hself
    refine .latch hunmarked (fun m hm => ?_) (fun _ => by rw [hn]; rfl)
      (fun other h => (hothers other h).trans (node?_latched_of_ne w h)) hheld (hhooks.trans (hooks_latched w n.id))
    rw [hm] at hself
    exact Option.some.inj hself
  have hmarked : Latches [.adopt n.id] w (w.latched n.id) := hlatch _ (fun _ _ => rfl) rfl rfl rfl
  obtain ⟨-, heq⟩ | ⟨-, heq | heq⟩ := adopt_cases (w.latched n.id) { n with initialized := true } <;> rw [heq]
  · obtain ⟨-, hquiet⟩ := accept_spec (w.latched n.id) n.id ((w.latched n.id).children n.id)
    have haccept := latches_accept (w.latched n.id) n.id ((w.latched n.id).children n.id)
    have hsame : ∀ other, ((w.latched n.id).accept n.id ((w.latched n.id).children n.id)).2.2.node? other =
        (w.latched n.id).node? other := fun other => (hquiet.node? other).trans Option.map_id'
    have hclaim : ∀ (v : World) (l : List NodeId), Latches [] v (l.foldl (addParent · · n.id) v) := fun v l =>
      .foldl (fun v c => latches_addParent v c n.id) v l
    unfold adoptChildren
    dsimp only
    split
    · refine (hlatch _ (fun other h => ?_) ?_ ?_ ?_).trans (hclaim _ _)
      · rw [node?_storeChildren_of_ne _ _ _ _ _ h, hsame]
      · rw [initialized_storeChildren, hsame]
      · rw [(kept_storeChildren ..).1, hquiet.held]
        rfl
      · rw [hooks_storeChildren, haccept.hooks, List.append_nil]
    · exact (hmarked.trans haccept).trans (hclaim _ _)
  · exact hmarked
  · exact hmarked.trans (.enter _ rfl)

theorem latches_runAdopt (hn : w.node? id = some n) (hi : n.initialized = false) :
    Latches [.adopt id] w ((w.mark id).runAdopt id) := by
  rw [runAdopt_eq hn]
  exact (latches_adopt hn hi).trans (latches_release _ _)

/-! ### The second hook -/

theorem latches_setUp (w : World) (n : Node) (time : Timestamp) : Latches [] w (w.setUp n time) :=
  setUp_induction n time (fun v _ hv => hv.trans (.enter v rfl))
    (fun v _ hv => hv.trans (.modify v n.id (fun _ => rfl) fun _ => ⟨rfl, rfl⟩)) (.refl w)

/-- **The second hook** changes neither marks nor references. -/
theorem latches_runSetUp (hid : w.isLive id = true) (time : Timestamp) :
    Latches [.setUp id] w (w.runSetUp id time) := by
  obtain ⟨n, hn⟩ := isLive_iff.1 hid
  have hcount : Latches [] w (w.modify id fun n => { n with initializations := n.initializations + 1 }) :=
    .modify w id (fun _ => rfl) fun _ => ⟨rfl, rfl⟩
  have hn' := node?_modify_self w id (f := fun n => { n with initializations := n.initializations + 1 }) fun _ => rfl
  unfold runSetUp
  generalize (w.modify id fun n => { n with initializations := n.initializations + 1 }) = v at hcount hn' ⊢
  have hbegun : Latches [.setUp id] v (v.step (.settingUp id)) := .of_nodes rfl rfl (hooks_enter _ _) (by simp)
  rw [hn, Option.map_some] at hn'
  dsimp only
  rw [hn']
  exact (hcount.trans hbegun).trans (latches_setUp _ _ time)

/-! ### Levels -/

/-- The bound on the levels plays no part: it is met only where all nodes are marked. -/
theorem initializeUpTo_eq (time : Timestamp) {depth : Nat} (hw : w.uninitializedCount ≤ depth) (id : NodeId) :
    initializeUpTo time depth w id = w.initializeNode id time := by
  have hbound : w.uninitializedCount < depth + 1 := Nat.lt_succ_iff.2 hw
  rw [agree_iterate time (fun w _ => w) (Nat.le_refl _) (Nat.le_refl _) w id hbound, iterate_setUpLevel_eq time _ hbound]

/-- **Setting up is a recursion** over what a node refers to. -/
theorem initializeNode_eq (w : World) (id : NodeId) (time : Timestamp) :
    w.initializeNode id time = setUpLevel time (fun w id => w.initializeNode id time) w id := by
  rw [← initializeUpTo_eq time (Nat.le_succ _), initializeUpTo_succ]
  have hnested : AgreeUnmarked (w.uninitializedCount + 1) (initializeUpTo time w.uninitializedCount)
      fun w id => w.initializeNode id time := fun v r hv => initializeUpTo_eq time (Nat.lt_succ_iff.1 hv) r
  exact hnested.level (retains_initializeUpTo time _) time w id (Nat.lt_succ_of_lt (Nat.lt_succ_self _))

theorem initializeNode_of_not_fresh (h : ¬ Call.Fresh w id) (time : Timestamp) : w.initializeNode id time = w := by
  rw [initializeNode_eq, setUpLevel]
  split
  · rfl
  · rename_i n hn
    split
    · rfl
    · rename_i hi
      exact absurd ⟨n, hn, by simpa using hi⟩ h

end World

end SceneGraph
