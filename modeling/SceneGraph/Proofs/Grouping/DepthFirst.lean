import SceneGraph.Proofs.Grouping.Acyclic
import SceneGraph.Proofs.World.Fields
import SceneGraph.Proofs.World.Latching

/-!
# Nodes are set up depth first

Setting up a node sets up all nodes that wait to be set up and are reached from it through such nodes
(`World.Pending`). References may lead in circles, and while the nodes are walked, grouping nodes drop those
children that are above them; the walk misses nobody because of that, since those are marked already.

* `Tours`: what a part of the walk does, and `Tours.append`, `Tours.node`: how such parts make up a set-up.
* `walks_initializeNode`: a set-up is such a walk, by induction on how many nodes are not marked.
* `initializeNode_depth_first`: each of the nodes runs each of its hooks once, and those of a node enclose those
  of the nodes that its own set-up reaches first.
-/

namespace SceneGraph

namespace World

variable {types : Catalog} {w w' u v : World} {id : NodeId} {n : Node} {T T' : List Hook} {time : Timestamp}

/-- A sound world whose lists of parents count what grouping nodes claim and nothing else. -/
structure Coherent (types : Catalog) (w : World) : Prop where
  sound : Sound types w
  counts : w.CountsAs w.claimed

theorem Coherent.leads (hr : types.Regular) (h : Coherent types w) (hl : Leads types w w') : Coherent types w' := by
  induction hl with
  | refl => exact h
  | tail _ hc ih => exact ⟨ih.sound.change hr hc, (ih.counts.change hr ih.sound hc).counts⟩

/-! ### What is claimed first -/

/-- The world in which a node has run its first hook. -/
def begun (w : World) (id : NodeId) : World := (w.mark id).runAdopt id

theorem Reparents.referencesOf {g : NodeId → List (NodeId × Nat) → List (NodeId × Nat)} (h : Reparents g w w') :
    w'.referencesOf = w.referencesOf := by
  funext id
  rw [World.referencesOf, h.node?, World.referencesOf, Option.map_map]
  rfl

theorem referencesOf_eq (hn : w.node? id = some n) : w.referencesOf id = n.references := by
  rw [referencesOf, hn]
  rfl

theorem referencesOf_storeChildren {f : Field} (hn : w.node? n.id = some n) (hf : n.field? childrenField = some f)
    (hk : f.kind = ⟨.node, .multi⟩) (old new : List NodeId) (time : Timestamp) (after : Aftermath) :
    (w.storeChildren n.id old new time after).2.referencesOf n.id =
      (n.store childrenField (.nodes new time)).references := by
  rw [storeChildren_eq hn hf hk]
  refine referencesOf_eq ?_
  change (w.modify n.id _).node? n.id = _
  rw [node?_modify_self w n.id fun m => m.store_id _ _, hn]
  rfl

/-- A grouping node that claims its children drops those that are its ancestors, and nothing else. -/
theorem referencesOf_adoptChildren (hr : types.Regular) (hs : Sound types w) (hn : w.node? id = some n)
    (hb : n.behavior = .grouping) :
    (w.adoptChildren id).2.referencesOf id ⊆ w.referencesOf id ∧
      ∀ r ∈ w.referencesOf id, r ∈ (w.adoptChildren id).2.referencesOf id ∨ r ∈ w.ancestors id := by
  obtain rfl := id_of_node? hn
  obtain ⟨haccepted, hquiet⟩ := accept_spec w n.id (w.children n.id)
  have hn' : (w.accept n.id (w.children n.id)).2.2.node? n.id = some n := by rw [hquiet.node?, hn]; rfl
  obtain ⟨f, hf, hk⟩ := hs.exists_children hr (mem_nodes_of_node? hn) hb
  have hlisted : w.children n.id = f.references := by
    rw [World.children, hn, Option.map_some, Option.getD_some, Node.nodesIn, hf]
    exact if_pos hk
  have hdistinct : n.Distinct := by
    have hown := hs.dynamic_eq_nil (mem_nodes_of_node? hn) hb
    exact ⟨by simp [Node.dynamicNames, hown], by simp [Node.dynamicNames, hown]⟩
  unfold adoptChildren
  dsimp only
  rw [(reparents_claim _ n.id _).referencesOf]
  split
  · rw [referencesOf_storeChildren hn' hf hk, haccepted, referencesOf_eq hn]
    refine ⟨fun r hmem => ?_, fun r hmem => ?_⟩
    · rcases Node.references_store hmem with hmem | hmem
      · exact hmem
      · rw [Field.references_nodes, hlisted] at hmem
        exact Node.references_subset_of_field? hf (List.mem_filter.1 hmem).1
    · refine (hdistinct.mem_references_store hf _ _ hmem).imp_right fun hstale => ?_
      obtain ⟨hold, hdropped⟩ := hstale
      by_contra hnot
      exact hdropped (List.mem_filter.2 ⟨hlisted ▸ hold, by simpa using hnot⟩)
  · rw [hquiet.referencesOf]
    exact ⟨List.Subset.refl _, fun r hmem => .inl hmem⟩

/-- The ancestors of a node are itself and nodes that are set up. -/
theorem Coherent.isSetUp_of_mem_ancestors (h : Coherent types w) {p : NodeId} (hp : p ∈ w.ancestors id) :
    p = id ∨ IsSetUp w p := by
  rcases (claims_of_mem_ancestors h.counts hp).cases_head with rfl | ⟨c, hclaim, -⟩
  · exact .inl rfl
  · obtain ⟨g, hg, rfl, -, hi⟩ := exists_of_mem_claimed hclaim
    exact .inr ⟨g, node?_of_mem h.sound.distinct hg, hi⟩

/-- **The first hook of a node drops only references to nodes that are marked.** -/
theorem Coherent.referencesOf_begun (hr : types.Regular) (h : Coherent types w) (hheld : id ∈ w.held)
    (hn : w.node? id = some n) (hi : n.initialized = false) :
    (w.begun id).referencesOf id ⊆ w.referencesOf id ∧
      ∀ r ∈ w.referencesOf id, r ∈ (w.begun id).referencesOf id ∨ r = id ∨ IsSetUp w r := by
  obtain rfl := id_of_node? hn
  have hlatched : (w.latched n.id).node? n.id = some { n with initialized := true } := by
    rw [node?_latched, hn]
    rfl
  have hsame : (w.latched n.id).referencesOf n.id = w.referencesOf n.id :=
    (referencesOf_eq hlatched).trans (referencesOf_eq hn).symm
  have hancestors : (w.latched n.id).ancestors = w.ancestors :=
    ancestors_modify w n.id (f := fun n => { n with initialized := true }) fun _ => ⟨rfl, rfl⟩
  have hclaimed : ((w.latched n.id).adopt { n with initialized := true }).2.referencesOf n.id ⊆ w.referencesOf n.id ∧
      ∀ r ∈ w.referencesOf n.id, r ∈ ((w.latched n.id).adopt { n with initialized := true }).2.referencesOf n.id ∨
        r ∈ w.ancestors n.id := by
    rw [← hsame, ← hancestors]
    obtain ⟨hb, heq⟩ | ⟨-, heq | heq⟩ := adopt_cases (w.latched n.id) { n with initialized := true } <;> rw [heq]
    · exact referencesOf_adoptChildren hr ((h.sound.mark n.id).enter _) hlatched hb
    · exact ⟨List.Subset.refl _, fun r hmem => .inl hmem⟩
    · exact ⟨List.Subset.refl _, fun r hmem => .inl hmem⟩
  -- what is let go of then leaves the node alone, since it is held
  have hkept : (w.begun n.id).referencesOf n.id =
      ((w.latched n.id).adopt { n with initialized := true }).2.referencesOf n.id := by
    have hlive : (w.begun n.id).isLive n.id = true := by
      refine (h.leads hr (proceeds_runAdopt hr h.sound hn hi).1.leads).sound.held n.id ?_
      rw [(latches_runAdopt hn hi).held]
      exact hheld
    rw [begun, runAdopt_eq hn] at hlive ⊢
    exact (latches_release _ _).referencesOf nofun hlive
  rw [hkept]
  exact ⟨hclaimed.1, fun r hmem => (hclaimed.2 r hmem).imp_right h.isSetUp_of_mem_ancestors⟩

/-! ### Waiting nodes -/

/-- A node that is reached from another one along references through nodes none of which is set up. -/
inductive Pending (w : World) (id : NodeId) : NodeId → Prop
  | self (h : Call.Fresh w id) : Pending w id id
  | step {p r : NodeId} (hp : Pending w id p) (hr : r ∈ w.referencesOf p) (h : Call.Fresh w r) : Pending w id r

namespace Pending

variable {p r : NodeId}

theorem fresh (h : w.Pending id r) : Call.Fresh w r := by
  cases h <;> assumption

theorem head (hid : Call.Fresh w id) (hp : p ∈ w.referencesOf id) (h : w.Pending p r) : w.Pending id r := by
  induction h with
  | self h => exact .step (.self hid) hp h
  | step _ hr hf ih => exact .step ih hr hf

theorem congr (hn : w'.nodes = w.nodes) (h : w'.Pending id r) : w.Pending id r := by
  have hfresh : ∀ {x}, Call.Fresh w' x → Call.Fresh w x := fun ⟨n, hn', hi⟩ => ⟨n, (node?_congr hn).symm.trans hn', hi⟩
  induction h with
  | self hf => exact .self (hfresh hf)
  | step _ hr hf ih =>
    refine .step ih ?_ (hfresh hf)
    rwa [referencesOf, node?_congr hn] at hr

/-- Whoever waits later was reached in the same way before. -/
theorem before (h : Latches T w w') (hr : w'.Pending id r) : w.Pending id r := by
  induction hr with
  | self hf => exact .self (h.fresh hf).1
  | step hp hr hf ih =>
    refine .step ih ?_ (h.fresh hf).1
    rwa [← (h.fresh hp.fresh).2.2]

end Pending

theorem not_fresh_of_isSetUp (h : IsSetUp w id) : ¬ Call.Fresh w id := by
  obtain ⟨n, hn, hi⟩ := h
  rintro ⟨m, hm, hmi⟩
  obtain rfl : n = m := Option.some.inj (hn.symm.trans hm)
  exact Bool.false_ne_true (hmi.symm.trans hi)

/-! ### Parts of a walk -/

/-- A part of a walk that starts at some nodes and runs the hooks of `T`: each of a node's hooks once, if at
all. It runs those of nodes that wait, together with all waiting nodes that these refer to, and these nodes
stay. -/
structure Tours (starts : List NodeId) (T : List Hook) (w w' : World) : Prop extends Latches T w w' where
  once : ∀ id, T.count (.setUp id) = T.count (.adopt id) ∧ T.count (.adopt id) ≤ 1
  started : ∀ id ∈ starts, Call.Fresh w id → .adopt id ∈ T
  reached : ∀ id, .adopt id ∈ T → ∃ s ∈ starts, w.Pending s id
  closed : ∀ id, .adopt id ∈ T → ∀ r ∈ w.referencesOf id, Call.Fresh w r → .adopt r ∈ T
  kept : ∀ id, .adopt id ∈ T → Secured w.held w' id

/-- A node that waits and stays goes on waiting, unless its first hook runs. -/
theorem Latches.fresh_or (h : Latches T w w') (hlive : w'.isLive id = true) (hf : Call.Fresh w id) :
    Call.Fresh w' id ∨ .adopt id ∈ T := by
  obtain ⟨n, hn, hi⟩ := hf
  obtain ⟨m, hm⟩ := isLive_iff.1 hlive
  obtain ⟨n', hn', -, hkept⟩ := h.nodes id m hm
  obtain rfl : n = n' := Option.some.inj (hn.symm.trans hn')
  by_cases hid : .adopt id ∈ T
  · exact .inr hid
  · exact .inl ⟨m, hm, (hkept hid).1.trans hi⟩

namespace Tours

variable {starts more : List NodeId}

theorem refl (w : World) : Tours [] [] w w where
  toLatches := .refl w
  once _ := ⟨rfl, Nat.zero_le 1⟩
  started _ := nofun
  reached _ := nofun
  closed _ := nofun
  kept _ := nofun

theorem fresh (h : Tours starts T w w') (hid : .adopt id ∈ T) : Call.Fresh w id := by
  obtain ⟨s, -, hs⟩ := h.reached id hid
  exact hs.fresh

theorem isSetUp (h : Tours starts T w w') (hs : Sound types w') (hid : .adopt id ∈ T) : IsSetUp w' id := by
  obtain ⟨m, hm⟩ := isLive_iff.1 ((h.kept id hid).isLive hs (h.held ▸ List.Subset.refl _))
  obtain ⟨_, _, hlatched, _⟩ := h.nodes id m hm
  exact ⟨m, hm, (hlatched hid).2⟩

/-- Waiting nodes that nodes of a later part refer to run their hooks in one of the parts. -/
theorem closed_after (h' : Tours more T' u v) (h : Latches T w u) (hs : Sound types u) {r : NodeId}
    (hid : .adopt id ∈ T') (hr : r ∈ w.referencesOf id) (hf : Call.Fresh w r) : .adopt r ∈ T ++ T' := by
  rw [← (h.fresh (h'.fresh hid)).2.2] at hr
  rcases h.fresh_or (hs.referencesOf id r hr) hf with hf | hfirst
  · exact List.mem_append_right T (h'.closed id hid r hr hf)
  · exact List.mem_append_left T' hfirst

/-- **One part after the other**: no node runs hooks in both. -/
theorem append (h : Tours starts T w u) (hs : Sound types u) (hlive : ∀ id ∈ more, u.isLive id = true)
    (h' : Tours more T' u v) : Tours (starts ++ more) (T ++ T') w v where
  toLatches := h.toLatches.trans h'.toLatches
  once id := by
    have hapart : T.count (.adopt id) = 0 ∨ T'.count (.adopt id) = 0 := by
      by_cases hid : .adopt id ∈ T'
      · exact .inl (List.count_eq_zero.2 (h.toLatches.fresh (h'.fresh hid)).2.1)
      · exact .inr (List.count_eq_zero.2 hid)
    have hfirst := h.once id
    have hsecond := h'.once id
    rw [List.count_append, List.count_append]
    omega
  started id hid hf := by
    rcases List.mem_append.1 hid with hid | hid
    · exact List.mem_append_left T' (h.started id hid hf)
    · rcases h.fresh_or (hlive id hid) hf with hf | hfirst
      · exact List.mem_append_right T (h'.started id hid hf)
      · exact List.mem_append_left T' hfirst
  reached id hid := by
    rcases List.mem_append.1 hid with hid | hid
    · obtain ⟨s, hs, hpending⟩ := h.reached id hid
      exact ⟨s, List.mem_append_left more hs, hpending⟩
    · obtain ⟨s, hs, hpending⟩ := h'.reached id hid
      exact ⟨s, List.mem_append_right starts hs, hpending.before h.toLatches⟩
  closed id hid r hr hf := by
    rcases List.mem_append.1 hid with hid | hid
    · exact List.mem_append_left T' (h.closed id hid r hr hf)
    · exact h'.closed_after h.toLatches hs hid hr hf
  kept id hid := by
    rcases List.mem_append.1 hid with hid | hid
    · exact h'.secured w.held (h.held ▸ List.Subset.refl _) id (h.kept id hid)
    · exact h.held ▸ h'.kept id hid

/-- Nodes that stay anyhow are held meanwhile. -/
theorem holding {ids : List NodeId} (hids : ∀ r ∈ ids, Secured w.held w r) (h : Tours starts T (w.holdAll ids) v) :
    Tours starts T w (v.dropAll ids) where
  toLatches := h.toLatches.holding
  once := h.once
  started := h.started
  reached id hid := by
    obtain ⟨s, hs, hpending⟩ := h.reached id hid
    have hnodes : (w.holdAll ids).nodes = w.nodes := rfl
    exact ⟨s, hs, hpending.congr hnodes⟩
  closed := h.closed
  kept id hid := by
    have hheld : w.held ⊆ (w.holdAll ids).held := List.subset_append_right ids w.held
    have hnodes : (w.holdAll ids).nodes = w.nodes := rfl
    have hkept : Secured w.held v id := by
      refine .trans (fun r hr => ?_) (h.kept id hid)
      rcases List.mem_append.1 hr with hr | hr
      · exact h.secured w.held hheld r ((hids r hr).congr hnodes)
      · exact .held hr
    have hunheld : ids.foldl List.erase v.held = w.held := by
      rw [h.held]
      exact foldl_erase_append ids w.held
    have hnodes' : ({ v with held := ids.foldl List.erase v.held } : World).nodes = v.nodes := rfl
    exact (latches_release ids _).secured w.held (hunheld ▸ List.Subset.refl _) id (hkept.congr hnodes')

/-- **A node and what it refers to**: its first hook, the hooks of the nodes that it refers to then, and its
second hook. -/
theorem enclose (hopen : Latches [.adopt id] w u) (hs : Sound types u) (hf : Call.Fresh w id) (hheld : id ∈ w.held)
    (hsub : u.referencesOf id ⊆ w.referencesOf id)
    (hdropped : ∀ r ∈ w.referencesOf id, r ∈ u.referencesOf id ∨ r = id ∨ IsSetUp w r)
    (h : Tours (u.referencesOf id) T u v) (hclose : Latches [.setUp id] v w') :
    Tours [id] (.adopt id :: T ++ [.setUp id]) w w' := by
  have hwhole : Latches (.adopt id :: T ++ [.setUp id]) w w' := (hopen.trans h.toLatches).trans hclose
  have hmem : ∀ y, .adopt y ∈ .adopt id :: T ++ [.setUp id] ↔ y = id ∨ .adopt y ∈ T := by simp
  have hnot : .adopt id ∉ T := fun hid => (hopen.fresh (h.fresh hid)).2.1 List.mem_cons_self
  refine { toLatches := hwhole, once := fun y => ?once, started := fun y hy _ => ?started,
           reached := fun y hy => ?reached, closed := fun y hy r hr hfr => ?closed, kept := fun y hy => ?kept }
  case once =>
    have hbelow := h.once y
    have hnone := List.count_eq_zero.2 hnot
    by_cases hy : y = id
    · subst hy
      simp [hbelow, hnone]
    · simpa [hy, Ne.symm hy] using hbelow
  case started => exact (hmem y).2 (.inl (List.mem_singleton.1 hy))
  case reached =>
    refine ⟨id, List.mem_singleton_self id, ?_⟩
    rcases (hmem y).1 hy with rfl | hy
    · exact .self hf
    · obtain ⟨s, hs, hpending⟩ := h.reached y hy
      exact .head hf (hsub hs) (hpending.before hopen)
  case closed =>
    rw [hmem]
    rcases (hmem y).1 hy with rfl | hy
    -- what the node referred to at first is still referred to, or is the node itself, or is set up
    · rcases hdropped r hr with hr | rfl | hset
      · rcases hopen.fresh_or (hs.referencesOf y r hr) hfr with hfr | hself
        · exact .inr (h.started r hr hfr)
        · exact .inl (Hook.adopt.inj (List.mem_singleton.1 hself))
      · exact .inl rfl
      · exact absurd hfr (not_fresh_of_isSetUp hset)
    · rcases List.mem_append.1 (h.closed_after hopen hs hy hr hfr) with hself | hlater
      · exact .inl (Hook.adopt.inj (List.mem_singleton.1 hself))
      · exact .inr hlater
  case kept =>
    rcases (hmem y).1 hy with rfl | hy
    · exact hwhole.secured w.held (List.Subset.refl _) y (.held hheld)
    · have hkept := hopen.held ▸ h.kept y hy
      exact hclose.secured w.held (h.held.trans hopen.held ▸ List.Subset.refl _) y hkept

end Tours

/-! ### Whole walks -/

/-- Sets up nodes one after the other. -/
def initializeAll (w : World) (ids : List NodeId) (time : Timestamp) : World :=
  ids.foldl (fun w id => w.initializeNode id time) w

theorem coherent_initializeNode (hr : types.Regular) (h : Coherent types w) (id : NodeId) (time : Timestamp) :
    Coherent types (w.initializeNode id time) :=
  h.leads hr (proceeds_initializeNode hr h.sound id time).leads

/-- The world in which the nodes that a node refers to after its first hook are about to be set up. -/
def entered (w : World) (id : NodeId) : World := (w.begun id).holdAll ((w.begun id).referencesOf id)

/-- The set-up of a node comprises another one, of a node in a later world: it is the same one, or it is
comprised in that of a node that the first one refers to after its first hook. -/
inductive Comprises (time : Timestamp) : World → NodeId → World → NodeId → Prop
  | self (w : World) (id : NodeId) : Comprises time w id w id
  | reference {w v : World} {id r x : NodeId} {before after : List NodeId} (hid : Call.Fresh w id)
      (hrefs : (w.begun id).referencesOf id = before ++ r :: after)
      (h : Comprises time ((w.entered id).initializeAll before time) r v x) :
      Comprises time w id v x

/-- The set-up of a node runs the hooks of `T`. It comprises the set-up of every node whose first hook is one of
them, and if the node waits, its own hooks come first and last. -/
structure Walks (time : Timestamp) (T : List Hook) (w : World) (id : NodeId) : Prop
    extends Tours [id] T w (w.initializeNode id time) where
  comprises : ∀ x, .adopt x ∈ T → ∃ v, Comprises time w id v x ∧ Call.Fresh v x
  encloses : Call.Fresh w id → ∃ between, T = .adopt id :: between ++ [.setUp id]

theorem tours_initializeAll (hr : types.Regular) (time : Timestamp) {bound : Nat}
    (hact : ∀ (w : World) id, Coherent types w → id ∈ w.held → w.uninitializedCount < bound → ∃ T, Walks time T w id)
    (h : Coherent types w) (ids : List NodeId) (hheld : ids ⊆ w.held) (hw : w.uninitializedCount < bound) :
    ∃ T, Tours ids T w (w.initializeAll ids time) ∧ ∀ x, .adopt x ∈ T → ∃ before r after,
      ids = before ++ r :: after ∧ ∃ v, Comprises time (w.initializeAll before time) r v x ∧ Call.Fresh v x := by
  induction ids generalizing w with
  | nil => exact ⟨[], .refl w, nofun⟩
  | cons id rest ih =>
    obtain ⟨hid, hrest⟩ := List.cons_subset.1 hheld
    obtain ⟨T, hfirst⟩ := hact w id h hid hw
    have hmid := coherent_initializeNode hr h id time
    have hless : (w.initializeNode id time).uninitializedCount < bound :=
      Nat.lt_of_le_of_lt (retains_initializeUpTo time w.uninitializedCount w id).pending hw
    have hheld' : rest ⊆ (w.initializeNode id time).held := hfirst.held ▸ hrest
    obtain ⟨T', hlater, hcalls⟩ := ih hmid hheld' hless
    have hlive : ∀ r ∈ rest, (w.initializeNode id time).isLive r = true := fun r hr => hmid.sound.held r (hheld' hr)
    refine ⟨T ++ T', hfirst.toTours.append hmid.sound hlive hlater, fun x hx => ?_⟩
    rcases List.mem_append.1 hx with hx | hx
    · exact ⟨[], id, rest, rfl, hfirst.comprises x hx⟩
    · obtain ⟨before, r, after, rfl, hcall⟩ := hcalls x hx
      exact ⟨id :: before, r, after, rfl, hcall⟩

/-- While the set-up of a node goes on, the nodes that it refers to are secured. -/
theorem secured_begun (hs : Sound types (w.begun id)) (hheld : id ∈ w.held) (hn : w.node? id = some n)
    (hi : n.initialized = false) : ∀ r ∈ (w.begun id).referencesOf id, Secured (w.begun id).held (w.begun id) r := by
  have hopen : Latches [.adopt id] w (w.begun id) := latches_runAdopt hn hi
  have hid : id ∈ (w.begun id).held := hopen.held ▸ hheld
  obtain ⟨m, hm⟩ := isLive_iff.1 (hs.held id hid)
  obtain ⟨_, _, hlatched, _⟩ := hopen.nodes id m hm
  intro r hr
  rw [referencesOf_eq hm] at hr
  exact .referenced (.held hid) hm (hlatched List.mem_cons_self).2 hr

theorem coherent_entered (hr : types.Regular) (h : Coherent types w) (hn : w.node? id = some n)
    (hi : n.initialized = false) : Coherent types (w.begun id) ∧ Coherent types (w.entered id) := by
  obtain rfl := id_of_node? hn
  have hbegun : Coherent types (w.begun n.id) := h.leads hr (proceeds_runAdopt hr h.sound hn hi).1.leads
  exact ⟨hbegun, hbegun.leads hr (.single (.held _ _ (hbegun.sound.referencesOf n.id)))⟩

theorem initializeNode_of_fresh (hn : w.node? id = some n) (hi : n.initialized = false) (time : Timestamp) :
    w.initializeNode id time = (((w.entered id).initializeAll ((w.begun id).referencesOf id) time).dropAll
      ((w.begun id).referencesOf id)).runSetUp id time := by
  rw [initializeNode_eq, setUpLevel, hn]
  dsimp only
  rw [if_neg (by simp [hi])]
  rfl

/-- **A set-up is a walk**, by induction on how many nodes are not marked. -/
theorem walks_initializeNode (hr : types.Regular) (time : Timestamp) (h : Coherent types w) (hheld : id ∈ w.held) :
    ∃ T, Walks time T w id := by
  induction hcount : w.uninitializedCount using Nat.strong_induction_on generalizing w id with
  | _ count ih =>
    subst hcount
    by_cases hf : Call.Fresh w id
    · have ⟨n, hn, hi⟩ := hf
      have hopen : Latches [.adopt id] w (w.begun id) := latches_runAdopt hn hi
      obtain ⟨hbegun, hentered⟩ := coherent_entered hr h hn hi
      obtain ⟨hsub, hdropped⟩ := h.referencesOf_begun hr hheld hn hi
      have hless : (w.entered id).uninitializedCount < w.uninitializedCount :=
        Nat.lt_of_le_of_lt (retains_runAdopt _ id).pending (uninitializedCount_mark_lt hn hi)
      obtain ⟨T, hwalk, hcalls⟩ := tours_initializeAll hr time (fun v x hv hx hlt => ih _ hlt hv hx rfl)
        hentered ((w.begun id).referencesOf id) (List.subset_append_left _ _) hless
      have hinner := hwalk.holding (secured_begun hbegun.sound hheld hn hi)
      have hended := hbegun.leads hr (proceeds_forReferences hr
        (fun w id hs => proceeds_initializeNode hr hs id time) hbegun.sound id).leads
      have hlive := hended.sound.held id (hinner.held.trans hopen.held ▸ hheld)
      have htour := hinner.enclose hopen hbegun.sound hf hheld hsub hdropped (latches_runSetUp hlive time)
      refine ⟨_, { initializeNode_of_fresh hn hi time ▸ htour with
        comprises := fun x hx => ?_, encloses := fun _ => ⟨T, rfl⟩ }⟩
      have hx : x = id ∨ .adopt x ∈ T := by simpa using hx
      rcases hx with rfl | hx
      · exact ⟨w, .self w x, hf⟩
      · obtain ⟨before, r, after, hsplit, v, hcall, hfresh⟩ := hcalls x hx
        exact ⟨v, .reference hf hsplit hcall, hfresh⟩
    · have hnone : Tours [id] [] w (w.initializeNode id time) := by
        rw [initializeNode_of_not_fresh hf]
        exact { Tours.refl w with
          started := fun x hx hfx => absurd (List.mem_singleton.1 hx ▸ hfx) hf
          reached := nofun }
      exact ⟨[], { hnone with comprises := nofun, encloses := fun hfresh => absurd hfresh hf }⟩

/-! ### Hooks around hooks -/

theorem hooks_runSetUp_prefix (w : World) (id : NodeId) (time : Timestamp) :
    w.hooks <+: (w.runSetUp id time).hooks :=
  runSetUp_induction (I := fun v => w.hooks <+: v.hooks) id time (fun _ h => h)
    (fun v h => h.trans (hooks_enter v _ ▸ List.prefix_append ..))
    (fun v _ h => h.trans (hooks_enter v _ ▸ List.prefix_append ..)) (fun _ _ h => h) List.prefix_rfl

theorem hooks_dropAll (w : World) (ids : List NodeId) : (w.dropAll ids).hooks = w.hooks :=
  (latches_release ids _).hooks.trans (List.append_nil _)

/-- Setting nodes up one after the other goes on from the hooks that have run. -/
theorem initializeAll_continues (hr : types.Regular) (h : Coherent types w) (ids : List NodeId) (hheld : ids ⊆ w.held)
    (time : Timestamp) : Coherent types (w.initializeAll ids time) ∧ (w.initializeAll ids time).held = w.held ∧
      w.hooks <+: (w.initializeAll ids time).hooks := by
  have hcoherent : Coherent types (w.initializeAll ids time) := by
    clear hheld
    induction ids generalizing w with
    | nil => exact h
    | cons id rest ih => exact ih (coherent_initializeNode hr h id time)
  obtain ⟨T, htour, -⟩ := tours_initializeAll hr time (fun v x hv hx _ => walks_initializeNode hr time hv hx) h ids hheld
    (Nat.lt_succ_self _)
  exact ⟨hcoherent, htour.held, htour.hooks ▸ List.prefix_append _ _⟩

/-- What a set-up comprises happens between its first and its last hook. -/
theorem Comprises.prefix_hooks (hr : types.Regular) {x : NodeId} (hc : Comprises time w id v x)
    (h : Coherent types w) (hheld : id ∈ w.held) : Coherent types v ∧ x ∈ v.held ∧
      w.hooks <+: v.hooks ∧ (v.initializeNode x time).hooks <+: (w.initializeNode id time).hooks := by
  induction hc with
  | self w id => exact ⟨h, hheld, List.prefix_rfl, List.prefix_rfl⟩
  | @reference w v id r x before after hf hrefs _ ih =>
    have ⟨n, hn, hi⟩ := hf
    have hopen : Latches [.adopt id] w (w.begun id) := latches_runAdopt hn hi
    obtain ⟨-, hentered⟩ := coherent_entered hr h hn hi
    have hheld' : before ++ r :: after ⊆ (w.entered id).held := hrefs ▸ List.subset_append_left _ _
    obtain ⟨hbefore, hrest⟩ := List.append_subset.1 hheld'
    obtain ⟨hrheld, hafter⟩ := List.cons_subset.1 hrest
    -- the nodes in front of the one that is followed, that one, and those behind it
    obtain ⟨hmid, hmidheld, hmidhooks⟩ := initializeAll_continues hr hentered before hbefore time
    obtain ⟨hv, hx, hfirst, hlast⟩ := ih hmid (hmidheld ▸ hrheld)
    obtain ⟨T, hwalk⟩ := walks_initializeNode hr time hmid (hmidheld ▸ hrheld)
    obtain ⟨-, -, hend⟩ := initializeAll_continues hr (coherent_initializeNode hr hmid r time) after
      (hwalk.held.trans hmidheld ▸ hafter) time
    refine ⟨hv, hx, ?_, hlast.trans (hend.trans ?_)⟩
    · have hbegun : w.hooks <+: (w.begun id).hooks := hopen.hooks ▸ List.prefix_append _ _
      exact (hbegun.trans hmidhooks).trans hfirst
    · have hwhole : ((((w.entered id).initializeAll before time).initializeNode r time).initializeAll after time) =
          (w.entered id).initializeAll ((w.begun id).referencesOf id) time := by
        rw [hrefs, initializeAll, initializeAll, initializeAll, List.foldl_append, List.foldl_cons]
      rw [hwhole, initializeNode_of_fresh hn hi, ← hooks_dropAll _ ((w.begun id).referencesOf id)]
      exact hooks_runSetUp_prefix _ id time

/-- **Nodes are set up depth first.** Setting up a node ends, and any bound on the levels that is enough is as good.
Exactly the nodes that are reached from it through waiting nodes run their hooks, each of them once, and they are
set up afterwards; so is a node whose reference was dropped meanwhile because it would close a cycle of children.
The hooks of a node enclose those of all nodes that are marked first by its own set-up. -/
theorem initializeNode_depth_first (hr : types.Regular) (hs : Sound types w) (hcounts : w.CountsAs w.claimed)
    (hheld : id ∈ w.held) (time : Timestamp) :
    (∀ depth, w.uninitializedCount ≤ depth → initializeUpTo time depth w id = w.initializeNode id time) ∧
    ∃ T, (w.initializeNode id time).hooks = w.hooks ++ T ∧
      (∀ x, w.Pending id x → IsSetUp (w.initializeNode id time) x ∧ T.count (.adopt x) = 1 ∧
        T.count (.setUp x) = 1 ∧ ∃ v, Comprises time w id v x ∧ Call.Fresh v x) ∧
      (∀ x, ¬ w.Pending id x → .adopt x ∉ T ∧ .setUp x ∉ T) ∧
      ∀ v x, Comprises time w id v x → Call.Fresh v x → ∃ before between after,
        T = before ++ .adopt x :: between ++ .setUp x :: after ∧
        ∀ y, y ≠ x → Call.Fresh v y → IsSetUp (v.initializeNode x time) y →
          .adopt y ∈ between ∧ .setUp y ∈ between := by
  have h : Coherent types w := ⟨hs, hcounts⟩
  obtain ⟨T, hwalk⟩ := walks_initializeNode hr time h hheld
  have hafter := coherent_initializeNode hr h id time
  -- the nodes that wait run their first hook, by induction on the way to them
  have hmem : ∀ x, .adopt x ∈ T ↔ w.Pending id x := by
    refine fun x => ⟨fun hx => ?_, fun hx => ?_⟩
    · obtain ⟨s, hs, hpending⟩ := hwalk.reached x hx
      exact List.mem_singleton.1 hs ▸ hpending
    · induction hx with
      | self hf => exact hwalk.started id List.mem_cons_self hf
      | step _ hr hf ih => exact hwalk.closed _ ih _ hr hf
  refine ⟨fun depth hdepth => initializeUpTo_eq time hdepth id, T, hwalk.hooks, fun x hx => ?_, fun x hx => ?_,
    fun v x hc hfx => ?_⟩
  · have hx := (hmem x).2 hx
    have honce := hwalk.once x
    have hpos := List.count_pos_iff.2 hx
    exact ⟨hwalk.isSetUp hafter.sound hx, by omega, by omega, hwalk.comprises x hx⟩
  · have hx := mt (hmem x).1 hx
    refine ⟨hx, List.count_eq_zero.1 ?_⟩
    rw [(hwalk.once x).1]
    exact List.count_eq_zero.2 hx
  · obtain ⟨hv, hxheld, ⟨before, hbefore⟩, ⟨after, hafter⟩⟩ := hc.prefix_hooks hr h hheld
    obtain ⟨T', hinner⟩ := walks_initializeNode hr time hv hxheld
    obtain ⟨between, rfl⟩ := hinner.encloses hfx
    refine ⟨before, between, after, ?_, fun y hne hy hset => ?_⟩
    · rw [hinner.hooks, ← hbefore, hwalk.hooks, List.append_assoc, List.append_assoc] at hafter
      rw [← List.append_cancel_left hafter]
      simp
    · have hadopt := (hinner.isSetUp_or hset).resolve_left fun hset => not_fresh_of_isSetUp hset hy
      have hsetUp : .setUp y ∈ .adopt x :: between ++ [.setUp x] := by
        rw [← List.count_pos_iff, (hinner.once y).1]
        exact List.count_pos_iff.2 hadopt
      simpa [hne] using And.intro hadopt hsetUp

/-! ### A circle of groups and a script -/

/-- Two groups list each other, the second one also lists a script, and the script refers to the first one and
to a shape that is set up. -/
def circle : World :=
  (Call.addField ⟨3⟩ "kids" (.nodes [⟨1⟩, ⟨4⟩])).run <|
    (Call.initField ⟨2⟩ childrenField (.nodes [⟨1⟩, ⟨3⟩])).run <|
      (Call.initField ⟨1⟩ childrenField (.nodes [⟨2⟩])).run <|
        (Call.setUp ⟨4⟩ .unset).run <|
          (Call.create Catalog.withScenes "Shape" .detached).run <|
            (Call.create Catalog.withScenes "Script" .detached).run <|
              (Call.create Catalog.withScenes "Group" .detached).run <|
                (Call.create Catalog.withScenes "Group" .detached).run {}

theorem reachable_circle : Reachable Catalog.withScenes circle := by
  refine .call (.call (.call (.call (.call (.call (.call (.call .empty fun _ ht => ht) fun _ ht => ht) fun _ ht => ht)
    fun _ ht => ht) trivial) ⟨?_, fresh_of_any ?_⟩) ⟨?_, fresh_of_any ?_⟩) ?_
  · decide +kernel
  · decide +kernel
  · decide +kernel
  · decide +kernel
  · rw [Call.Allowed, Field.references_nodes]
    decide +kernel

/-- The second group drops the first one, and all three nodes that wait are set up. -/
theorem initializeNode_depth_first_circle :
    Catalog.withScenes.Regular ∧ Sound Catalog.withScenes circle ∧ circle.CountsAs circle.claimed ∧
      ⟨1⟩ ∈ circle.held ∧
      (circle.initializeNode ⟨1⟩ .unset).hooks = circle.hooks ++
        [.adopt ⟨1⟩, .adopt ⟨2⟩, .adopt ⟨3⟩, .setUp ⟨3⟩, .setUp ⟨2⟩, .setUp ⟨1⟩] ∧
      (circle.initializeNode ⟨1⟩ .unset).children ⟨2⟩ = [⟨3⟩] ∧
      circle.Pending ⟨1⟩ ⟨3⟩ ∧ IsSetUp (circle.initializeNode ⟨1⟩ .unset) ⟨3⟩ := by
  have hr := Catalog.regular_withScenes
  have hs := reachable_circle.sound hr
  have hcounts := (reachable_circle.mirrored hr).counts
  have hheld : ⟨1⟩ ∈ circle.held := by decide +kernel
  have hpending : circle.Pending ⟨1⟩ ⟨3⟩ :=
    .step (p := ⟨2⟩) (.step (p := ⟨1⟩) (.self (fresh_of_any (by decide +kernel))) (by decide +kernel)
      (fresh_of_any (by decide +kernel))) (by decide +kernel) (fresh_of_any (by decide +kernel))
  obtain ⟨-, T, -, hall, -⟩ := initializeNode_depth_first hr hs hcounts hheld .unset
  exact ⟨hr, hs, hcounts, hheld, by decide +kernel, by decide +kernel, hpending, (hall ⟨3⟩ hpending).1⟩

end World

end SceneGraph
