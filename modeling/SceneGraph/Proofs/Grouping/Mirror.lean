import SceneGraph.Proofs.World.Reachable

/-!
# Parents mirror children

A node counts a grouping node among its parents as often as the grouping node lists it, from the moment
when the grouping node is set up and until it goes (`World.Mirrored`).

* `Mirrored.change`: every change of a sound world keeps lists of parents and of children in step.
* `parents_mirror_children`: so they are in step in every reachable world, and nothing was ever
  destroyed while it was counted among children.
-/

namespace SceneGraph

namespace World

variable {types : Catalog} {w w' : World}

/-- Every list of parents counts a node as often as `claims` lists its owner. -/
def CountsAs (w : World) (claims : NodeId → List NodeId) : Prop :=
  ∀ c ∈ w.nodes, Node.Counted c.parents ∧
    ∀ p, Node.parentCount c.parents p = (claims p).count c.id

/-- Lists of parents count the claims of live nodes and nothing else, and no error was reported. -/
structure Mirrored (w : World) : Prop where
  counts : w.CountsAs w.claimed
  quiet : ∀ e ∈ w.journal, e.isError = false

/-- At most one node has other claims than before, and what it claims anew is none of its ancestors. -/
def Reclaims (w w' : World) : Prop :=
  ∃ p l, w'.claimed = Function.update w.claimed p l ∧
    ∀ c ∈ l, c ∈ w.claimed p ∨ c ∉ w.ancestors p

/-- Lists of parents have followed a change of claims, and no error was reported meanwhile. -/
structure Recounts (w w' : World) : Prop where
  counts : w'.CountsAs w'.claimed
  quiet : (∀ e ∈ w.journal, e.isError = false) → ∀ e ∈ w'.journal, e.isError = false
  reclaims : Reclaims w w'

/-! ### Claims -/

theorem claimed_eq {n : Node} {p : NodeId} (hn : w.node? p = some n) : w.claimed p = n.claimed := by
  rw [claimed, hn]; rfl

theorem claimed_eq_nil {p : NodeId} (hn : w.node? p = none) : w.claimed p = [] := by
  rw [claimed, hn]; rfl

theorem claimed_congr (h : w'.nodes = w.nodes) : w'.claimed = w.claimed := by
  funext p
  rw [claimed, node?_congr h, claimed]

theorem claimed_subset (n : Node) : n.claimed ⊆ n.references := by
  unfold Node.claimed
  split
  · exact Node.nodesIn_subset n childrenField
  · exact List.nil_subset _

/-- What is claimed is live. -/
theorem Sound.claimed (h : Sound types w) {p c : NodeId} (hc : c ∈ w.claimed p) : w.isLive c = true := by
  cases hn : w.node? p with
  | none => rw [claimed_eq_nil hn] at hc; cases hc
  | some n =>
    rw [claimed_eq hn] at hc
    exact h.references c (references_subset_of_mem (mem_nodes_of_node? hn) (claimed_subset n hc))

theorem claimed_modify {id : NodeId} {f : Node → Node} (hf : ∀ n, (f n).id = n.id)
    (hclaim : ∀ n, w.node? id = some n → (f n).claimed = n.claimed) :
    (w.modify id f).claimed = w.claimed := by
  funext p
  by_cases hp : p = id
  · subst hp
    rw [claimed, node?_modify_self w p hf, claimed]
    cases hn : w.node? p with
    | none => rfl
    | some n => exact hclaim n hn
  · rw [claimed, node?_modify_of_ne w hf hp, claimed]

namespace CountsAs

variable {claims : NodeId → List NodeId} {p : NodeId}

/-- A node may change anything but its parents. -/
theorem modify (h : w.CountsAs claims) {id : NodeId} {f : Node → Node}
    (hf : ∀ n, (f n).id = n.id ∧ (f n).parents = n.parents) : (w.modify id f).CountsAs claims := by
  intro c hc
  obtain ⟨n, hn, rfl⟩ := List.mem_map.1 hc
  split
  · rw [(hf n).1, (hf n).2]
    exact h n hn
  · exact h n hn

theorem quiet (h : w.CountsAs claims) (hq : Reparents (fun _ ps => ps) w w') : w'.CountsAs claims := by
  intro c hc
  rw [hq.nodes] at hc
  obtain ⟨n, hn, rfl⟩ := List.mem_map.1 hc
  exact h n hn

/-- Who claims nothing yet may claim some nodes. -/
theorem claim (h : w.CountsAs claims) {new : List NodeId} (hp : claims p = [])
    (hc : Reparents (fun id ps => (Node.addParent p)^[new.count id] ps) w w') :
    w'.CountsAs (Function.update claims p new) := by
  intro c hmem
  rw [hc.nodes] at hmem
  obtain ⟨n, hn, rfl⟩ := List.mem_map.1 hmem
  obtain ⟨hcounted, hcounts⟩ := h n hn
  refine ⟨hcounted.iterate (fun _ hps => hps.addParent p) _, fun q => ?_⟩
  rw [Node.parentCount_iterate_addParent, hcounts, Function.update_apply]
  by_cases hq : q = p
  · rw [if_pos hq, if_pos hq, hq, hp]
    exact Nat.zero_add _
  · rw [if_neg hq, if_neg hq]
    exact Nat.add_zero _

/-- Who gives up its claims counts nowhere any more. -/
theorem disclaim (h : w.CountsAs claims)
    (hc : Reparents (fun id ps => (Node.removeParent p)^[(claims p).count id] ps) w w') :
    w'.CountsAs (Function.update claims p []) := by
  intro c hmem
  rw [hc.nodes] at hmem
  obtain ⟨n, hn, rfl⟩ := List.mem_map.1 hmem
  obtain ⟨hcounted, hcounts⟩ := h n hn
  refine ⟨hcounted.iterate (fun _ hps => hps.removeParent p) _, fun q => ?_⟩
  rw [Node.parentCount_iterate_removeParent hcounted, hcounts, Function.update_apply]
  by_cases hq : q = p
  · rw [if_pos hq, if_pos hq, hq, Nat.sub_self]
    rfl
  · rw [if_neg hq, if_neg hq, Nat.sub_zero]

end CountsAs

/-- Storing a value that is not the list of children of a node that claims them changes no claim. -/
theorem claimed_store {n : Node} {name : String} {value : Field}
    (hlist : n.behavior = .grouping → n.initialized = true → name ≠ childrenField) :
    (n.store name value).claimed = n.claimed := by
  unfold Node.claimed
  rw [Node.store_behavior, Node.store_initialized]
  split
  · rename_i hclaims
    rw [Node.nodesIn, Node.nodesIn, Node.field?_store,
      if_neg (Ne.symm (hlist hclaims.1 hclaims.2))]
  · rfl

/-- After other children are stored, those are what a node that is set up claims. -/
theorem claimed_storeChildren (hr : types.Regular) (hs : Sound types w) {n : Node} {id : NodeId}
    (hn : w.node? id = some n) (hb : n.behavior = .grouping) (hi : n.initialized = true)
    (old next : List NodeId) (time : Timestamp) (after : Aftermath) :
    (w.storeChildren id old next time after).2.claimed = Function.update w.claimed id next := by
  obtain rfl := id_of_node? hn
  obtain ⟨f, hf, hk⟩ := hs.exists_children hr (mem_nodes_of_node? hn) hb
  rw [storeChildren_eq hn hf hk]
  have hnodes : (n.store childrenField (.nodes next time)).nodesIn childrenField = next :=
    Node.nodesIn_store hf next time
  funext p
  have hclaimed : ((w.modify n.id (·.store childrenField (.nodes next time))).step
      (.stored n.id childrenField (.nodes next time))).claimed p =
      (w.modify n.id (·.store childrenField (.nodes next time))).claimed p := rfl
  rw [hclaimed, Function.update_apply]
  by_cases hp : p = n.id
  · rw [if_pos hp, hp, claimed_eq (n := n.store childrenField (.nodes next time)), Node.claimed,
      Node.store_behavior, Node.store_initialized, if_pos ⟨hb, hi⟩, hnodes]
    rw [node?_modify_self w n.id fun m => Node.store_id m _ _, hn]
    rfl
  · rw [if_neg hp, claimed, node?_modify_of_ne w (fun m => Node.store_id m _ _) hp, claimed]

theorem CountsAs.storeChildren {claims : NodeId → List NodeId} (h : w.CountsAs claims) (id : NodeId)
    (old next : List NodeId) (time : Timestamp) (after : Aftermath) :
    (w.storeChildren id old next time after).2.CountsAs claims := by
  obtain heq | ⟨n, f, -, -, -, heq⟩ := storeChildren_cases w id old next time after <;> rw [heq]
  · exact h
  · exact h.modify fun n => ⟨Node.store_id n _ _, Node.store_parents n _ _⟩

theorem quiet_storeChildren (h : ∀ e ∈ w.journal, e.isError = false) (id : NodeId)
    (old next : List NodeId) (time : Timestamp) (after : Aftermath) :
    ∀ e ∈ (w.storeChildren id old next time after).2.journal, e.isError = false := by
  obtain heq | ⟨n, f, -, -, -, heq⟩ := storeChildren_cases w id old next time after <;> rw [heq]
  · exact h
  · exact List.forall_mem_cons.2 ⟨rfl, h⟩

theorem Reparents.quiet {g : NodeId → List (NodeId × Nat) → List (NodeId × Nat)}
    (hg : Reparents g w w') (h : ∀ e ∈ w.journal, e.isError = false) :
    ∀ e ∈ w'.journal, e.isError = false := by
  obtain ⟨entries, hjournal, hquiet⟩ := hg.journal
  rw [hjournal]
  exact List.forall_mem_append.2 ⟨hquiet, h⟩

/-- The children that a node may claim when it is marked: those that are no ancestors. -/
def claimable (w : World) (id : NodeId) : List NodeId :=
  (w.children id).filter (!(w.ancestors id).contains ·)

theorem reparents_claim (w : World) (p : NodeId) (l : List NodeId) :
    Reparents (fun id ps => (Node.addParent p)^[l.count id] ps) w (l.foldl (addParent · · p) w) :=
  .foldl (fun w c => .modify w c _) w l

/-- A node claims what it may claim: its list of children is cut down to that, and then the children
count the node. -/
theorem exists_adoptChildren (hr : types.Regular) (hs : Sound types w) {n : Node} {id : NodeId}
    (hn : w.node? id = some n) (hb : n.behavior = .grouping) (hi : n.initialized = true) :
    ∃ v, (w.adoptChildren id).2 = (w.claimable id).foldl (addParent · · id) v ∧
      v.claimed = Function.update w.claimed id (w.claimable id) ∧
      (∀ claims, w.CountsAs claims → v.CountsAs claims) ∧
      ((∀ e ∈ w.journal, e.isError = false) → ∀ e ∈ v.journal, e.isError = false) := by
  obtain ⟨haccepted, hquiet⟩ := accept_spec w id (w.children id)
  have hn' : (w.accept id (w.children id)).2.2.node? id = some n := by rw [hquiet.node?, hn]; rfl
  unfold adoptChildren
  dsimp only
  rw [haccepted]
  split
  · refine ⟨_, rfl, ?_, fun claims hcounts => (hcounts.quiet hquiet).storeChildren _ _ _ _ _,
      fun hj => quiet_storeChildren (hquiet.quiet hj) _ _ _ _ _⟩
    rw [claimed_storeChildren hr (hs.reparents hquiet) hn' hb hi, hquiet.claimed]
    rfl
  · rename_i hlength
    refine ⟨_, rfl, ?_, fun claims hcounts => hcounts.quiet hquiet, hquiet.quiet⟩
    have hall : w.claimable id = w.claimed id := by
      rw [claimed_eq hn, Node.claimed, if_pos ⟨hb, hi⟩]
      have hchildren : w.children id = n.nodesIn childrenField := by
        rw [World.children, hn]; rfl
      rw [← hchildren]
      exact List.Sublist.eq_of_length List.filter_sublist (not_not.1 hlength)
    rw [hquiet.claimed, hall, Function.update_eq_self]

theorem Reclaims.of_eq (h : w'.claimed = w.claimed) : Reclaims w w' :=
  ⟨.nil, w.claimed .nil, by rw [h, Function.update_eq_self], fun _ hc => .inl hc⟩

/-- Ancestors depend on the ids and the parents of nodes only. -/
theorem ancestors_modify (w : World) (id : NodeId) {f : Node → Node}
    (hf : ∀ n, (f n).id = n.id ∧ (f n).parents = n.parents) :
    (w.modify id f).ancestors = w.ancestors := by
  have hparents : (w.modify id f).parentsOf = w.parentsOf := by
    funext c
    rw [parentsOf, node?_modify w id c fun n => (hf n).1, parentsOf]
    cases w.node? c with
    | none => rfl
    | some n =>
      rw [Option.map_some, Option.map_some, Option.map_some]
      split
      · rw [Node.parentIds, (hf n).2, Node.parentIds]
      · rfl
  funext c
  rw [ancestors, ancestors, hparents, liveIds_modify w id fun n => (hf n).1]

namespace CountsAs

theorem congr (h : w.CountsAs w.claimed) (hn : w'.nodes = w.nodes)
    (hj : (∀ e ∈ w.journal, e.isError = false) → ∀ e ∈ w'.journal, e.isError = false) :
    Recounts w w' := by
  refine ⟨?_, hj, .of_eq (claimed_congr hn)⟩
  rw [CountsAs, hn, claimed_congr hn]
  exact h

/-- A node may change anything but its parents and what it claims. -/
theorem keep (h : w.CountsAs w.claimed) {id : NodeId} {f : Node → Node}
    (hf : ∀ n, (f n).id = n.id ∧ (f n).parents = n.parents)
    (hclaim : ∀ n, w.node? id = some n → (f n).claimed = n.claimed) :
    Recounts w (w.modify id f) := by
  have hclaimed := claimed_modify (fun n => (hf n).1) hclaim
  exact ⟨hclaimed ▸ h.modify hf, fun hj => hj, .of_eq hclaimed⟩

/-- A claim is what puts a node into a list of parents. -/
theorem mem_parentIds_iff (h : w.CountsAs w.claimed) {c : Node} (hc : c ∈ w.nodes) (p : NodeId) :
    p ∈ c.parentIds ↔ c.id ∈ w.claimed p := by
  obtain ⟨hcounted, hcounts⟩ := h c hc
  rw [← List.count_pos_iff (l := w.claimed p), ← hcounts p]
  exact (Node.parentCount_pos_iff hcounted).symm

theorem created (h : w.CountsAs w.claimed) (hs : Sound types w) (spec : Specification) (b : Behavior)
    (environment : Environment) : Recounts w (w.create spec b environment).2 := by
  have hnodes : (w.create spec b environment).2.nodes =
      w.nodes ++ [.fresh w.nextId.1 spec b environment] := rfl
  have hclaimed : (w.create spec b environment).2.claimed = w.claimed := by
    funext p
    rw [claimed, node?, hnodes, List.find?_append, claimed, node?]
    cases w.nodes.find? (·.id == p) with
    | some n => rfl
    | none =>
      rw [Option.none_or, List.find?_singleton]
      split
      · exact if_neg (by simp [Node.fresh])
      · rfl
  refine ⟨fun c hc => ?_, fun hj => List.forall_mem_cons.2 ⟨rfl, hj⟩, .of_eq hclaimed⟩
  rw [hclaimed]
  rcases List.mem_append.1 hc with hc | hc
  · exact h c hc
  · rw [List.mem_singleton.1 hc]
    refine ⟨⟨List.nodup_nil, by simp [Node.fresh]⟩, fun p => ?_⟩
    rw [List.count_eq_zero_of_not_mem]
    · rfl
    · exact fun hmem => hs.nextId_not_mem (mem_liveIds.2 (hs.claimed hmem))

/-- The end of a set-up concerns neither parents nor claims. -/
theorem finished (h : w.CountsAs w.claimed) (id : NodeId) (time : Timestamp) :
    Recounts w (w.runSetUp id time) := by
  have hmodify : ∀ (v : World) (f : Node → Node),
      (∀ n, (f n).id = n.id ∧ (f n).parents = n.parents ∧ (f n).claimed = n.claimed) →
        v.CountsAs v.claimed ∧ v.claimed = w.claimed ∧
          ((∀ e ∈ w.journal, e.isError = false) → ∀ e ∈ v.journal, e.isError = false) →
        (v.modify id f).CountsAs (v.modify id f).claimed ∧ (v.modify id f).claimed = w.claimed ∧
          ((∀ e ∈ w.journal, e.isError = false) → ∀ e ∈ (v.modify id f).journal, e.isError = false) := by
    rintro v f hf ⟨hcounts, hclaimed, hquiet⟩
    have hsame : (v.modify id f).claimed = v.claimed := claimed_modify (fun n => (hf n).1) fun n _ => (hf n).2.2
    exact ⟨hsame ▸ hcounts.modify fun n => ⟨(hf n).1, (hf n).2.1⟩, hsame.trans hclaimed, hquiet⟩
  obtain ⟨hcounts, hclaimed, hquiet⟩ := runSetUp_induction id time
    (fun v => hmodify v _ fun _ => ⟨rfl, rfl, rfl⟩)
    (fun _ hv => ⟨hv.1, hv.2.1, fun hj => List.forall_mem_cons.2 ⟨rfl, hv.2.2 hj⟩⟩)
    (fun _ _ hv => ⟨hv.1, hv.2.1, fun hj => List.forall_mem_cons.2 ⟨rfl, hv.2.2 hj⟩⟩)
    (fun v _ => hmodify v _ fun _ => ⟨rfl, rfl, rfl⟩) ⟨h, rfl, fun hj => hj⟩
  exact ⟨hcounts, hquiet, .of_eq hclaimed⟩

/-- Whoever is not held is in nobody's list of children, so nobody counts among its parents. -/
theorem parents_eq_nil (h : w.CountsAs w.claimed) {n : Node} (hn : n ∈ w.nodes) (hfree : w.isHeld n.id = false) :
    n.parents = [] := by
  rw [List.eq_nil_iff_forall_not_mem]
  intro e he
  have hmem : n.id ∈ w.claimed e.1 := (h.mem_parentIds_iff hn e.1).1 (List.mem_map_of_mem he)
  simp only [isHeld, Bool.or_eq_false_iff, List.contains_eq_mem, decide_eq_false_iff_not] at hfree
  cases hp : w.node? e.1 with
  | none => rw [claimed_eq_nil hp] at hmem; cases hmem
  | some p =>
    rw [claimed_eq hp] at hmem
    exact hfree.2 (references_subset_of_mem (mem_nodes_of_node? hp) (claimed_subset p hmem))

/-- A node that goes takes itself off the lists of its children, and is on no list itself. -/
theorem destroyed (h : w.CountsAs w.claimed) {n : Node} (hn : w.node? n.id = some n)
    (hfree : w.isHeld n.id = false) : Recounts w (w.destroy n) := by
  have hleave := reparents_takeLeave w n
  have hnil := h.parents_eq_nil (mem_nodes_of_node? hn) hfree
  have hreport : (w.takeLeave n).reportParents n.id = w.takeLeave n := by
    unfold reportParents
    rw [hleave.node?, hn, Option.map_some]
    dsimp only
    rw [hnil, Function.iterate_fixed rfl]
    rfl
  have hclaimed : ((w.takeLeave n).remove n).claimed = Function.update w.claimed n.id [] := by
    funext p
    rw [claimed, node?_remove, Function.update_apply, ← congrFun hleave.claimed p, claimed]
    split <;> rfl
  rw [destroy, hreport]
  refine ⟨?_, fun hj => List.forall_mem_cons.2 ⟨rfl, hleave.quiet hj⟩, n.id, [], hclaimed, by simp⟩
  rw [hclaimed]
  rw [← claimed_eq hn] at hleave
  exact fun c hc => h.disclaim hleave c (List.mem_filter.1 hc).1

/-- The old children are given up and the new ones are claimed, so the counts follow the list. -/
theorem relinked (hr : types.Regular) (h : w.CountsAs w.claimed) (hs : Sound types w) {n : Node}
    (hn : w.node? n.id = some n) (hb : n.behavior = .grouping) (hi : n.initialized = true)
    {next : List NodeId} (hnext : ∀ c ∈ next, c ∈ w.children n.id ∨ c ∉ w.ancestors n.id)
    (time : Timestamp) (after : Aftermath) :
    Recounts w (w.replaceChildren n.id (w.children n.id) next time after).2 := by
  have hlinked : (w.node? n.id).any (·.initialized) = true := by rw [hn]; exact hi
  have hchildren : w.children n.id = w.claimed n.id := by
    rw [claimed_eq hn, Node.claimed, if_pos ⟨hb, hi⟩, World.children, hn]
    rfl
  rw [replaceChildren, if_pos hlinked, hchildren]
  have hold := Reparents.foldl (fun w c => reparents_unlink w n.id c) w (w.claimed n.id)
  generalize (w.claimed n.id).foldl (unlink · n.id ·) w = v at hold ⊢
  have hnew := Reparents.foldl (fun w c => reparents_link w n.id c) v next
  generalize next.foldl (link · n.id ·) v = v' at hnew ⊢
  have hs' := (hs.reparents hold).reparents hnew
  have hcounts := (h.disclaim hold).claim (Function.update_self ..) hnew
  obtain ⟨m, hm, hmb, hmi⟩ : ∃ m, v'.node? n.id = some m ∧ m.behavior = .grouping ∧
      m.initialized = true := by
    rw [hnew.node?, hold.node?, hn]
    exact ⟨_, rfl, hb, hi⟩
  have hclaimed : (v'.storeChildren n.id (w.claimed n.id) next time after).2.claimed =
      Function.update w.claimed n.id next := by
    rw [claimed_storeChildren hr hs' hm hmb hmi, hnew.claimed, hold.claimed]
  refine ⟨?_, fun hj => quiet_storeChildren (hnew.quiet (hold.quiet hj)) _ _ _ _ _, n.id, next, hclaimed,
    hchildren ▸ hnext⟩
  rw [hclaimed]
  rw [Function.update_idem] at hcounts
  exact hcounts.storeChildren _ _ _ _ _

/-- A node that is marked claims the children that are no ancestors. -/
theorem adopted (hr : types.Regular) (h : w.CountsAs w.claimed) (hs : Sound types w) {n : Node}
    (hn : w.node? n.id = some n) (hb : n.behavior = .grouping) (hi : n.initialized = false) :
    Recounts w (((w.mark n.id).step (.adopting n.id)).adoptChildren n.id).2 := by
  have hs₀ : Sound types ((w.mark n.id).step (.adopting n.id)) := (hs.mark n.id).enter _
  have hn₀ : ((w.mark n.id).step (.adopting n.id)).node? n.id = some { n with initialized := true } :=
    (node?_mark w n.id).trans (by rw [hn]; rfl)
  obtain ⟨v, hv, hclaimed, hcounts, hquiet⟩ := exists_adoptChildren hr hs₀ hn₀ hb rfl
  have hupdate : ∀ l, Function.update ((w.mark n.id).step (.adopting n.id)).claimed n.id l =
      Function.update w.claimed n.id l := by
    intro l
    funext p
    rw [Function.update_apply, Function.update_apply]
    split
    · rfl
    · rename_i hp
      exact congrArg (fun o => (o.map Node.claimed).getD [])
        (node?_modify_of_ne w (f := fun n => { n with initialized := true }) (fun _ => rfl) hp)
  have hnil : w.claimed n.id = [] := by
    rw [claimed_eq hn, Node.claimed, if_neg (by simp [hi])]
  have hclaim := reparents_claim v n.id (((w.mark n.id).step (.adopting n.id)).claimable n.id)
  rw [hupdate, ← hclaim.claimed] at hclaimed
  rw [hv]
  refine ⟨?_, fun hj => hclaim.quiet (hquiet (List.forall_mem_cons.2 ⟨rfl, hj⟩)), n.id, _, hclaimed,
    fun c hc => .inr ?_⟩
  · rw [hclaimed]
    exact (hcounts w.claimed (h.modify fun _ => ⟨rfl, rfl⟩)).claim hnil hclaim
  · have hancestors : ((w.mark n.id).step (.adopting n.id)).ancestors = w.ancestors :=
      ancestors_modify w n.id (f := fun n => { n with initialized := true }) fun _ => ⟨rfl, rfl⟩
    have hnot := (List.mem_filter.1 hc).2
    rw [hancestors] at hnot
    simpa using hnot

/-- **Changes of a sound world keep parents and children in step**, and nobody claims an ancestor. -/
theorem change (hr : types.Regular) (h : w.CountsAs w.claimed) (hs : Sound types w)
    (hc : Change types w w') : Recounts w w' := by
  cases hc with
  | entered e he => exact h.congr rfl fun hj => List.forall_mem_cons.2 ⟨Entry.isError_of_isPlain he, hj⟩
  | cascaded stack => exact h.congr rfl fun hj => hj
  | held ids _ => exact h.congr rfl fun hj => hj
  | unheld ids => exact h.congr rfl fun hj => hj
  | learned t _ => exact h.congr rfl fun hj => hj
  | created t environment _ => exact h.created hs _ _ _
  | destroyed n hn hfree => exact h.destroyed hn hfree
  | named id name =>
    obtain ⟨heq, -⟩ | ⟨n, -, -, heq⟩ := setName_cases w id name <;> rw [heq]
    · exact ⟨h, fun hj => hj, .of_eq rfl⟩
    · have hkept : Recounts w (w.modify id fun n => { n with name }) :=
        h.keep (fun _ => ⟨rfl, rfl⟩) fun _ _ => rfl
      exact ⟨hkept.counts, fun hj => hj, hkept.reclaims⟩
  | stored n name old value hn _ _ _ hlist =>
    refine h.keep (fun m => ⟨Node.store_id m _ _, Node.store_parents m _ _⟩) fun m hm => ?_
    obtain rfl : n = m := Option.some.inj (hn.symm.trans hm)
    exact claimed_store hlist
  | relinked n next time after hn hb hi _ hnext => exact h.relinked hr hs hn hb hi hnext time after
  | marked n hn hb =>
    refine h.keep (fun _ => ⟨rfl, rfl⟩) fun m hm => ?_
    obtain rfl : n = m := Option.some.inj (hn.symm.trans hm)
    rw [Node.claimed, Node.claimed, if_neg fun hc => hb hc.1, if_neg fun hc => hb hc.1]
  | adopted n hn hb hi => exact h.adopted hr hs hn hb hi
  | finished id time _ => exact h.finished id time
  | extended n name value hn hdynamic _ _ =>
    refine h.keep (fun _ => ⟨rfl, rfl⟩) fun m hm => ?_
    obtain rfl : n = m := Option.some.inj (hn.symm.trans hm)
    -- a grouping node gets no fields of its own
    have hb : n.behavior ≠ .grouping := by
      intro hb
      rw [Node.capabilities, hb] at hdynamic
      cases hdynamic
    rw [Node.claimed, Node.claimed, if_neg fun hc => hb hc.1, if_neg fun hc => hb hc.1]
  | reduced id name =>
    refine h.keep (fun _ => ⟨rfl, rfl⟩) fun m hm => ?_
    unfold Node.claimed
    split
    · rename_i hclaims
      have hd := hs.dynamic_eq_nil (mem_nodes_of_node? hm) hclaims.1
      simp only [Node.nodesIn, Node.field?, Node.dynamicField?, hd, List.filter_nil]
    · rfl
  | connected id output route =>
    obtain ⟨routes, heq⟩ := modify_addConnection_eq w id output route
    exact heq ▸ h.keep (fun _ => ⟨rfl, rfl⟩) fun _ _ => rfl
  | disconnected id output route =>
    obtain ⟨routes, heq⟩ := modify_removeConnection_eq w id output route
    exact heq ▸ h.keep (fun _ => ⟨rfl, rfl⟩) fun _ _ => rfl
  | forgotten n hn hi =>
    refine h.keep (fun _ => ⟨rfl, rfl⟩) fun m hm => ?_
    obtain rfl : n = m := Option.some.inj (hn.symm.trans hm)
    rw [Node.claimed, Node.claimed, if_neg (by simp [Node.forget, hi]), if_neg (by simp [hi])]

end CountsAs

/-- Changes of a sound world keep parents and children in step, and nobody claims an ancestor. -/
theorem Mirrored.change (hr : types.Regular) (h : Mirrored w) (hs : Sound types w)
    (hc : Change types w w') : Mirrored w' ∧ Reclaims w w' :=
  have hrecounts := h.counts.change hr hs hc
  ⟨⟨hrecounts.counts, hrecounts.quiet h.quiet⟩, hrecounts.reclaims⟩

/-- What an initialized grouping node claims is its list of children; nobody else claims anything. -/
theorem claimed_of_grouping {g : Node} (hs : Sound types w) (hg : g ∈ w.nodes)
    (hb : g.behavior = .grouping) :
    w.claimed g.id = if g.initialized then w.children g.id else [] := by
  have hn := node?_of_mem hs.distinct hg
  rw [claimed_eq hn, Node.claimed, children, hn]
  by_cases hi : g.initialized = true
  · rw [if_pos ⟨hb, hi⟩, if_pos hi]; rfl
  · rw [if_neg fun h => hi h.2, if_neg hi]

theorem exists_of_mem_claimed {p c : NodeId} (hc : c ∈ w.claimed p) :
    ∃ g ∈ w.nodes, g.id = p ∧ g.behavior = .grouping ∧ g.initialized = true := by
  cases hn : w.node? p with
  | none => rw [claimed_eq_nil hn] at hc; cases hc
  | some g =>
    rw [claimed_eq hn, Node.claimed] at hc
    split at hc
    · rename_i hclaims
      exact ⟨g, mem_nodes_of_node? hn, id_of_node? hn, hclaims⟩
    · cases hc

theorem Mirrored.empty : Mirrored {} := ⟨by simp [CountsAs], by simp⟩

theorem Reachable.mirrored (hr : types.Regular) (hw : Reachable types w) : Mirrored w :=
  hw.induction hr .empty fun _ _ hs hc h => (h.change hr hs hc).1

/-- A node that goes while it is counted among children is reported as an error. -/
theorem exists_isError_destroy {n m : Node} (hm : (w.takeLeave n).node? n.id = some m)
    (hparents : m.parents ≠ []) : ∃ e ∈ (w.destroy n).journal, e.isError = true := by
  obtain ⟨text, hreport⟩ : ∃ text, ((w.takeLeave n).reportParents n.id).journal =
      .log .error text :: (w.takeLeave n).journal := by
    unfold reportParents
    rw [hm]
    dsimp only
    rw [if_neg (by simpa using hparents)]
    exact ⟨_, rfl⟩
  exact ⟨.log .error text, List.mem_cons_of_mem _ (hreport ▸ List.mem_cons_self), rfl⟩

/-- **Parents mirror children.** In every reachable world a live node counts a grouping node among its
parents as often as that lists it if it is set up, and has no entry for it otherwise; parents are listed
once, count at least once and are live grouping nodes; and no error was ever reported, so nothing was
destroyed while it was counted among children. -/
theorem parents_mirror_children (hr : types.Regular) (hw : Reachable types w) :
    (∀ g ∈ w.nodes, g.behavior = .grouping → ∀ c ∈ w.nodes,
      Node.parentCount c.parents g.id =
          (if g.initialized then (w.children g.id).count c.id else 0) ∧
        (g.id ∈ c.parentIds ↔ g.initialized = true ∧ c.id ∈ w.children g.id)) ∧
    (∀ c ∈ w.nodes, c.parentIds.Nodup ∧ ∀ e ∈ c.parents, 0 < e.2 ∧
      ∃ g ∈ w.nodes, g.id = e.1 ∧ g.behavior = .grouping ∧ g.initialized = true) ∧
    ∀ e ∈ w.journal, e.isError = false := by
  have hs := hw.sound hr
  have h := hw.mirrored hr
  refine ⟨fun g hg hb c hc => ⟨?_, ?_⟩, fun c hc => ⟨(h.counts c hc).1.nodup, fun e he => ?_⟩, h.quiet⟩
  · rw [(h.counts c hc).2, claimed_of_grouping hs hg hb]
    split <;> rfl
  · rw [h.counts.mem_parentIds_iff hc, claimed_of_grouping hs hg hb]
    split <;> simp [*]
  · exact ⟨(h.counts c hc).1.pos e he,
      exists_of_mem_claimed ((h.counts.mem_parentIds_iff hc e.1).1 (List.mem_map_of_mem he))⟩

/-! ### A shape that is listed twice -/

/-- A group is set up and then lists one shape twice. -/
def sharing : World :=
  (Call.setField ⟨1⟩ childrenField (.nodes [⟨2⟩, ⟨2⟩])).run <|
    (Call.setUp ⟨1⟩ .unset).run <|
      (Call.create Catalog.withScenes "Shape" .detached).run <|
        (Call.create Catalog.withScenes "Group" .detached).run {}

theorem reachable_sharing : Reachable Catalog.withScenes sharing := by
  refine .call (.call (.call (.call .empty ?_) ?_) trivial) ?_
  · exact fun _ ht => ht
  · exact fun _ ht => ht
  · rw [Call.Allowed, Field.references_nodes]
    decide +kernel

/-- The shape counts the group twice. -/
theorem parents_mirror_children_sharing :
    Catalog.withScenes.Regular ∧ Reachable Catalog.withScenes sharing ∧
      ∃ group ∈ sharing.nodes, ∃ shape ∈ sharing.nodes, group.behavior = .grouping ∧
        Node.parentCount shape.parents group.id = 2 ∧ group.id ∈ shape.parentIds := by
  refine ⟨Catalog.regular_withScenes, reachable_sharing, ?_⟩
  have hgroup : (sharing.node? ⟨1⟩).map (fun n => (n.behavior, n.initialized)) =
      some (.grouping, true) := by decide +kernel
  have hshape : (sharing.node? ⟨2⟩).isSome = true := by decide +kernel
  have hchildren : sharing.children ⟨1⟩ = [⟨2⟩, ⟨2⟩] := by decide +kernel
  obtain ⟨group, hg, hset⟩ := Option.map_eq_some_iff.1 hgroup
  obtain ⟨hb, hi⟩ := Prod.mk.inj hset
  obtain ⟨shape, hs⟩ := Option.isSome_iff_exists.1 hshape
  obtain ⟨hcount, hmem⟩ := (parents_mirror_children Catalog.regular_withScenes reachable_sharing).1
    group (mem_nodes_of_node? hg) hb shape (mem_nodes_of_node? hs)
  rw [if_pos hi, id_of_node? hg, id_of_node? hs, hchildren] at hcount
  rw [id_of_node? hg, id_of_node? hs, hchildren] at hmem
  refine ⟨group, mem_nodes_of_node? hg, shape, mem_nodes_of_node? hs, hb, ?_, ?_⟩
  · rw [id_of_node? hg, hcount]
    rfl
  · rw [id_of_node? hg]
    exact hmem.2 ⟨hi, List.mem_cons_self⟩

end World

end SceneGraph
