import SceneGraph.Proofs.Cascade.Termination
import SceneGraph.Proofs.World.Change

/-!
# Setting up ends

Setting up a node marks it first, and whatever is done then takes no mark away. So the nodes that are
not marked become fewer with each level, and the bound on the levels is never met.

* `World.retains_initializeUpTo`: setting up takes no mark away, and keeps handles, stack and routes.
* `World.iterate_setUpLevel_eq`: whatever would be done beyond the last level makes no difference.
-/

namespace SceneGraph

namespace World

variable {w w' : World}

/-! ### What a level does -/

theorem calm_addParent (w : World) (c p : NodeId) : Calm w (w.addParent c p) :=
  .modify w c (fun _ => ⟨rfl, rfl, rfl, rfl, rfl, rfl, rfl, rfl⟩) fun _ => rfl

theorem calm_adopt (w : World) (n : Node) : Calm w (w.adopt n).2 := by
  obtain ⟨-, heq⟩ | ⟨-, heq | heq⟩ := adopt_cases w n <;> rw [heq]
  · unfold adoptChildren
    dsimp only
    refine .trans ?_ (Calm.foldl (fun w c => calm_addParent w c n.id) _ _)
    split
    · exact (calm_accept w n.id _).trans (calm_storeChildren _ n.id _ _ _ _)
    · exact calm_accept w n.id _
  · exact .refl w
  · exact .enter w rfl

theorem calm_setUp (w : World) (n : Node) (time : Timestamp) : Calm w (w.setUp n time) :=
  setUp_induction n time (fun v _ hv => hv.trans (.enter v rfl))
    (fun v _ hv => hv.trans (.modify v n.id (fun _ => ⟨rfl, rfl, rfl, rfl, rfl, rfl, rfl, rfl⟩) fun _ => rfl)) (.refl w)

theorem retains_mark (w : World) (id : NodeId) : Retains w (w.mark id) :=
  .modify w id (fun _ => rfl) (fun _ => rfl) (fun _ _ => rfl) fun _ _ => ⟨rfl, rfl, rfl, rfl, rfl, rfl, rfl, rfl⟩

theorem retains_runAdopt (w : World) (id : NodeId) : Retains w (w.runAdopt id) := by
  unfold runAdopt
  split
  · rename_i n _
    have hadopted : Retains w ((w.step (.adopting id)).adopt n).2 :=
      ((Calm.enter w rfl).trans (calm_adopt _ n)).toRetains
    have hsettled : unwinding.Rel ((w.step (.adopting id)).adopt n).2
        (settle (deliverUpTo ((w.step (.adopting id)).adopt n).2.cascadeDepth) n
          ((w.step (.adopting id)).adopt n).1 ((w.step (.adopting id)).adopt n).2) :=
      CascadeRule.settle (unwinding.deliverUpTo _) trivial n _
    exact hadopted.trans hsettled.1
  · exact .refl w

theorem retains_runSetUp (w : World) (id : NodeId) (time : Timestamp) : Retains w (w.runSetUp id time) := by
  have hcount : Retains w (w.modify id fun n => { n with initializations := n.initializations + 1 }) :=
    .modify w id (fun _ => rfl) (fun _ => rfl) (fun _ h => h) fun _ _ => ⟨rfl, rfl, rfl, rfl, rfl, rfl, rfl, rfl⟩
  unfold runSetUp
  dsimp only
  split
  · exact hcount.trans ((Calm.enter _ rfl).trans (calm_setUp _ _ time)).toRetains
  · exact hcount

theorem Retains.foldl {act : World → NodeId → World} (hact : ∀ w id, Retains w (act w id)) (ids : List NodeId)
    (w : World) : Retains w (ids.foldl act w) := by
  induction ids generalizing w with
  | nil => exact .refl w
  | cons id rest ih => exact (hact w id).trans (ih _)

theorem retains_forReferences {act : World → NodeId → World} (hact : ∀ w id, Retains w (act w id)) (w : World)
    (id : NodeId) : Retains w (w.forReferences id act) :=
  (Retains.foldl hact _ _).holding

/-! ### Levels -/

/-- One level of the set-up of a node, where `nested` sets up what it refers to. -/
def setUpLevel (time : Timestamp) (nested : World → NodeId → World) (w : World) (id : NodeId) : World :=
  match w.node? id with
  | none => w
  | some n =>
    if n.initialized then w
    else (((w.mark id).runAdopt id).forReferences id nested).runSetUp id time

theorem initializeUpTo_succ (time : Timestamp) (depth : Nat) :
    initializeUpTo time (depth + 1) = setUpLevel time (initializeUpTo time depth) := rfl

theorem retains_setUpLevel {nested : World → NodeId → World} (hnested : ∀ w id, Retains w (nested w id))
    (time : Timestamp) (w : World) (id : NodeId) : Retains w (setUpLevel time nested w id) := by
  unfold setUpLevel
  split
  · exact .refl w
  split
  · exact .refl w
  · exact (((retains_mark w id).trans (retains_runAdopt _ id)).trans
      (retains_forReferences hnested _ id)).trans (retains_runSetUp _ id time)

/-- Setting up takes no mark away. -/
theorem retains_initializeUpTo (time : Timestamp) (depth : Nat) (w : World) (id : NodeId) :
    Retains w (initializeUpTo time depth w id) := by
  induction depth generalizing w id with
  | zero => exact .refl w
  | succ depth ih => exact retains_setUpLevel ih time w id

/-- A node that is marked is one less to set up. -/
theorem uninitializedCount_mark_lt {id : NodeId} {n : Node} (hn : w.node? id = some n)
    (hi : n.initialized = false) : (w.mark id).uninitializedCount < w.uninitializedCount := by
  have hmem := mem_nodes_of_node? hn
  obtain rfl := id_of_node? hn
  have hmark : (w.mark n.id).uninitializedCount =
      (w.nodes.filter fun m => !m.initialized).countP (·.id ≠ n.id) := by
    rw [uninitializedCount, mark, World.modify, List.countP_map, List.countP_filter]
    refine List.countP_congr fun m _ => ?_
    by_cases hm : m.id = n.id <;> simp [hm]
  have hcount : w.uninitializedCount = (w.nodes.filter fun m => !m.initialized).length :=
    List.countP_eq_length_filter
  rw [hmark, hcount]
  refine lt_of_le_of_ne List.countP_le_length fun heq => ?_
  have hall := List.countP_eq_length.1 heq n (List.mem_filter.2 ⟨hmem, by simpa using hi⟩)
  simp at hall

/-- Two ways to set nodes up that agree where less than a number of nodes are not marked. -/
def AgreeUnmarked (bound : Nat) (f g : World → NodeId → World) : Prop :=
  ∀ w id, w.uninitializedCount < bound → f w id = g w id

theorem foldl_agree {bound : Nat} {f g : World → NodeId → World} (hf : ∀ w id, Retains w (f w id))
    (h : AgreeUnmarked bound f g) (ids : List NodeId) (hw : w.uninitializedCount < bound) :
    ids.foldl f w = ids.foldl g w := by
  induction ids generalizing w with
  | nil => rfl
  | cons id rest ih =>
    rw [List.foldl_cons, List.foldl_cons, ← h w id hw]
    exact ih (lt_of_le_of_lt (hf w id).pending hw)

theorem AgreeUnmarked.level {bound : Nat} {f g : World → NodeId → World} (hf : ∀ w id, Retains w (f w id))
    (h : AgreeUnmarked bound f g) (time : Timestamp) :
    AgreeUnmarked (bound + 1) (setUpLevel time f) (setUpLevel time g) := by
  intro w id hw
  unfold setUpLevel
  split
  · rfl
  rename_i n hn
  split
  · rfl
  rename_i hi
  have hmarked := uninitializedCount_mark_lt hn (by simpa using hi)
  have hadopted := (retains_runAdopt (w.mark id) id).pending
  have hless : (((w.mark id).runAdopt id).holdAll (((w.mark id).runAdopt id).referencesOf id)).uninitializedCount
      < bound := by
    change ((w.mark id).runAdopt id).uninitializedCount < bound
    omega
  rw [forReferences, forReferences, foldl_agree hf h _ hless]

/-- Where all nodes are marked, there is nothing to set up. -/
theorem setUpLevel_of_marked (time : Timestamp) (nested : World → NodeId → World) (hw : w.uninitializedCount = 0)
    (id : NodeId) : setUpLevel time nested w id = w := by
  unfold setUpLevel
  split
  · rfl
  · rename_i n hn
    have hmarked : n.initialized = true := by
      simpa using List.countP_eq_zero.1 hw n (mem_nodes_of_node? hn)
    rw [if_pos hmarked]

/-- Where less nodes are not marked than levels are allowed, by induction on how many those are. -/
theorem agree_iterate (time : Timestamp) (bottom : World → NodeId → World) {bound depth levels : Nat}
    (hdepth : bound ≤ depth + 1) (hlevels : bound ≤ levels) :
    AgreeUnmarked bound (initializeUpTo time depth) ((setUpLevel time)^[levels] bottom) := by
  induction bound generalizing depth levels with
  | zero => exact fun _ _ hw => absurd hw (Nat.not_lt_zero _)
  | succ bound ih =>
    obtain ⟨levels, rfl⟩ := Nat.exists_eq_succ_of_ne_zero (Nat.ne_zero_of_lt hlevels)
    rw [Function.iterate_succ_apply']
    cases depth with
    | zero =>
      intro w id hw
      have hnone : w.uninitializedCount = 0 := by omega
      exact (setUpLevel_of_marked time _ hnone id).symm
    | succ depth =>
      rw [initializeUpTo_succ]
      exact (ih (Nat.le_of_succ_le_succ hdepth) (Nat.le_of_succ_le_succ hlevels)).level
        (retains_initializeUpTo time depth) time

/-- **Setting up ends**: with more levels than nodes that are not marked, it makes no difference what
would be done beyond the last. -/
theorem iterate_setUpLevel_eq (time : Timestamp) (bottom : World → NodeId → World) {levels : Nat}
    (hw : w.uninitializedCount < levels) (id : NodeId) :
    (setUpLevel time)^[levels] bottom w id = w.initializeNode id time :=
  (agree_iterate time bottom (Nat.le_refl _) hw w id (Nat.lt_succ_self _)).symm

end World

end SceneGraph
