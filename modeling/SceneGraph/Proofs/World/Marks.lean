import SceneGraph.Proofs.World.Change

/-!
# Marks stay

A node that is marked as set up stays marked as long as it lives. No other node ever comes to its id, because
ids are issued once and in ascending order.

* `Change.persists`: what a change leaves of the nodes that are there, unless it finishes a set-up.
* `Leads.marked`: a node that is marked stays so along every run.
-/

namespace SceneGraph

/-- A later state of a node of which no set-up has been finished in between. -/
structure Node.Continues (m n : Node) : Prop where
  spec : m.spec = n.spec
  behavior : m.behavior = n.behavior
  environment : m.environment = n.environment
  object : m.object = n.object
  initializations : m.initializations = n.initializations
  marked : n.initialized = true → m.initialized = true

namespace Node.Continues

variable {l m n : Node}

theorem refl (n : Node) : Continues n n := ⟨rfl, rfl, rfl, rfl, rfl, fun h => h⟩

theorem trans (h : Continues l m) (h' : Continues m n) : Continues l n :=
  ⟨h.spec.trans h'.spec, h.behavior.trans h'.behavior, h.environment.trans h'.environment,
    h.object.trans h'.object, h.initializations.trans h'.initializations, fun hn => h.marked (h'.marked hn)⟩

theorem store (n : Node) (name : String) (value : Field) : Continues (n.store name value) n :=
  ⟨n.store_spec name value, n.store_behavior name value, n.store_environment name value,
    n.store_object name value, n.store_initializations name value,
    fun h => (n.store_initialized name value).trans h⟩

end Node.Continues

namespace World

variable {types : Catalog} {w w' w'' : World} {id : NodeId}

/-- A node of a later world was there before, or it came later and has a later id. -/
structure Persists (w w' : World) : Prop where
  lastId : w.registry.lastId ≤ w'.registry.lastId
  nodes : ∀ id m, w'.node? id = some m → (∃ n, w.node? id = some n ∧ m.Continues n) ∨
    (w.registry.lastId < id.value ∧ m.object = none ∧ m.initializations = 0)

namespace Persists

theorem of_nodes (hn : w'.nodes = w.nodes) (hl : w'.registry.lastId = w.registry.lastId) : Persists w w' :=
  ⟨Nat.le_of_eq hl.symm, fun _ m hm => .inl ⟨m, (node?_congr hn).symm.trans hm, .refl m⟩⟩

theorem refl (w : World) : Persists w w := .of_nodes rfl rfl

theorem trans (h : Persists w w') (h' : Persists w' w'') : Persists w w'' := by
  refine ⟨Nat.le_trans h.lastId h'.lastId, fun id l hl => ?_⟩
  rcases h'.nodes id l hl with ⟨m, hm, hlm⟩ | ⟨hnew, hunused⟩
  · rcases h.nodes id m hm with ⟨n, hn, hmn⟩ | ⟨hnew, hobject, hcount⟩
    · exact .inl ⟨n, hn, hlm.trans hmn⟩
    · exact .inr ⟨hnew, hlm.object.trans hobject, hlm.initializations.trans hcount⟩
  · exact .inr ⟨Nat.lt_of_le_of_lt h.lastId hnew, hunused⟩

theorem modify (w : World) (id : NodeId) {f : Node → Node} (hid : ∀ n, (f n).id = n.id)
    (hf : ∀ n, (f n).Continues n) : Persists w (w.modify id f) := by
  refine ⟨Nat.le_refl _, fun other m hm => .inl ?_⟩
  rw [node?_modify w id other hid] at hm
  obtain ⟨n, hn, rfl⟩ := Option.map_eq_some_iff.1 hm
  refine ⟨n, hn, ?_⟩
  split
  · exact hf n
  · exact .refl n

theorem mark (w : World) (id : NodeId) : Persists w (w.mark id) :=
  .modify w id (fun _ => rfl) fun _ => ⟨rfl, rfl, rfl, rfl, rfl, fun _ => rfl⟩

theorem reparents {g : NodeId → List (NodeId × Nat) → List (NodeId × Nat)} (h : Reparents g w w') :
    Persists w w' := by
  refine ⟨Nat.le_of_eq (congrArg Registry.lastId h.registry.symm), fun id m hm => .inl ?_⟩
  rw [h.node?] at hm
  obtain ⟨n, hn, rfl⟩ := Option.map_eq_some_iff.1 hm
  exact ⟨n, hn, rfl, rfl, rfl, rfl, rfl, fun hi => hi⟩

theorem store (w : World) (id : NodeId) (name : String) (value : Field) :
    Persists w (w.modify id (·.store name value)) :=
  .modify w id (fun n => n.store_id name value) fun n => .store n name value

theorem storeChildren (w : World) (id : NodeId) (old new : List NodeId) (time : Timestamp)
    (after : Aftermath) : Persists w (w.storeChildren id old new time after).2 := by
  obtain heq | ⟨n, f, -, -, -, heq⟩ := storeChildren_cases w id old new time after <;> rw [heq]
  · exact .refl w
  · exact (store w id _ _).trans (.of_nodes rfl rfl)

theorem replaceChildren (w : World) (id : NodeId) (old new : List NodeId) (time : Timestamp)
    (after : Aftermath) : Persists w (w.replaceChildren id old new time after).2 := by
  unfold World.replaceChildren
  dsimp only
  split
  · exact (reparents (reparents_relink w id old new)).trans (storeChildren _ id old new time after)
  · exact storeChildren w id old new time after

theorem adoptChildren (w : World) (id : NodeId) : Persists w (w.adoptChildren id).2 := by
  have hquiet := reparents (accept_spec w id (w.children id)).2
  have hclaimed : ∀ (v : World) (l : List NodeId), Persists v (l.foldl (fun w c => w.addParent c id) v) :=
    fun v l => reparents (Reparents.foldl (fun w c => .modify w c _) v l)
  unfold World.adoptChildren
  dsimp only
  split
  · exact (hquiet.trans (storeChildren _ id _ _ _ _)).trans (hclaimed _ _)
  · exact hquiet.trans (hclaimed _ _)

theorem destroy (w : World) (n : Node) : Persists w (w.destroy n) := by
  have hleave := reparents (reparents_takeLeave w n)
  have hreport : ∀ v : World, Persists v (v.reportParents n.id) := fun v =>
    .of_nodes (nodes_reportParents v n.id) (congrArg Registry.lastId (registry_reportParents v n.id))
  have hremove : ∀ v : World, Persists v (v.remove n) := by
    refine fun v => ⟨Nat.le_of_eq (Registry.lastId_removeName _ _ _).symm, fun id m hm => .inl ?_⟩
    rw [node?_remove] at hm
    split at hm
    · cases hm
    · exact ⟨m, hm, .refl m⟩
  exact (hleave.trans (hreport _)).trans (hremove _)

theorem create (w : World) (spec : Specification) (b : Behavior) (env : Environment) :
    Persists w (w.create spec b env).2 := by
  refine ⟨Nat.le_succ _, fun id m hm => ?_⟩
  rw [node?_create] at hm
  rcases Option.or_eq_some_iff.1 hm with hm | ⟨-, hm⟩
  · exact .inl ⟨m, hm, .refl m⟩
  · split at hm
    · rename_i hid
      obtain rfl := Option.some.inj hm
      exact .inr ⟨hid ▸ Nat.lt_succ_self _, rfl, rfl⟩
    · cases hm

end Persists

/-- **A change leaves of every node what renderers and set-ups depend on**, and gives no id away twice, unless
it finishes the set-up of a node. -/
theorem Change.persists (hc : Change types w w') :
    Persists w w' ∨ ∃ id time, (∀ n, w.node? id = some n → n.initialized = true) ∧ w' = w.runSetUp id time := by
  cases hc with
  | finished id time hset => exact .inr ⟨id, time, hset, rfl⟩
  | created t environment => exact .inl (.create w t.layout t.behavior environment)
  | destroyed n => exact .inl (.destroy w n)
  | named id name =>
    left
    obtain ⟨heq, -⟩ | ⟨n, -, -, heq⟩ := setName_cases w id name <;> rw [heq]
    · exact .refl w
    · have hnamed : Persists w (w.modify id fun n => { n with name }) :=
        .modify w id (fun _ => rfl) fun _ => ⟨rfl, rfl, rfl, rfl, rfl, fun h => h⟩
      exact hnamed.trans (.of_nodes rfl (Registry.lastId_rename _ _ _ _))
  | stored n name old value => exact .inl (.store w n.id name value)
  | relinked n next time after => exact .inl (.replaceChildren w n.id _ next time after)
  | marked n => exact .inl (.mark w n.id)
  | adopted n =>
    have hbegun : Persists (w.mark n.id) ((w.mark n.id).step (.adopting n.id)) := .of_nodes rfl rfl
    exact .inl (((Persists.mark w n.id).trans hbegun).trans (.adoptChildren _ n.id))
  | extended n | reduced id | forgotten n =>
    exact .inl (.modify w _ (fun _ => rfl) fun _ => ⟨rfl, rfl, rfl, rfl, rfl, fun h => h⟩)
  | connected id output route =>
    obtain ⟨routes, heq⟩ := modify_addConnection_eq w id output route
    exact .inl (heq ▸ .modify w id (fun _ => rfl) fun _ => ⟨rfl, rfl, rfl, rfl, rfl, fun h => h⟩)
  | disconnected id output route =>
    obtain ⟨routes, heq⟩ := modify_removeConnection_eq w id output route
    exact .inl (heq ▸ .modify w id (fun _ => rfl) fun _ => ⟨rfl, rfl, rfl, rfl, rfl, fun h => h⟩)
  | _ => exact .inl (.of_nodes rfl rfl)

/-- An id that was issued belongs to nobody or to a node that is marked. -/
def Marked (id : NodeId) (w : World) : Prop :=
  id.value ≤ w.registry.lastId ∧ ∀ n, w.node? id = some n → n.initialized = true

theorem Persists.marked (h : Persists w w') (hw : Marked id w) : Marked id w' := by
  refine ⟨Nat.le_trans hw.1 h.lastId, fun m hm => ?_⟩
  rcases h.nodes id m hm with ⟨n, hn, hmn⟩ | ⟨hnew, -⟩
  · exact hmn.marked (hw.2 n hn)
  · exact absurd hw.1 (Nat.not_le_of_lt hnew)

/-- **A node that is marked stays so** along every run, by induction on it. -/
theorem Leads.marked (h : Leads types w w') (hw : Marked id w) : Marked id w' := by
  induction h with
  | refl => exact hw
  | tail _ hc ih =>
    rcases hc.persists with h | ⟨other, time, -, rfl⟩
    · exact h.marked ih
    · have hmodify : ∀ (v : World) (f : Node → Node),
          (∀ n, (f n).id = n.id ∧ (f n).initialized = n.initialized) → Marked id v → Marked id (v.modify other f) := by
        intro v f hf hv
        refine ⟨hv.1, fun m hm => ?_⟩
        rw [node?_modify v other id fun n => (hf n).1] at hm
        obtain ⟨n, hn, rfl⟩ := Option.map_eq_some_iff.1 hm
        split
        · exact (hf n).2.trans (hv.2 n hn)
        · exact hv.2 n hn
      exact runSetUp_induction other time (fun v => hmodify v _ fun _ => ⟨rfl, rfl⟩) (fun _ hv => hv)
        (fun _ _ hv => hv) (fun v _ => hmodify v _ fun _ => ⟨rfl, rfl⟩) ih

end World

end SceneGraph
