import SceneGraph.Proofs.World.Reachable

/-!
# What nodes are told apart by

The registry knows of each node what it is told apart by (`Node.identity`). Many operations leave that and the
registry as they are, apart from nodes that they destroy on their way. This holds of every world, sound or not.

* `World.Kept`: the registry and the identities of the nodes are the same.
* `World.Moves`: they are, but for nodes that are destroyed.
-/

namespace SceneGraph

/-- What a node is told apart by. Its fields, its parents, its routes and how far it is set up have nothing
to do with it. -/
structure Identity where
  id : NodeId
  name : String
  spec : Specification
  behavior : Behavior
  environment : Environment

def Node.identity (n : Node) : Identity := ⟨n.id, n.name, n.spec, n.behavior, n.environment⟩

@[simp] theorem Node.identity_store (n : Node) (name : String) (f : Field) :
    (n.store name f).identity = n.identity := by simp [identity]

namespace World

variable {w w' w'' : World}

/-- The identities of the live nodes. -/
def identities (w : World) : List Identity := w.nodes.map Node.identity

/-- The registry and the identities of the live nodes are the same as before. -/
structure Kept (w w' : World) : Prop where
  registry : w'.registry = w.registry
  identities : w'.identities = w.identities

namespace Kept

theorem refl (w : World) : Kept w w := ⟨rfl, rfl⟩

/-- A node that is made is listed last. -/
theorem registry_addNode (h : Kept w.nextId.2 w') (spec : Specification) (b : Behavior) (env : Environment) :
    (w'.addNode w.nextId.1 spec b env).registry =
      { w.registry with
        lastId := w.registry.lastId + 1
        ids := w.registry.ids ++ [w.nextId.1]
        updating := w.registry.updating ++ if b.capabilities.update then [w.nextId.1] else []
        sensing := w.registry.sensing ++ if b.capabilities.event then [w.nextId.1] else [] } := by
  have hregistry : w'.registry = { w.registry with lastId := w.registry.lastId + 1 } := h.registry
  have hregister : (w'.addNode w.nextId.1 spec b env).registry = w'.registry.register w.nextId.1 b.capabilities := rfl
  rw [hregister, hregistry, Registry.register_eq]

theorem trans (h : Kept w w') (h' : Kept w' w'') : Kept w w'' :=
  ⟨h'.registry.trans h.registry, h'.identities.trans h.identities⟩

theorem enter (w : World) (e : Entry) : Kept w (w.enter e) := ⟨rfl, rfl⟩

theorem modify (w : World) (id : NodeId) {f : Node → Node} (hf : ∀ n, (f n).identity = n.identity) :
    Kept w (w.modify id f) := by
  refine ⟨rfl, ?_⟩
  rw [World.identities, World.modify, List.map_map]
  refine List.map_congr_left fun n _ => ?_
  by_cases hn : n.id = id <;> simp [hn, hf]

theorem store (w : World) (id : NodeId) (name : String) (value : Field) :
    Kept w (w.modify id (·.store name value)) := .modify w id fun n => n.identity_store name value

theorem reparents {g : NodeId → List (NodeId × Nat) → List (NodeId × Nat)} (h : Reparents g w w') :
    Kept w w' := by
  refine ⟨h.registry, ?_⟩
  rw [World.identities, h.nodes, List.map_map]
  rfl

theorem foldl {α : Type} {act : World → α → World} (hact : ∀ w a, Kept w (act w a)) (w : World)
    (l : List α) : Kept w (l.foldl act w) := by
  induction l generalizing w with
  | nil => exact refl w
  | cons a rest ih => exact (hact w a).trans (ih (act w a))

end Kept

/-- One step of an operation. -/
inductive Move : World → World → Prop
  | kept {w w' : World} (h : Kept w w') : Move w w'
  | destroyed (w : World) (n : Node) (hn : w.node? n.id = some n) : Move w (w.destroy n)

/-- Nothing happens to the registry and to the identities of the nodes, except that some nodes are
destroyed. -/
def Moves : World → World → Prop := Relation.ReflTransGen Move

namespace Moves

theorem refl (w : World) : Moves w w := Relation.ReflTransGen.refl

theorem trans (h : Moves w w') (h' : Moves w' w'') : Moves w w'' := Relation.ReflTransGen.trans h h'

theorem of_kept (h : Kept w w') : Moves w w' := Relation.ReflTransGen.single (.kept h)

end Moves

/-! ### Nodes that go -/

theorem kept_takeLeave (w : World) (n : Node) : Kept w ((w.takeLeave n).reportParents n.id) := by
  refine (Kept.reparents (reparents_takeLeave w n)).trans ?_
  obtain heq | ⟨text, heq⟩ := reportParents_cases (w.takeLeave n) n.id <;> rw [heq]
  · exact .refl _
  · exact .enter _ _

theorem registry_destroy (w : World) (n : Node) :
    (w.destroy n).registry = w.registry.unregister n.id n.name := by
  rw [← (kept_takeLeave w n).registry]
  rfl

theorem lastId_destroy (w : World) (n : Node) : (w.destroy n).registry.lastId = w.registry.lastId := by
  rw [registry_destroy]
  exact Registry.lastId_removeName ..

/-! ### Children -/

theorem keeps_storeChildren (w : World) (id : NodeId) (old new : List NodeId) (time : Timestamp)
    (after : Aftermath) : Kept w (w.storeChildren id old new time after).2 := by
  obtain heq | ⟨n, f, -, -, -, heq⟩ := storeChildren_cases w id old new time after <;> rw [heq]
  · exact .refl w
  · exact (Kept.store w id childrenField _).trans (.enter _ _)

theorem keeps_replaceChildren (w : World) (id : NodeId) (old new : List NodeId) (time : Timestamp)
    (after : Aftermath) : Kept w (w.replaceChildren id old new time after).2 := by
  unfold replaceChildren
  dsimp only
  split
  · exact (Kept.reparents (reparents_relink w id old new)).trans (keeps_storeChildren _ id old new time after)
  · exact keeps_storeChildren w id old new time after

theorem keeps_accept (w : World) (id : NodeId) (proposed : List NodeId) :
    Kept w (w.accept id proposed).2.2 := .reparents (accept_spec w id proposed).2

theorem keeps_adoptChildren (w : World) (id : NodeId) : Kept w (w.adoptChildren id).2 := by
  have haccept := keeps_accept w id (w.children id)
  have hclaim : ∀ (v : World) (l : List NodeId), Kept v (l.foldl (fun w c => w.addParent c id) v) :=
    .foldl fun v c => .modify v c fun _ => rfl
  unfold adoptChildren
  dsimp only
  split
  · exact (haccept.trans (keeps_storeChildren _ id _ _ _ _)).trans (hclaim _ _)
  · exact haccept.trans (hclaim _ _)

/-! ### Fields of a node's own and routes -/

theorem keeps_addField (w : World) (id : NodeId) (name : String) (value : Field) :
    Kept w (w.addField id name value).2 := by
  obtain ⟨-, heq⟩ | ⟨e, heq⟩ | ⟨n, -, -, -, heq⟩ := addField_cases w id name value <;> rw [heq]
  · exact .refl w
  · exact .refl w
  · exact .modify w id fun _ => rfl

theorem keeps_addConnection (w : World) (id : NodeId) (output : String) (route : Route) :
    Kept w (w.addConnection id output route).2 := by
  obtain heq | ⟨routes, heq⟩ := addConnection_cases w id output route <;> rw [heq]
  · exact .refl w
  · exact .modify w id fun _ => rfl

end World

end SceneGraph
