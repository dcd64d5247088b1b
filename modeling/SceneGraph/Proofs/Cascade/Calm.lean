import SceneGraph.Proofs.Cascade.Assignments
import SceneGraph.Proofs.World.Progress
import SceneGraph.World.Lifecycle
import Mathlib.Data.List.Flatten

/-!
# Between two moves of the cascade stack

Letting go of nodes and the reactions of a node leave the cascade stack alone, follow no route and make
no node; what routes and rights depend on stays as it is at every node that is left (`World.Calm`).
This holds of any world, sound or not.

* `calm_release`, `calm_receive`, `calm_produce`: the parts of a cascade between two moves.
-/

namespace SceneGraph

/-- The entry tells neither of the cascade stack nor of a route. -/
def Entry.isCalm : Entry → Bool
  | .step (.entered ..) | .step .left | .step (.followed ..) => false
  | _ => true

/-- Two states of a node that agree on all that routes and rights depend on, and on the names of the
node's own fields. -/
structure Node.Resembles (m n : Node) : Prop where
  id : m.id = n.id
  spec : m.spec = n.spec
  behavior : m.behavior = n.behavior
  environment : m.environment = n.environment
  routes : m.routes = n.routes
  ownNames : m.dynamicNames = n.dynamicNames
  kinds : m.kind? = n.kind?
  rights : m.access? = n.access?

namespace Node

theorem Resembles.refl (n : Node) : Resembles n n := ⟨rfl, rfl, rfl, rfl, rfl, rfl, rfl, rfl⟩

theorem Resembles.trans {l m n : Node} (h : Resembles l m) (h' : Resembles m n) : Resembles l n :=
  ⟨h.id.trans h'.id, h.spec.trans h'.spec, h.behavior.trans h'.behavior,
    h.environment.trans h'.environment, h.routes.trans h'.routes, h.ownNames.trans h'.ownNames,
    h.kinds.trans h'.kinds, h.rights.trans h'.rights⟩

theorem Resembles.store {n : Node} {name : String} {old value : Field}
    (hold : n.field? name = some old) (hkind : old.kind = value.kind) :
    Resembles (n.store name value) n where
  id := store_id ..
  spec := store_spec ..
  behavior := store_behavior ..
  environment := store_environment ..
  routes := store_routes ..
  ownNames := dynamicNames_store ..
  kinds := funext (kind?_store hold hkind)
  rights := funext (access?_store n name · value)

end Node

namespace World

/-- The fields that routes leave, one entry for every route. -/
def departures (w : World) : List Slot :=
  w.nodes.flatMap fun n => n.connections.map fun c => (n.id, c.1)

/-- The handles and the cascade stack are the same as before, and no node or route has come. Nodes that
are set up stay so. -/
structure Retains (w w' : World) : Prop where
  held : w'.held = w.held
  cascade : w'.cascade = w.cascade
  departures : w'.departures.Sublist w.departures
  pending : w'.uninitializedCount ≤ w.uninitializedCount
  resembles : ∀ id m, w'.node? id = some m → ∃ n, w.node? id = some n ∧ m.Resembles n

/-- What is entered into the journal between two moments is calm, and all is retained. -/
structure Calm (w w' : World) : Prop extends Retains w w' where
  journal : ∃ news, w'.journal = news ++ w.journal ∧ ∀ e ∈ news, e.isCalm = true

variable {w w' w'' : World} {n : Node} {name : String} {value : Field}

namespace Retains

theorem refl (w : World) : Retains w w :=
  ⟨rfl, rfl, .refl _, Nat.le_refl _, fun _ m hm => ⟨m, hm, .refl m⟩⟩

theorem trans (h : Retains w w') (h' : Retains w' w'') : Retains w w'' where
  held := h'.held.trans h.held
  cascade := h'.cascade.trans h.cascade
  departures := h'.departures.trans h.departures
  pending := h'.pending.trans h.pending
  resembles id l hl := by
    obtain ⟨m, hm, hlm⟩ := h'.resembles id l hl
    obtain ⟨n, hn, hmn⟩ := h.resembles id m hm
    exact ⟨n, hn, hlm.trans hmn⟩

theorem isLive {id : NodeId} (h : Retains w w') (hid : w'.isLive id = true) : w.isLive id = true := by
  obtain ⟨m, hm⟩ := isLive_iff.1 hid
  obtain ⟨n, hn, -⟩ := h.resembles id m hm
  exact isLive_of_node? hn

theorem of_nodes (hn : w'.nodes = w.nodes) (hh : w'.held = w.held) (hc : w'.cascade = w.cascade) :
    Retains w w' where
  held := hh
  cascade := hc
  departures := by rw [World.departures, hn]; exact .refl _
  pending := by rw [uninitializedCount, hn]; exact Nat.le_refl _
  resembles id m hm := ⟨m, (node?_congr hn).symm.trans hm, .refl m⟩

/-- A change of the node that an id means, where nodes of that id keep their routes and are no less set
up. -/
theorem modify (w : World) (id : NodeId) {f : Node → Node} (hid : ∀ n, (f n).id = n.id)
    (hroutes : ∀ n, (f n).routes = n.routes)
    (hinit : ∀ n, n.initialized = true → (f n).initialized = true) (hf : ∀ n, w.node? id = some n → (f n).Resembles n) :
    Retains w (w.modify id f) where
  held := rfl
  cascade := rfl
  departures := by
    have heq : (w.modify id f).departures = w.departures := by
      rw [World.departures, World.modify, List.flatMap_map]
      apply List.flatMap_congr
      intro n _
      by_cases hn : n.id = id <;> simp [hn, Node.connections, hid, hroutes]
    rw [heq]
  pending := by
    rw [uninitializedCount, World.modify, List.countP_map]
    refine List.countP_mono_left fun n _ hn => ?_
    have hn' : n.initialized = true → (if n.id = id then f n else n).initialized = true := by
      split
      · exact hinit n
      · exact fun h => h
    simpa using mt hn' (by simpa using hn)
  resembles other m hm := by
    rw [node?_modify w id other hid] at hm
    obtain ⟨n, hn, rfl⟩ := Option.map_eq_some_iff.1 hm
    refine ⟨n, hn, ?_⟩
    split
    · rename_i hn'
      exact hf n (by rw [← hn', id_of_node? hn, hn])
    · exact .refl n

theorem remove (w : World) (n : Node) : Retains w (w.remove n) where
  held := rfl
  cascade := rfl
  departures := by
    have h : (w.nodes.filter (·.id != n.id)).Sublist w.nodes := List.filter_sublist
    exact h.flatMap _
  pending := List.Sublist.countP_le List.filter_sublist
  resembles id m hm := by
    rw [node?_remove] at hm
    split at hm
    · cases hm
    · exact ⟨m, hm, .refl m⟩

end Retains

namespace Calm

theorem refl (w : World) : Calm w w := ⟨.refl w, [], rfl, by simp⟩

theorem trans (h : Calm w w') (h' : Calm w' w'') : Calm w w'' := by
  obtain ⟨news, hnews, hcalm⟩ := h.journal
  obtain ⟨more, hmore, hcalm'⟩ := h'.journal
  refine ⟨h.toRetains.trans h'.toRetains, more ++ news, ?_, fun e he => ?_⟩
  · rw [hmore, hnews, List.append_assoc]
  · exact (List.mem_append.1 he).elim (hcalm' e) (hcalm e)

theorem enter (w : World) {e : Entry} (he : e.isCalm = true) : Calm w (w.enter e) :=
  ⟨.of_nodes rfl rfl rfl, [e], rfl, by simpa using he⟩

/-- What is retained while nothing is entered into the journal. -/
theorem of_retains (h : Retains w w') (hj : w'.journal = w.journal) : Calm w w' :=
  ⟨h, [], hj, by simp⟩

theorem foldl {α : Type} {act : World → α → World} (hact : ∀ w a, Calm w (act w a)) (w : World)
    (l : List α) : Calm w (l.foldl act w) := by
  induction l generalizing w with
  | nil => exact refl w
  | cons a rest ih => exact (hact w a).trans (ih (act w a))

/-- A change of a node that has nothing to do with its routes and rights. -/
theorem modify (w : World) (id : NodeId) {f : Node → Node} (hf : ∀ n, (f n).Resembles n)
    (hinit : ∀ n, (f n).initialized = n.initialized) : Calm w (w.modify id f) :=
  of_retains (.modify w id (fun n => (hf n).id) (fun n => (hf n).routes)
    (fun n h => (hinit n).trans h) fun n _ => hf n) rfl

/-- A field takes over a value of its kind. -/
theorem store {id : NodeId} {old : Field} (hn : w.node? id = some n)
    (hold : n.field? name = some old) (hkind : old.kind = value.kind) :
    Calm w ((w.modify id (·.store name value)).step (.stored id name value)) := by
  refine (of_retains (.modify w id (fun n => n.store_id name value)
    (fun n => n.store_routes name value) (fun n h => (n.store_initialized name value).trans h)
    fun m hm => ?_) rfl).trans (enter _ rfl)
  obtain rfl := Option.some.inj (hn.symm.trans hm)
  exact .store hold hkind

end Calm

/-! ### Letting go -/

theorem calm_detach (w : World) (p c : NodeId) : Calm w (w.detach p c) := by
  obtain heq | ⟨a, b, heq⟩ := detach_cases w p c <;> rw [heq]
  · exact .refl w
  · exact .enter w rfl

theorem calm_attach (w : World) (p c : NodeId) : Calm w (w.attach p c) := by
  obtain heq | ⟨a, b, heq⟩ := attach_cases w p c <;> rw [heq]
  · exact .refl w
  · exact .enter w rfl

theorem calm_unlink (w : World) (p c : NodeId) : Calm w (w.unlink p c) := by
  have h : Calm w (w.removeParent c p) :=
    .modify w c (fun _ => ⟨rfl, rfl, rfl, rfl, rfl, rfl, rfl, rfl⟩) fun _ => rfl
  exact h.trans (calm_detach _ p c)

theorem calm_link (w : World) (p c : NodeId) : Calm w (w.link p c) := by
  have h : Calm w (w.addParent c p) :=
    .modify w c (fun _ => ⟨rfl, rfl, rfl, rfl, rfl, rfl, rfl, rfl⟩) fun _ => rfl
  exact h.trans (calm_attach _ p c)

theorem calm_takeLeave (w : World) (n : Node) : Calm w (w.takeLeave n) := by
  obtain heq | heq | heq := takeLeave_cases w n <;> rw [heq]
  · exact .refl w
  · exact .enter w rfl
  · exact .foldl (fun w c => calm_unlink w n.id c) w _

theorem calm_destroy (w : World) (n : Node) : Calm w (w.destroy n) := by
  have hreport : ∀ w : World, Calm w (w.reportParents n.id) := by
    intro w
    obtain heq | ⟨text, heq⟩ := reportParents_cases w n.id <;> rw [heq]
    · exact .refl w
    · exact .enter w rfl
  have hremove : ∀ w : World, Calm w (w.remove n) := fun w =>
    ⟨.remove w n, [.step (.destroyed n.id)], rfl, by simp [Entry.isCalm]⟩
  exact ((calm_takeLeave w n).trans (hreport _)).trans (hremove _)

theorem calm_release (ids : List NodeId) (w : World) : Calm w (release ids w) :=
  release_induction (I := Calm w) (fun v n _ _ h => h.trans (calm_destroy v n)) ids (.refl w)

/-! ### Reactions -/

theorem calm_assign (w : World) (id : NodeId) (name : String) (value : Field) (after : Aftermath) :
    Calm w (w.assign id name value after).2.2 := by
  obtain heq | ⟨n, old, hn, hold, hkind, heq⟩ := assign_cases w id name value after <;> rw [heq]
  · exact .refl w
  · exact .store hn hold hkind

theorem calm_emit (w : World) (id : NodeId) (name : String) (value : Field) (after : Aftermath) :
    Calm w (w.emit id name value after).2.2 := by
  rw [emit_world]
  exact calm_assign w id name value after

theorem calm_emitBoth (w : World) (id : NodeId) (a b : String × Field) :
    Calm w (w.emitBoth id a b).2.2 := by
  have h := calm_emit w id a.1 a.2 {}
  unfold emitBoth
  split
  · rename_i heq
    rw [heq] at h
    exact h.trans (calm_emit _ id b.1 b.2 _)
  · exact h

theorem calm_filterInput (w : World) (id : NodeId) (name : String) (value : Field) :
    Calm w (w.filterInput id name value).2.2 := by
  unfold filterInput
  split
  · exact calm_assign w id name value {}
  · split
    · exact calm_emitBoth w id _ _
    · exact .refl w

theorem calm_bumpCount (w : World) (id : NodeId) (time : Timestamp) :
    Calm w (w.bumpCount id time).2.2 := by
  unfold bumpCount
  split
  · rename_i n hn
    split
    · rename_i count hcount
      obtain ⟨old, hold, hkind⟩ := value_ok hcount
      exact .store hn hold hkind
    · exact .enter w rfl
  · exact .refl w

theorem calm_recordInput (w : World) (id : NodeId) (name : String) (value : Field) :
    Calm w (w.recordInput id name value).2.2 := by
  unfold recordInput
  dsimp only
  split
  · exact .refl w
  split
  · exact calm_emit w id _ value {}
  split
  · exact calm_emitBoth w id _ _
  split
  · exact calm_bumpCount w id _
  split
  · unfold survey
    split
    · exact .enter w rfl
    · exact .refl w
  · exact calm_assign w id name value {}

theorem calm_accept (w : World) (id : NodeId) (proposed : List NodeId) :
    Calm w (w.accept id proposed).2.2 := by
  refine .foldl (fun w c => ?_) w _
  obtain heq | ⟨text, heq⟩ := logRejected_cases w id c <;> rw [heq]
  · exact .refl w
  · exact .enter w rfl

theorem calm_storeChildren (w : World) (id : NodeId) (old new : List NodeId) (time : Timestamp)
    (after : Aftermath) : Calm w (w.storeChildren id old new time after).2 := by
  obtain heq | ⟨n, f, hn, hold, hkind, heq⟩ := storeChildren_cases w id old new time after <;> rw [heq]
  · exact .refl w
  · exact .store hn hold hkind

theorem calm_replaceChildren (w : World) (id : NodeId) (old new : List NodeId) (time : Timestamp)
    (after : Aftermath) : Calm w (w.replaceChildren id old new time after).2 := by
  have hlink : Calm w (new.foldl (link · id ·) (old.foldl (unlink · id ·) w)) :=
    (Calm.foldl (fun w c => calm_unlink w id c) w old).trans
      (Calm.foldl (fun w c => calm_link w id c) _ new)
  unfold replaceChildren
  dsimp only
  split
  · exact hlink.trans (calm_storeChildren _ id old new time after)
  · exact calm_storeChildren w id old new time after

theorem calm_changeChildren (w : World) (id : NodeId) (name : String) (value : Field) :
    Calm w (w.changeChildren id name value).2.2 := by
  unfold changeChildren
  split
  · exact .refl w
  dsimp only
  split
  · exact (calm_accept w id _).trans (calm_replaceChildren _ id _ _ _ _)
  split
  · exact (calm_accept w id _).trans (calm_replaceChildren _ id _ _ _ _)
  · exact calm_replaceChildren w id _ _ _ _

theorem calm_changeField (w : World) (n : Node) (name : String) (value : Field) :
    Calm w (w.changeField n name value).2.2 := by
  unfold changeField
  split
  · split
    · exact calm_changeChildren w n.id name value
    · exact calm_assign w n.id name value {}
  · exact calm_filterInput w n.id name value
  · exact (Calm.enter w rfl).trans (calm_recordInput _ n.id name value)
  · exact calm_assign w n.id name value {}

theorem calm_noticeChange (w : World) (id : NodeId) (name : String) :
    Calm w (w.noticeChange id name) := by
  obtain heq | ⟨value, heq⟩ := noticeChange_cases w id name <;> rw [heq]
  · exact .refl w
  · exact .enter w rfl

/-- What a node does with a value from outside. -/
theorem calm_receive (w : World) (n : Node) (name : String) (value : Field) :
    Calm w (w.receive n name value).2.2 := by
  have hassign := calm_assign w n.id name value {}
  unfold receive
  split
  · exact .refl w
  split
  · exact .refl w
  split
  · have h := calm_changeField w n name value
    split <;> (rename_i heq; rwa [heq] at h)
  split
  · exact .refl w
  split
  · exact .refl w
  dsimp only
  split
  · exact hassign.trans (calm_noticeChange _ _ _)
  · exact hassign

/-- What a node does with a value of its own making. -/
theorem calm_produce (w : World) (n : Node) (name : String) (value : Field) :
    Calm w (w.produce n name value).2.2 := by
  obtain ⟨e, heq⟩ | ⟨old, -, -, heq⟩ := produce_cases w n name value <;> rw [heq]
  · exact .refl w
  · exact calm_assign w n.id name value {}

/-- Nodes that are held for a while are let go of again. -/
theorem Retains.holding {ids : List NodeId} (h : Retains (w.holdAll ids) w') :
    Retains w (w'.dropAll ids) := by
  have hunheld : Retains w { w' with held := ids.foldl List.erase w'.held } := by
    refine ⟨?_, h.cascade, h.departures, h.pending, h.resembles⟩
    change ids.foldl List.erase w'.held = w.held
    rw [h.held]
    exact foldl_erase_append ids w.held
  exact hunheld.trans (calm_release ids _).toRetains

/-! ### The stack -/

/-- A field is on the stack while something is done that retains the stack. -/
theorem Retains.framed {id : NodeId} (hin : w.enterCascade id name = some w')
    (h : Retains w' w'') : Retains w w''.leaveCascade := by
  obtain ⟨-, rfl⟩ := enterCascade_eq_some hin
  refine ⟨h.held, ?_, h.departures, h.pending, h.resembles⟩
  change w''.cascade.tail = w.cascade
  rw [h.cascade]
  rfl

end World

end SceneGraph
