import SceneGraph.Proofs.World.Identity

/-!
# What operations are made of

Every operation on the nodes of a world is put together from a few parts: notes in the journal, changes of
a node that leave the values of its type alone, stores into a field, nodes that go, and phases in which nodes are
held or a field is on the cascade stack (`World.Unfolds`). What each of these parts preserves every operation
preserves, however deep its cascades go.

* `unfolds_receive`, `unfolds_release`: what a node does with a value, and letting go.
* `unfolds_setField`, `unfolds_emitField`, `unfolds_initializeNode`, `unfolds_update`: whole operations.
* `Unfolds.held`, `Unfolds.cascade`, `Unfolds.isLive`: handles and the cascade stack are as before, and a node that
  is held from outside stays.
* `Unfolds.moves`: nodes go, but nothing else changes what nodes are told apart by.
-/

namespace SceneGraph

/-- Messages, events and the hooks of a set-up; such an entry changes nothing by itself. -/
def Entry.isNote : Entry → Bool
  | .log .. | .event _ | .step (.followed ..) | .step (.adopting _) | .step (.settingUp _) => true
  | _ => false

/-- A behaviour that decides itself which of the node's fields a value goes into. -/
def Behavior.reacts : Behavior → Bool
  | grouping | filter | recorder _ => true
  | plain | dynamic | timer | touch => false

namespace Node

/-- The node may store into the field when a value is set from outside. -/
def Takes (n : Node) (name : String) : Prop :=
  n.behavior.reacts = true ∨ (n.access? name).any (·.set) = true

/-- A later state of a node in which all values of its type are as before, apart from references to nodes. -/
structure Succeeds (m n : Node) : Prop where
  identity : m.identity = n.identity
  fields : ∀ i f, i < n.spec.entries.length → n.fields[i]? = some f → f.kind.type ≠ .node →
    m.fields[i]? = some f

theorem Succeeds.of_fields {m n : Node} (hidentity : m.identity = n.identity) (hfields : m.fields = n.fields) :
    Succeeds m n := ⟨hidentity, fun _ _ _ hf _ => hfields ▸ hf⟩

theorem succeeds_forget (n : Node) : Succeeds n.forget n where
  identity := rfl
  fields i f hi hf hkind := by
    have hentry : n.spec.entries[i]? = some n.spec.entries[i] := List.getElem?_eq_getElem hi
    have hzip : (n.fields.zip n.spec.entries)[i]? = some (f, n.spec.entries[i]) :=
      List.getElem?_zip_eq_some.2 ⟨hf, hentry⟩
    change ((n.fields.zip n.spec.entries).map _)[i]? = some f
    rw [List.getElem?_map, hzip]
    exact congrArg some (if_neg hkind)

end Node

namespace World

variable {own own' : Slot → Prop} {u v w w' : World} {n : Node} {id : NodeId} {name : String} {value : Field}

/-- Something is done that only such entries of the journal tell of. -/
def Writes (p : Entry → Prop) (w w' : World) : Prop := ∃ news, w'.journal = news ++ w.journal ∧ ∀ e ∈ news, p e

namespace Writes

variable {p : Entry → Prop}

theorem refl (w : World) : Writes p w w := ⟨[], rfl, by simp⟩

theorem trans (h : Writes p u v) (h' : Writes p v w) : Writes p u w := by
  obtain ⟨news, hnews, hp⟩ := h
  obtain ⟨more, hmore, hp'⟩ := h'
  refine ⟨more ++ news, by rw [hmore, hnews, List.append_assoc], fun e he => ?_⟩
  exact (List.mem_append.1 he).elim (hp' e) (hp e)

theorem enter (w : World) {e : Entry} (he : p e) : Writes p w (w.enter e) :=
  ⟨[e], rfl, fun _ hmem => List.mem_singleton.1 hmem ▸ he⟩

theorem foldl {α : Type} {act : World → α → World} (hact : ∀ w a, Writes p w (act w a)) (w : World) (l : List α) :
    Writes p w (l.foldl act w) := by
  induction l generalizing w with
  | nil => exact refl w
  | cons a rest ih => exact (hact w a).trans (ih (act w a))

theorem mono {q : Entry → Prop} (h : Writes p w w') (hpq : ∀ e, p e → q e) : Writes q w w' := by
  obtain ⟨news, hnews, hp⟩ := h
  exact ⟨news, hnews, fun e he => hpq e (hp e he)⟩

/-- What is read off other entries stays. -/
theorem filterMap_journal {α : Type} {f : Entry → Option α} (h : Writes (f · = none) w w') :
    w'.journal.reverse.filterMap f = w.journal.reverse.filterMap f := by
  obtain ⟨news, hnews, hnone⟩ := h
  have hnothing : news.reverse.filterMap f = [] :=
    List.filterMap_eq_nil_iff.2 fun e he => hnone e (List.mem_reverse.1 he)
  rw [hnews, List.reverse_append, List.filterMap_append, hnothing, List.append_nil]

end Writes

/-- A node that goes is noted, after what its behaviour has to tell. -/
theorem writes_destroy (w : World) (n : Node) :
    Writes (fun e => e.isNote = true ∨ e = .step (.destroyed n.id)) w (w.destroy n) := by
  have hleave : Writes (·.isNote = true) w (w.takeLeave n) := by
    have hunlink : ∀ (v : World) (c : NodeId), Writes (·.isNote = true) v ((v.removeParent c n.id).detach n.id c) := by
      intro v c
      obtain heq | ⟨a, b, heq⟩ := detach_cases (v.removeParent c n.id) n.id c <;> rw [heq]
      · exact .refl v
      · exact .enter (v.removeParent c n.id) rfl
    obtain heq | heq | heq := takeLeave_cases w n <;> rw [heq]
    · exact .refl w
    · exact .enter w rfl
    · exact .foldl hunlink w _
  have hreport : Writes (·.isNote = true) (w.takeLeave n) ((w.takeLeave n).reportParents n.id) := by
    obtain heq | ⟨text, heq⟩ := reportParents_cases (w.takeLeave n) n.id <;> rw [heq]
    · exact .refl _
    · exact .enter _ rfl
  have hremove : ∀ v : World, Writes (· = .step (.destroyed n.id)) v (v.remove n) := fun v =>
    ⟨[.step (.destroyed n.id)], rfl, fun _ he => List.mem_singleton.1 he⟩
  exact ((hleave.trans hreport).mono fun _ => .inl).trans ((hremove _).mono fun _ => .inr)

/-- What comes out of a world by the parts that operations are made of. Without being asked from outside, nodes
store into the `own` fields only. -/
inductive Unfolds (own : Slot → Prop) : World → World → Prop
  | refl (w : World) : Unfolds own w w
  | trans {u v w : World} (h : Unfolds own u v) (h' : Unfolds own v w) : Unfolds own u w
  | enter (w : World) {e : Entry} (he : e.isNote = true) : Unfolds own w (w.enter e)
  /-- Parents, marks, routes or fields of its own change, or references to nodes go. -/
  | modify (w : World) (id : NodeId) {f : Node → Node} (hf : ∀ n, (f n).Succeeds n) : Unfolds own w (w.modify id f)
  | store {w : World} {n : Node} {name : String} {old value : Field} (hn : w.node? n.id = some n)
      (hold : n.field? name = some old) (hkind : old.kind = value.kind) (hname : n.Takes name ∨ own (n.id, name)) :
      Unfolds own w ((w.modify n.id (·.store name value)).step (.stored n.id name value))
  | destroy {w : World} {n : Node} (hn : w.node? n.id = some n) (hfree : w.isHeld n.id = false) :
      Unfolds own w (w.destroy n)
  /-- Nodes are held for a while. -/
  | holding {w w' : World} (ids : List NodeId) (h : Unfolds own (w.holdAll ids) w') :
      Unfolds own w { w' with held := ids.foldl List.erase w'.held }
  /-- A field is on the cascade stack for a while. -/
  | entered {u v w : World} {id : NodeId} {name : String} (hin : u.enterCascade id name = some v)
      (h : Unfolds own v w) : Unfolds own u w.leaveCascade

namespace Unfolds

theorem mono (h : Unfolds own w w') (hown : ∀ s, own s → own' s) : Unfolds own' w w' := by
  induction h with
  | refl w => exact .refl w
  | trans _ _ ih ih' => exact ih.trans ih'
  | enter w he => exact .enter w he
  | modify w id hf => exact .modify w id hf
  | store hn hold hkind hname => exact .store hn hold hkind (hname.imp_right (hown _))
  | destroy hn hfree => exact .destroy hn hfree
  | holding ids _ ih => exact .holding ids ih
  | entered hin _ ih => exact .entered hin ih

theorem foldl {α : Type} {act : World → α → World} (hact : ∀ w a, Unfolds own w (act w a)) (w : World)
    (l : List α) : Unfolds own w (l.foldl act w) := by
  induction l generalizing w with
  | nil => exact refl w
  | cons a rest ih => exact (hact w a).trans (ih (act w a))

/-- Nobody gets another identity. -/
theorem identity (h : Unfolds own w w') {m : Node} (hm : w'.node? id = some m) :
    ∃ n, w.node? id = some n ∧ m.identity = n.identity := by
  induction h generalizing m with
  | refl w => exact ⟨m, hm, rfl⟩
  | trans _ _ ih ih' =>
    obtain ⟨k, hk, hmk⟩ := ih' hm
    obtain ⟨n, hn, hkn⟩ := ih hk
    exact ⟨n, hn, hmk.trans hkn⟩
  | enter w he => exact ⟨m, hm, rfl⟩
  | modify w a hf =>
    rw [node?_modify w a id fun n => congrArg Identity.id (hf n).identity] at hm
    obtain ⟨n, hn, rfl⟩ := Option.map_eq_some_iff.1 hm
    refine ⟨n, hn, ?_⟩
    split
    · exact (hf n).identity
    · rfl
  | @store w a name old value ha hold hkind hname =>
    change (w.modify a.id (·.store name value)).node? id = some m at hm
    rw [node?_modify w a.id id fun n => n.store_id name value] at hm
    obtain ⟨n, hn, rfl⟩ := Option.map_eq_some_iff.1 hm
    refine ⟨n, hn, ?_⟩
    split
    · exact n.identity_store name value
    · rfl
  | destroy _ _ =>
    rw [node?_destroy] at hm
    split at hm
    · cases hm
    · obtain ⟨k, hk, rfl⟩ := Option.map_eq_some_iff.1 hm
      exact ⟨k, hk, rfl⟩
  | holding ids _ ih => exact ih hm
  | entered hin _ ih =>
    obtain ⟨n, hn, hmn⟩ := ih hm
    exact ⟨n, (node?_congr (nodes_enterCascade hin)).symm.trans hn, hmn⟩

/-- The handles are the same as before. -/
theorem held (h : Unfolds own w w') : w'.held = w.held := by
  induction h with
  | trans _ _ ih ih' => exact ih'.trans ih
  | holding ids _ ih => rw [ih]; exact foldl_erase_append ids _
  | entered hin _ ih =>
    obtain ⟨-, rfl⟩ := enterCascade_eq_some hin
    exact ih
  | destroy _ _ => exact held_destroy _ _
  | refl | enter | modify | store => rfl

/-- Every field that is put on the cascade stack is taken off again. -/
theorem cascade (h : Unfolds own w w') : w'.cascade = w.cascade := by
  induction h with
  | trans _ _ ih ih' => exact ih'.trans ih
  | holding ids _ ih => exact ih
  | entered hin _ ih =>
    obtain ⟨-, rfl⟩ := enterCascade_eq_some hin
    exact congrArg List.tail ih
  | destroy _ _ => exact cascade_destroy _ _
  | refl | enter | modify | store => rfl

/-- No id is handed out. -/
theorem lastId (h : Unfolds own w w') : w'.registry.lastId = w.registry.lastId := by
  induction h with
  | trans _ _ ih ih' => exact ih'.trans ih
  | holding ids _ ih => exact ih
  | entered hin _ ih =>
    obtain ⟨-, rfl⟩ := enterCascade_eq_some hin
    exact ih
  | destroy _ _ => exact lastId_destroy _ _
  | refl | enter | modify | store => rfl

/-- A node that is held from outside stays. -/
theorem isLive (h : Unfolds own w w') (hid : id ∈ w.held) (hlive : w.isLive id = true) : w'.isLive id = true := by
  induction h with
  | refl w => exact hlive
  | trans h _ ih ih' => exact ih' (h.held ▸ hid) (ih hid hlive)
  | enter w he => exact hlive
  | modify w a hf => rwa [isLive_modify w a fun n => congrArg Identity.id (hf n).identity]
  | @store w n name _ value =>
    exact (congrFun (isLive_modify w n.id fun m => m.store_id name value) id).trans hlive
  | @destroy w n _ hfree =>
    have hne : id ≠ n.id := by
      rintro rfl
      simp [isHeld, hid] at hfree
    obtain ⟨m, hm⟩ := isLive_iff.1 hlive
    rw [isLive_iff, node?_destroy, if_neg hne, hm]
    exact ⟨_, rfl⟩
  | holding ids _ ih => exact ih (List.mem_append_right ids hid) hlive
  | entered hin _ ih =>
    obtain ⟨-, rfl⟩ := enterCascade_eq_some hin
    exact ih hid hlive

end Unfolds

/-- The registry and the identities of the nodes are left as they are, but for nodes that are destroyed. -/
theorem Unfolds.moves (h : Unfolds own w w') : Moves w w' := by
  induction h with
  | refl w => exact .refl w
  | trans _ _ ih ih' => exact ih.trans ih'
  | enter w _ => exact .of_kept (.enter w _)
  | modify w id hf => exact .of_kept (.modify w id fun n => (hf n).identity)
  | store _ _ _ _ => exact .of_kept ((Kept.store _ _ _ _).trans (.enter _ _))
  | destroy hn _ => exact .single (.destroyed _ _ hn)
  | @holding w w' ids _ ih =>
    have hheld : Kept w (w.holdAll ids) := ⟨rfl, rfl⟩
    have hunheld : Kept w' { w' with held := ids.foldl List.erase w'.held } := ⟨rfl, rfl⟩
    exact ((Moves.of_kept hheld).trans ih).trans (.of_kept hunheld)
  | @entered u v w id name hin _ ih =>
    obtain ⟨-, rfl⟩ := enterCascade_eq_some hin
    have hentered : Kept u ({ u with cascade := (id, name) :: u.cascade }.step (.entered id name)) := ⟨rfl, rfl⟩
    have hleft : Kept w w.leaveCascade := ⟨rfl, rfl⟩
    exact ((Moves.of_kept hentered).trans ih).trans (.of_kept hleft)

/-! ### Letting go -/

theorem unfolds_release (ids : List NodeId) (w : World) : Unfolds own w (release ids w) :=
  release_induction (I := Unfolds own w) (fun _ _ hn hfree h => h.trans (.destroy hn hfree)) ids (.refl w)

/-- Nodes that were held for a while are let go of. -/
theorem Unfolds.dropped {ids : List NodeId} (h : Unfolds own (w.holdAll ids) w') : Unfolds own w (w'.dropAll ids) :=
  (h.holding ids).trans (unfolds_release ids _)

theorem moves_dropAll (w : World) (ids : List NodeId) : Moves w (w.dropAll ids) := by
  have hunheld : Kept w { w with held := ids.foldl List.erase w.held } := ⟨rfl, rfl⟩
  have hrelease : Unfolds (fun _ => False) { w with held := ids.foldl List.erase w.held } (w.dropAll ids) :=
    unfolds_release ids _
  exact (Moves.of_kept hunheld).trans hrelease.moves

/-! ### Reactions -/

theorem unfolds_reparent (w : World) (id : NodeId) (g : List (NodeId × Nat) → List (NodeId × Nat)) :
    Unfolds own w (w.modify id fun n => { n with parents := g n.parents }) :=
  .modify w id fun _ => .of_fields rfl rfl

theorem unfolds_attach (w : World) (p c : NodeId) : Unfolds own w (w.attach p c) := by
  obtain heq | ⟨a, b, heq⟩ := attach_cases w p c <;> rw [heq]
  · exact .refl w
  · exact .enter w rfl

theorem unfolds_detach (w : World) (p c : NodeId) : Unfolds own w (w.detach p c) := by
  obtain heq | ⟨a, b, heq⟩ := detach_cases w p c <;> rw [heq]
  · exact .refl w
  · exact .enter w rfl

theorem unfolds_link (w : World) (p c : NodeId) : Unfolds own w (w.link p c) :=
  (unfolds_reparent w c (Node.addParent p)).trans (unfolds_attach _ p c)

theorem unfolds_unlink (w : World) (p c : NodeId) : Unfolds own w (w.unlink p c) :=
  (unfolds_reparent w c (Node.removeParent p)).trans (unfolds_detach _ p c)

/-- The node may store into the field. -/
def Permits (own : Slot → Prop) (w : World) (id : NodeId) (name : String) : Prop :=
  ∀ n, w.node? id = some n → n.Takes name ∨ own (id, name)

/-- The behaviour of the node decides what it stores. -/
def Reacts (w : World) (id : NodeId) : Prop := ∀ n, w.node? id = some n → n.behavior.reacts = true

theorem Reacts.permits (h : Reacts w id) (name : String) : Permits own w id name :=
  fun n hn => .inl (.inl (h n hn))

theorem Reacts.unfolds (h : Reacts w id) (hw : Unfolds own w w') : Reacts w' id := by
  intro m hm
  obtain ⟨n, hn, hmn⟩ := hw.identity hm
  exact (congrArg (·.behavior.reacts) hmn).trans (h n hn)

theorem unfolds_assign (h : Permits own w id name) (value : Field) (after : Aftermath) :
    Unfolds own w (w.assign id name value after).2.2 := by
  obtain heq | ⟨n, old, hn, hold, hkind, heq⟩ := assign_cases w id name value after <;> rw [heq]
  · exact .refl w
  · obtain rfl := id_of_node? hn
    exact .store hn hold hkind (h n hn)

theorem unfolds_emit (h : Permits own w id name) (value : Field) (after : Aftermath) :
    Unfolds own w (w.emit id name value after).2.2 := by
  rw [emit_world]
  exact unfolds_assign h value after

theorem unfolds_emitBoth (h : Reacts w id) (a b : String × Field) : Unfolds own w (w.emitBoth id a b).2.2 := by
  have hfirst : Unfolds own w (w.emit id a.1 a.2 {}).2.2 := unfolds_emit (h.permits a.1) a.2 {}
  unfold emitBoth
  split
  · rename_i heq
    rw [heq] at hfirst
    exact hfirst.trans (unfolds_emit ((h.unfolds hfirst).permits b.1) b.2 _)
  · exact hfirst

theorem unfolds_filterInput (h : Reacts w id) (name : String) (value : Field) :
    Unfolds own w (w.filterInput id name value).2.2 := by
  unfold filterInput
  split
  · exact unfolds_assign (h.permits name) value {}
  · split
    · exact unfolds_emitBoth h _ _
    · exact .refl w

theorem unfolds_bumpCount (h : Reacts w id) (time : Timestamp) : Unfolds own w (w.bumpCount id time).2.2 := by
  unfold bumpCount
  split
  · rename_i n hn
    split
    · rename_i count hcount
      obtain ⟨old, hold, hkind⟩ := value_ok hcount
      obtain rfl := id_of_node? hn
      exact .store hn hold hkind (.inl (.inl (h n hn)))
    · exact .enter w rfl
  · exact .refl w

theorem unfolds_recordInput (h : Reacts w id) (name : String) (value : Field) :
    Unfolds own w (w.recordInput id name value).2.2 := by
  unfold recordInput
  dsimp only
  split
  · exact .refl w
  split
  · exact unfolds_emit (h.permits _) value {}
  split
  · exact unfolds_emitBoth h _ _
  split
  · exact unfolds_bumpCount h _
  split
  · unfold survey
    split
    · exact .enter w rfl
    · exact .refl w
  · exact unfolds_assign (h.permits name) value {}

theorem unfolds_accept (w : World) (id : NodeId) (proposed : List NodeId) :
    Unfolds own w (w.accept id proposed).2.2 := by
  refine .foldl (fun w c => ?_) w _
  obtain heq | ⟨text, heq⟩ := logRejected_cases w id c <;> rw [heq]
  · exact .refl w
  · exact .enter w rfl

theorem unfolds_storeChildren (h : Reacts w id) (old new : List NodeId) (time : Timestamp) (after : Aftermath) :
    Unfolds own w (w.storeChildren id old new time after).2 := by
  obtain heq | ⟨n, f, hn, hold, hkind, heq⟩ := storeChildren_cases w id old new time after <;> rw [heq]
  · exact .refl w
  · obtain rfl := id_of_node? hn
    exact .store hn hold hkind (.inl (.inl (h n hn)))

theorem unfolds_replaceChildren (h : Reacts w id) (old new : List NodeId) (time : Timestamp) (after : Aftermath) :
    Unfolds own w (w.replaceChildren id old new time after).2 := by
  have hlink : Unfolds own w (new.foldl (link · id ·) (old.foldl (unlink · id ·) w)) :=
    (Unfolds.foldl (fun w c => unfolds_unlink w id c) w old).trans
      (Unfolds.foldl (fun w c => unfolds_link w id c) _ new)
  unfold replaceChildren
  dsimp only
  split
  · exact hlink.trans (unfolds_storeChildren (h.unfolds hlink) old new time after)
  · exact unfolds_storeChildren h old new time after

theorem unfolds_changeChildren (h : Reacts w id) (name : String) (value : Field) :
    Unfolds own w (w.changeChildren id name value).2.2 := by
  have haccepted : ∀ proposed old new time after,
      Unfolds own w ((w.accept id proposed).2.2.replaceChildren id old new time after).2 := by
    intro proposed old new time after
    have haccept : Unfolds own w (w.accept id proposed).2.2 := unfolds_accept w id proposed
    exact haccept.trans (unfolds_replaceChildren (h.unfolds haccept) old new time after)
  unfold changeChildren
  split
  · exact .refl w
  dsimp only
  split
  · exact haccepted _ _ _ _ _
  split
  · exact haccepted _ _ _ _ _
  · exact unfolds_replaceChildren h _ _ _ _

/-- Children are stored by grouping nodes only. -/
theorem unfolds_adoptChildren (h : Reacts w id) : Unfolds own w (w.adoptChildren id).2 := by
  have haccept : Unfolds own w (w.accept id (w.children id)).2.2 := unfolds_accept w id _
  have hclaim : ∀ (v : World) (l : List NodeId), Unfolds own v (l.foldl (fun w c => w.addParent c id) v) :=
    .foldl fun v c => unfolds_reparent v c (Node.addParent id)
  unfold adoptChildren
  dsimp only
  split
  · exact (haccept.trans (unfolds_storeChildren (h.unfolds haccept) _ _ _ _)).trans (hclaim _ _)
  · exact haccept.trans (hclaim _ _)

theorem unfolds_changeField (hn : w.node? n.id = some n) (hset : (n.access? name).any (·.set) = true)
    (value : Field) : Unfolds own w (w.changeField n name value).2.2 := by
  have hreacts : n.behavior.reacts = true → Reacts w n.id := fun hb m hm =>
    Option.some.inj (hn.symm.trans hm) ▸ hb
  have hassign : Unfolds own w (w.assign n.id name value {}).2.2 :=
    unfolds_assign (fun m hm => .inl (.inr (Option.some.inj (hn.symm.trans hm) ▸ hset))) value {}
  unfold changeField
  split
  · rename_i hb
    split
    · exact unfolds_changeChildren (hreacts (by rw [hb]; rfl)) name value
    · exact hassign
  · rename_i hb
    exact unfolds_filterInput (hreacts (by rw [hb]; rfl)) name value
  · rename_i hb
    have htold : Unfolds own w (w.tell (.changing n.id name n.initialized)) := .enter w rfl
    exact htold.trans (unfolds_recordInput ((hreacts (by rw [hb]; rfl)).unfolds htold) name value)
  · exact hassign

theorem unfolds_noticeChange (w : World) (id : NodeId) (name : String) :
    Unfolds own w (w.noticeChange id name) := by
  obtain heq | ⟨value, heq⟩ := noticeChange_cases w id name <;> rw [heq]
  · exact .refl w
  · exact .enter w rfl

/-- What a node does with a value from outside. -/
theorem unfolds_receive (hn : w.node? n.id = some n) (name : String) (value : Field) :
    Unfolds own w (w.receive n name value).2.2 := by
  unfold receive
  split
  · exact .refl w
  rename_i access haccess
  split
  · exact .refl w
  rename_i hset
  have hset : (n.access? name).any (·.set) = true := by
    rw [haccess]
    simpa using hset
  split
  · have h : Unfolds own w (w.changeField n name value).2.2 := unfolds_changeField hn hset value
    split <;> (rename_i heq; rwa [heq] at h)
  split
  · exact .refl w
  split
  · exact .refl w
  dsimp only
  have h : Unfolds own w (w.assign n.id name value {}).2.2 :=
    unfolds_assign (fun m hm => .inl (.inr (Option.some.inj (hn.symm.trans hm) ▸ hset))) value {}
  split
  · exact h.trans (unfolds_noticeChange _ _ _)
  · exact h

/-- What a node does with a value of its own making. -/
theorem unfolds_produce (n : Node) (name : String) (value : Field) (w : World) :
    Unfolds (· = (n.id, name)) w (w.produce n name value).2.2 := by
  have hpermits : Permits (· = (n.id, name)) w n.id name := fun _ _ => .inr rfl
  obtain ⟨e, heq⟩ | ⟨old, -, -, heq⟩ := produce_cases w n name value <;> rw [heq]
  · exact .refl w
  · exact unfolds_assign hpermits value {}

/-! ### Cascades -/

/-- The parts of a cascade unfold. -/
def unfolding (own : Slot → Prop) : CascadeRule :=
  .unconditional (Unfolds own) .refl .trans (fun w _ _ => .enter w rfl) (fun w ids => unfolds_release ids w)
    (fun _ h => h.dropped) .entered (fun _ name value hn => unfolds_receive hn name value)
    fun w _ _ _ _ => .enter w rfl

theorem unfolds_settle (depth : Nat) (n : Node) (after : Aftermath) (w : World) :
    Unfolds own w (settle (deliverUpTo depth) n after w) :=
  (unfolding own).settle ((unfolding own).deliverUpTo depth) trivial n after

/-- What goes out of a field after a change. -/
theorem unfolds_conclude (depth : Nat) (n : Node) (name : String)
    (r : Except NodeError Unit × Aftermath × World) :
    Unfolds own r.2.2 (conclude (deliverUpTo depth) n name r).2 :=
  ((unfolding own).conclude ((unfolding own).deliverUpTo depth) trivial n name (.refl r.2.2)).1

theorem unfolds_setField (w : World) (id : NodeId) (name : String) (value : Field) :
    Unfolds own w (w.setField id name value).2 := (unfolding own).setField trivial trivial id name

theorem unfolds_emitField (w : World) (id : NodeId) (name : String) (value : Field) :
    Unfolds (· = (id, name)) w (w.emitField id name value).2 :=
  (unfolding _).emitField trivial fun n w' _ hid _ => hid ▸ unfolds_produce n name value w'

/-- An output that takes a value of its kind stores it first. -/
theorem emitField_of_kind {old : Field} (hn : w.node? n.id = some n) (hfree : (n.id, name) ∉ w.cascade)
    (hold : n.field? name = some old) (hkind : old.kind = value.kind) :
    ∃ v, Unfolds (fun _ => False) ((({ w with cascade := (n.id, name) :: w.cascade }.step (.entered n.id name)).modify
        n.id (·.store name value)).step (.stored n.id name value)) v ∧
      w.emitField n.id name value = (.ok (), v.leaveCascade) := by
  have hin : w.enterCascade n.id name =
      some ({ w with cascade := (n.id, name) :: w.cascade }.step (.entered n.id name)) :=
    if_neg (by simpa using hfree)
  generalize { w with cascade := (n.id, name) :: w.cascade }.step (.entered n.id name) = w' at hin ⊢
  have hn' : w'.node? n.id = some n := (node?_congr (nodes_enterCascade hin)).trans hn
  have hproduce := produce_eq hn' hold hkind
  have h : Unfolds (fun _ => False) (w'.produce n name value).2.2
      (conclude (deliverUpTo w.cascadeDepth) n name (w'.produce n name value)).2 := unfolds_conclude _ n name _
  rw [emitField_eq, launch, hn]
  dsimp only
  rw [hin]
  dsimp only
  rw [hproduce] at h ⊢
  exact ⟨_, h, rfl⟩

theorem unfolds_initField (w : World) (id : NodeId) (name : String) (value : Field) :
    Unfolds (· = (id, name)) w (w.initField id name value).2 := by
  unfold initField
  split
  · exact .refl w
  rename_i n hn
  obtain rfl := id_of_node? hn
  have h := unfolds_produce n name value w
  split
  rename_i heq
  rw [heq] at h
  exact h.trans (unfolds_release _ _)

/-! ### Setting nodes up -/

theorem unfolds_runAdopt (w : World) (id : NodeId) : Unfolds own w (w.runAdopt id) := by
  unfold runAdopt
  split
  · rename_i n hn
    obtain rfl := id_of_node? hn
    have hbegun : Unfolds own w (w.step (.adopting n.id)) := .enter w rfl
    have hadopt : Unfolds own (w.step (.adopting n.id)) ((w.step (.adopting n.id)).adopt n).2 := by
      obtain ⟨hb, heq⟩ | ⟨-, heq | heq⟩ := adopt_cases (w.step (.adopting n.id)) n <;> rw [heq]
      · refine unfolds_adoptChildren (.unfolds (fun m hm => ?_) hbegun)
        rw [← Option.some.inj (hn.symm.trans hm), hb]
        rfl
      · exact .refl _
      · exact .enter _ rfl
    exact (hbegun.trans hadopt).trans (unfolds_settle _ n _ _)
  · exact .refl w

theorem unfolds_runSetUp (w : World) (id : NodeId) (time : Timestamp) : Unfolds own w (w.runSetUp id time) :=
  runSetUp_induction id time (fun v hv => hv.trans (.modify v id fun _ => .of_fields rfl rfl))
    (fun v hv => hv.trans (.enter v rfl)) (fun v _ hv => hv.trans (.enter v rfl))
    (fun v _ hv => hv.trans (.modify v id fun _ => .of_fields rfl rfl)) (.refl w)

theorem unfolds_forReferences {act : World → NodeId → World} (hact : ∀ w id, Unfolds own w (act w id)) (w : World)
    (id : NodeId) : Unfolds own w (w.forReferences id act) := .dropped (.foldl hact _ _)

/-- By induction on how deep setting up goes. -/
theorem unfolds_initializeUpTo (time : Timestamp) (depth : Nat) (w : World) (id : NodeId) :
    Unfolds own w (initializeUpTo time depth w id) := by
  induction depth generalizing w id with
  | zero => exact .refl w
  | succ depth ih =>
    unfold initializeUpTo
    split
    · exact .refl w
    split
    · exact .refl w
    have hmark : Unfolds own w (w.modify id fun n => { n with initialized := true }) :=
      .modify w id fun _ => .of_fields rfl rfl
    exact ((hmark.trans (unfolds_runAdopt _ id)).trans (unfolds_forReferences ih _ id)).trans
      (unfolds_runSetUp _ id time)

theorem unfolds_initializeNode (w : World) (id : NodeId) (time : Timestamp) :
    Unfolds own w (w.initializeNode id time) := unfolds_initializeUpTo time _ w id

theorem unfolds_reinitializeNode (w : World) (id : NodeId) (time : Timestamp) :
    Unfolds own w (w.reinitializeNode id time) := by
  unfold reinitializeNode
  split
  · exact (unfolds_forReferences (fun w id => unfolds_initializeNode w id time) w id).trans
      (unfolds_runSetUp _ id time)
  · exact unfolds_initializeNode w id time

/-! ### Fields of a node's own, routes, giving up -/

theorem unfolds_addField (w : World) (id : NodeId) (name : String) (value : Field) :
    Unfolds own w (w.addField id name value).2 := by
  obtain ⟨-, heq⟩ | ⟨e, heq⟩ | ⟨n, -, -, -, heq⟩ := addField_cases w id name value <;> rw [heq]
  · exact .refl w
  · exact .refl w
  · exact .modify w id fun _ => .of_fields rfl rfl

theorem unfolds_removeField (w : World) (id : NodeId) (name : String) :
    Unfolds own w (w.removeField id name).2 := by
  obtain ⟨-, heq⟩ | ⟨e, heq⟩ | ⟨n, old, -, -, heq⟩ := removeField_cases w id name <;> rw [heq]
  · exact .refl w
  · exact .refl w
  · refine .trans ?_ (unfolds_release _ _)
    exact .modify w id fun _ => .of_fields rfl rfl

theorem unfolds_addConnection (w : World) (id : NodeId) (output : String) (route : Route) :
    Unfolds own w (w.addConnection id output route).2 := by
  obtain heq | ⟨routes, heq⟩ := addConnection_cases w id output route <;> rw [heq]
  · exact .refl w
  · exact .modify w id fun _ => .of_fields rfl rfl

theorem unfolds_removeConnection (w : World) (id : NodeId) (output : String) (route : Route) :
    Unfolds own w (w.removeConnection id output route).2 := by
  obtain heq | ⟨routes, heq⟩ := removeConnection_cases w id output route <;> rw [heq]
  · exact .refl w
  · exact .modify w id fun _ => .of_fields rfl rfl

/-- A node that is given up loses its name first. -/
theorem unfolds_discard (w : World) (id : NodeId) : Unfolds own (w.setName id "") (w.discard id) := by
  have hforget : Unfolds own (w.setName id "") ((w.setName id "").modify id Node.forget) :=
    .modify _ id fun n => n.succeeds_forget
  exact hforget.trans (unfolds_release _ _)

theorem moves_discard (w : World) (id : NodeId) : Moves (w.setName id "") (w.discard id) := by
  have h : Unfolds (fun _ => False) (w.setName id "") (w.discard id) := unfolds_discard w id
  exact h.moves

/-! ### Sensors -/

theorem unfolds_emitOutput (w : World) (n : Node) (name : String) (value : Field) :
    Unfolds (·.1 = n.id) w (w.emitOutput n name value) := by
  have h : Unfolds (·.1 = n.id) w (w.emitField n.id name value).2 :=
    (unfolds_emitField w n.id name value).mono fun _ hs => congrArg Prod.fst hs
  unfold emitOutput
  split <;> (rename_i heq; rw [heq] at h)
  · exact h
  · exact h.trans (.enter _ rfl)

/-- A node that is updated stores only its own fields without being asked. -/
theorem unfolds_update (hn : w.node? id = some n) (time : Timestamp) :
    Unfolds (·.1 = id) (w.step (.updating id)) (w.update id time) := by
  obtain rfl := id_of_node? hn
  unfold update
  rw [hn]
  dsimp only
  split
  · exact updateTimer_induction (I := Unfolds (·.1 = n.id) (w.step (.updating n.id))) n time
      (fun _ _ h => h.trans (.enter _ rfl)) (fun _ _ _ _ _ h => h.trans (unfolds_emitOutput _ n _ _)) (.refl _)
  · have hemit := unfolds_emitField ((w.step (.updating n.id)).tell (.updated n.id time)) n.id "time"
      (.single .time time.seconds time)
    exact (Unfolds.enter _ rfl).trans (hemit.mono fun _ hs => congrArg Prod.fst hs)
  · exact .refl _

/-- A node that is offered a mouse event stores only its own fields without being asked. -/
theorem unfolds_mouseEvent (hn : w.node? id = some n) (e : MouseEvent) (now : Timestamp) :
    Unfolds (·.1 = id) (w.step (.offeringInput id)) (w.mouseEvent id e now).2 := by
  obtain rfl := id_of_node? hn
  unfold mouseEvent
  rw [hn]
  dsimp only
  split
  · exact touch_induction (I := Unfolds (·.1 = n.id) (w.step (.offeringInput n.id))) n e now
      (fun _ _ _ _ _ h => h.trans (unfolds_emitOutput _ n _ _)) (.refl _)
  · exact .enter _ rfl
  · exact .refl _

theorem unfolds_keyEvent (hn : w.node? id = some n) (e : KeyEvent) :
    Unfolds own (w.step (.offeringInput id)) (w.keyEvent id e).2 := by
  unfold keyEvent
  rw [hn]
  dsimp only
  split
  · exact .enter _ rfl
  · exact .refl _

end World

end SceneGraph
