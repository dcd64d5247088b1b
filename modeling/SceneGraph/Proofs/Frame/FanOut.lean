import SceneGraph.Proofs.World.Registration
import SceneGraph.World.Frame

/-!
# Frames and input reach every subscriber once

The nodes that a frame or an input event is meant for are those of the moment when it comes. They are held until
their turn is over, so none of them goes before its turn, whatever the hooks of the others do: make nodes, run
cascades, let go of every handle but those of the fan-out (`World.Errand`).

* `Errand.keeps`: a hook spares the nodes that the fan-out holds.
* `exists_rounds`: every node has one turn, and is there when it comes.
* `turns_update`, `turns_mouseEvent`, `turns_keyEvent`: a turn is nobody else's turn.
* `fan_out_reaches_each_once`: frames, mouse events and key events after any calls.
-/

namespace SceneGraph

/-- The turn of a node that an entry tells of. -/
def Entry.turn? : Entry → Option Step
  | .step (.updating id) => some (.updating id)
  | .step (.offeringInput id) => some (.offeringInput id)
  | _ => none

/-- A node that takes part in the frames of a library, or in all frames. -/
def Node.joins (library : Option String) (n : Node) : Bool :=
  n.capabilities.update && library.all (n.environment.library == ·)

namespace World

variable {α : Type} {u v w w' : World} {ids kept : List NodeId} {id : NodeId} {h : History}

/-! ### What a hook may do -/

/-- What a hook may do: call anything, write into the journal, and let go of any handle but those that are kept for
later turns. -/
inductive Errand (kept : List NodeId) : World → World → Prop
  | refl (w : World) : Errand kept w w
  | call {v w : World} (h : Errand kept v w) (c : Call) (hc : ∀ id, c ≠ .drop id) : Errand kept v (c.run w)
  | enter {v w : World} (h : Errand kept v w) (e : Entry) : Errand kept v (w.enter e)
  | drop {v w : World} (h : Errand kept v w) (id : NodeId) (hspare : (id :: kept).Subperm w.held) :
      Errand kept v (w.drop id)

/-- **A hook spares the nodes that are kept.** -/
theorem Errand.keeps (h : Errand kept w w') : Keeps kept w w' := by
  induction h with
  | refl => exact .refl w
  | call _ c hc ih => exact ih.trans (c.keeps _ fun id _ => hc id)
  | enter _ e ih => exact ih.trans (.of_suffix (List.suffix_refl _) fun _ hlive => hlive)
  | drop _ id hspare ih => exact ih.trans (.drop hspare)

/-! ### Turns -/

/-- Some nodes have their turns, one after the other: each is there when its turn comes, its hook runs, and its
handle is let go of. Every turn is listed with the answer of the hook. -/
inductive Rounds (hook : World → NodeId → α × World) : World → List (NodeId × α) → World → Prop
  | done (w : World) : Rounds hook w [] w
  | turn {w w' : World} {id : NodeId} {turns : List (NodeId × α)} (hlive : w.isLive id = true)
      (h : Rounds hook ((hook w id).2.drop id) turns w') : Rounds hook w ((id, (hook w id).1) :: turns) w'

/-- As long as turns are left, hooks let go of no handle that is kept for them. -/
def Considerate (hook : World → NodeId → α × World) : World → List NodeId → Prop
  | _, [] => True
  | w, id :: rest => Errand (id :: rest) w (hook w id).2 ∧ Considerate hook ((hook w id).2.drop id) rest

/-- **Every node has its turn**: none of them goes before, because it is held. By induction on the nodes that are
left. -/
theorem exists_rounds {hook : World → NodeId → α × World} (hheld : ids.Subperm w.held)
    (hlive : ∀ id ∈ ids, w.isLive id = true) (hhook : Considerate hook w ids) :
    ∃ turns w', Rounds hook w turns w' ∧ turns.map (·.1) = ids := by
  induction ids generalizing w with
  | nil => exact ⟨[], w, .done w, rfl⟩
  | cons id rest ih =>
    obtain ⟨herrand, hrest⟩ := hhook
    obtain ⟨hheld', hlive'⟩ := herrand.keeps hheld
    have hsub : rest.Subperm (hook w id).2.held := (List.sublist_cons_self id rest).subperm.trans hheld'
    obtain ⟨hheld'', hlive''⟩ := Keeps.drop hheld' hsub
    have hleft : ∀ r ∈ rest, ((hook w id).2.drop id).isLive r = true := fun r hr => by
      have hr' : r ∈ id :: rest := List.mem_cons_of_mem id hr
      exact hlive'' r hr (hlive' r hr' (hlive r hr'))
    obtain ⟨turns, w', hrounds, rfl⟩ := ih hheld'' hleft hrest
    exact ⟨(id, (hook w id).1) :: turns, w', .turn (hlive id List.mem_cons_self) hrounds, rfl⟩

namespace Rounds

variable {hook : World → NodeId → α × World} {turns : List (NodeId × α)}

/-- Where the turns lead. -/
theorem foldl_eq (h : Rounds hook w turns w') :
    (turns.map (·.1)).foldl (fun w id => (hook w id).2.drop id) w = w' := by
  induction h with
  | done => rfl
  | turn _ _ ih => exact ih

/-- Something that is offered is handled if one of the answers is yes. Everybody is asked, also after that. -/
theorem foldl_offer_eq {offer : World → NodeId → Bool × World} {turns : List (NodeId × Bool)}
    (h : Rounds offer w turns w') (handled : Bool) :
    (turns.map (·.1)).foldl
      (fun (handled, w) id =>
        let (h, w) := offer w id
        (handled || h, w.drop id))
      (handled, w) = (handled || turns.any (·.2), w') := by
  induction h generalizing handled with
  | done => exact congrArg (·, _) (Bool.or_false handled).symm
  | turn _ _ ih => exact (ih _).trans (congrArg (·, _) (Bool.or_assoc ..))

end Rounds

/-- The nodes that are held for a fan-out have their turns. -/
theorem exists_rounds_holdAll {hook : World → NodeId → α × World} (hlive : ∀ id ∈ ids, w.isLive id = true)
    (hhook : Considerate hook (w.holdAll ids) ids) :
    ∃ turns w', Rounds hook (w.holdAll ids) turns w' ∧ turns.map (·.1) = ids :=
  exists_rounds (List.sublist_append_left ids w.held).subperm hlive hhook

/-! ### Turns as calls -/

/-- The calls of a fan-out: all handles are taken, and each turn ends with letting go of its own. -/
def turnCalls (ids : List NodeId) (c : NodeId → Call) : List Call :=
  ids.reverse.map .hold ++ ids.flatMap fun id => [c id, .drop id]

theorem mem_turnCalls {c : NodeId → Call} {d : Call} (hd : d ∈ turnCalls ids c) :
    ∃ id, d = .hold id ∨ d = c id ∨ d = .drop id := by
  obtain hd | hd := List.mem_append.1 hd
  · obtain ⟨id, -, rfl⟩ := List.mem_map.1 hd
    exact ⟨id, .inl rfl⟩
  · obtain ⟨id, -, hd⟩ := List.mem_flatMap.1 hd
    exact ⟨id, .inr (by simpa using hd)⟩

theorem foldl_hold (w : World) (ids : List NodeId) :
    (ids.reverse.map Call.hold).foldl (fun w c => c.run w) w = w.holdAll ids := by
  induction ids with
  | nil => rfl
  | cons id rest ih =>
    rw [List.reverse_cons, List.map_append, List.foldl_append, ih]
    rfl

theorem foldl_turnCalls (w : World) (ids : List NodeId) (c : NodeId → Call) :
    (turnCalls ids c).foldl (fun w d => d.run w) w =
      ids.foldl (fun w id => ((c id).run w).drop id) (w.holdAll ids) := by
  rw [turnCalls, List.foldl_append, foldl_hold, List.foldl_flatMap]
  rfl

theorem updateAll_eq_calls (w : World) (time : Timestamp) (library : Option String) :
    (turnCalls (w.frameNodes library) (.update · time)).foldl (fun w d => d.run w) w = w.updateAll time library :=
  foldl_turnCalls w _ _

/-- Whether somebody handled an offer changes nothing. -/
theorem snd_offerAll (w : World) (offer : World → NodeId → Bool × World) :
    (w.offerAll offer).2 =
      w.registry.sensing.foldl (fun w id => (offer w id).2.drop id) (w.holdAll w.registry.sensing) := by
  unfold offerAll
  generalize w.registry.sensing = ids, w.holdAll w.registry.sensing = v, false = handled
  induction ids generalizing v handled with
  | nil => rfl
  | cons id rest ih => exact ih ..

theorem mouseEventAll_eq_calls (w : World) (e : MouseEvent) (now : Timestamp) :
    (turnCalls w.registry.sensing (.mouse · e now)).foldl (fun w d => d.run w) w = (w.mouseEventAll e now).2 :=
  (foldl_turnCalls w _ _).trans (snd_offerAll w _).symm

theorem keyEventAll_eq_calls (w : World) (e : KeyEvent) :
    (turnCalls w.registry.sensing (.key · e)).foldl (fun w d => d.run w) w = (w.keyEventAll e).2 :=
  (foldl_turnCalls w _ _).trans (snd_offerAll w _).symm

/-! ### Turns in the journal -/

/-- The turns that nodes had, the first one first. -/
def turns (w : World) : List Step := w.journal.reverse.filterMap Entry.turn?

theorem turns_step (w : World) {s : Step} (hs : (Entry.step s).turn? = some s) : (w.step s).turns = w.turns ++ [s] := by
  change ((Entry.step s :: w.journal).reverse).filterMap Entry.turn? = _
  rw [List.reverse_cons, List.filterMap_append, List.filterMap_cons_some hs]
  rfl

/-- What unfolds in a turn is no turn. -/
theorem Unfolds.writes {own : Slot → Prop} (h : Unfolds own w w') : Writes (·.turn? = none) w w' := by
  have hnote : ∀ e : Entry, e.isNote = true → e.turn? = none := by
    intro e he
    unfold Entry.isNote at he
    split at he <;> first | rfl | cases he
  induction h with
  | refl w => exact .refl w
  | trans _ _ ih ih' => exact ih.trans ih'
  | enter w he => exact .enter w (hnote _ he)
  | modify w id hf => exact .refl w
  | store _ _ _ _ => exact .enter _ rfl
  | destroy _ _ => exact (writes_destroy _ _).mono fun e he => he.elim (hnote e) fun he => he ▸ rfl
  | holding ids _ ih => exact ih
  | @entered u v w id name hin _ ih =>
    obtain ⟨-, rfl⟩ := enterCascade_eq_some hin
    have hentered : Writes (·.turn? = none) u ({ u with cascade := (id, name) :: u.cascade }.step (.entered id name)) :=
      .enter u rfl
    have hleft : Writes (·.turn? = none) w w.leaveCascade := .enter w rfl
    exact (hentered.trans ih).trans hleft

theorem turns_drop (w : World) (id : NodeId) : (w.drop id).turns = w.turns := by
  have hrelease : Unfolds (fun _ => False) { w with held := w.held.erase id } (w.drop id) := unfolds_release [id] _
  exact hrelease.writes.filterMap_journal

theorem turns_update (hlive : w.isLive id = true) (time : Timestamp) :
    (w.update id time).turns = w.turns ++ [.updating id] := by
  obtain ⟨n, hn⟩ := isLive_iff.1 hlive
  exact (unfolds_update hn time).writes.filterMap_journal.trans (turns_step w rfl)

theorem turns_mouseEvent (hlive : w.isLive id = true) (e : MouseEvent) (now : Timestamp) :
    (w.mouseEvent id e now).2.turns = w.turns ++ [.offeringInput id] := by
  obtain ⟨n, hn⟩ := isLive_iff.1 hlive
  exact (unfolds_mouseEvent hn e now).writes.filterMap_journal.trans (turns_step w rfl)

theorem turns_keyEvent (hlive : w.isLive id = true) (e : KeyEvent) :
    (w.keyEvent id e).2.turns = w.turns ++ [.offeringInput id] := by
  obtain ⟨n, hn⟩ := isLive_iff.1 hlive
  have h : Unfolds (fun _ => False) (w.step (.offeringInput id)) (w.keyEvent id e).2 := unfolds_keyEvent hn e
  exact h.writes.filterMap_journal.trans (turns_step w rfl)

/-- If every hook is one turn, the journal lists the turns of a fan-out. -/
theorem Rounds.turns_eq {hook : World → NodeId → α × World} {answers : List (NodeId × α)} {s : NodeId → Step}
    (hhook : ∀ (w : World) (id : NodeId), w.isLive id = true → (hook w id).2.turns = w.turns ++ [s id])
    (h : Rounds hook w answers w') : w'.turns = w.turns ++ answers.map (s ·.1) := by
  induction h with
  | done w => exact (List.append_nil _).symm
  | turn hlive _ ih =>
    rw [ih, turns_drop, hhook _ _ hlive, List.append_assoc]
    rfl

/-! ### Who is meant -/

/-- Each of the nodes that are meant has one turn, in the order in which they were made. -/
structure Reaches (h : History) (meant : Node → Bool) (w : World) (hook : World → NodeId → α × World)
    (turns : List (NodeId × α)) (w' : World) : Prop where
  once : (turns.map (·.1)).Nodup
  inOrder : (turns.map (·.1)).Sublist h.issued
  exactly : ∀ id, id ∈ turns.map (·.1) ↔ ∃ n, w.node? id = some n ∧ meant n = true
  rounds : Rounds hook (w.holdAll (turns.map (·.1))) turns w'

/-- If every hook is one turn, the journal lists who was reached. -/
theorem Reaches.turns_eq {meant : Node → Bool} {hook : World → NodeId → α × World} {turns : List (NodeId × α)}
    {s : NodeId → Step} (h' : Reaches h meant w hook turns w')
    (hhook : ∀ (w : World) (id : NodeId), w.isLive id = true → (hook w id).2.turns = w.turns ++ [s id]) :
    w'.turns = w.turns ++ turns.map (s ·.1) := by
  have hturns := h'.rounds.turns_eq hhook
  exact hturns

/-- A fan-out over the nodes that are meant reaches them. -/
theorem exists_reaches (hw : Run h w) {meant : Node → Bool}
    (hids : ids = h.issued.filter fun id => (w.node? id).any meant) {hook : World → NodeId → α × World}
    (hhook : Considerate hook (w.holdAll ids) ids) :
    ∃ turns w', turns.map (·.1) = ids ∧ Reaches h meant w hook turns w' := by
  have hmem : ∀ id, id ∈ ids ↔ ∃ n, w.node? id = some n ∧ meant n = true := by
    intro id
    rw [hids, List.mem_filter, Option.any_eq_true]
    refine and_iff_right_of_imp fun ⟨n, hn, _⟩ => ?_
    exact hw.recorded.live.subset (mem_liveIds.2 (isLive_of_node? hn))
  have hlive : ∀ id ∈ ids, w.isLive id = true := fun id hid =>
    have ⟨_, hn, _⟩ := (hmem id).1 hid
    isLive_of_node? hn
  obtain ⟨turns, w', hrounds, rfl⟩ := exists_rounds_holdAll hlive hhook
  have hsub : (turns.map (·.1)).Sublist h.issued := hids ▸ List.filter_sublist
  exact ⟨turns, w', rfl, (registry_consistent hw).distinct.sublist hsub, hsub, hmem, hrounds⟩

theorem frameNodes_eq (hw : Run h w) (library : Option String) :
    w.frameNodes library = h.issued.filter fun id => (w.node? id).any (Node.joins library) := by
  rw [frameNodes, (registry_consistent hw).updating, List.filter_filter]
  refine List.filter_congr fun id _ => ?_
  cases library <;> cases w.node? id <;> simp [Node.joins, Bool.and_comm]

/-- Nodes that take part in frames have their turns in a fan-out. -/
theorem fanOut_reaches (hw : Run h w) (library : Option String) {act : World → NodeId → World}
    (hact : Considerate (fun w id => ((), act w id)) (w.holdAll (w.frameNodes library)) (w.frameNodes library)) :
    ∃ turns, Reaches h (Node.joins library) w (fun w id => ((), act w id)) turns
      (w.fanOut (w.frameNodes library) act) := by
  obtain ⟨turns, w', hturns, hreaches⟩ := exists_reaches hw (frameNodes_eq hw library) hact
  have hlast : w.fanOut (w.frameNodes library) act = w' := by
    have hfold := hreaches.rounds.foldl_eq
    rw [hturns] at hfold
    exact hfold
  exact ⟨turns, hlast ▸ hreaches⟩

/-- Nodes that receive input have their turns in an offer. -/
theorem offerAll_reaches (hw : Run h w) {offer : World → NodeId → Bool × World}
    (hoffer : Considerate offer (w.holdAll w.registry.sensing) w.registry.sensing) :
    ∃ turns, Reaches h (·.capabilities.event) w offer turns (w.offerAll offer).2 ∧
      ((w.offerAll offer).1 = true ↔ ∃ t ∈ turns, t.2 = true) := by
  obtain ⟨turns, w', hturns, hreaches⟩ := exists_reaches hw (registry_consistent hw).sensing hoffer
  have hlast : w.offerAll offer = (turns.any (·.2), w') := by
    have hfold := hreaches.rounds.foldl_offer_eq false
    rw [hturns] at hfold
    exact hfold
  rw [hlast]
  exact ⟨turns, hreaches, List.any_eq_true⟩

/-- A hook that is one call of the host may be left to itself. -/
theorem considerate_of_call {hook : World → NodeId → α × World} (c : NodeId → Call)
    (hc : ∀ id r, c id ≠ .drop r) (hhook : ∀ w id, (hook w id).2 = (c id).run w) (w : World) (ids : List NodeId) :
    Considerate hook w ids := by
  induction ids generalizing w with
  | nil => trivial
  | cons id rest ih => exact ⟨hhook w id ▸ (Errand.refl w).call (c id) (hc id), ih _⟩

/-- **Frames and input reach every subscriber once.** After any calls, and whatever hooks do with the world as long
as they let go of no handle that the fan-out keeps for later turns: a frame reaches exactly the live nodes that take
part in the frames of the library, or in frames at all if none is given, and an offer reaches exactly the live nodes
that receive input. Each has one turn, in the order in which they were made, and is there when it comes; an offer goes on
after somebody handled it, and is handled if one of the answers is yes. The hooks that there are do so, and the
journal tells of these turns and no others. -/
theorem fan_out_reaches_each_once (hw : Run h w) :
    (∀ library act,
      Considerate (fun w id => ((), act w id)) (w.holdAll (w.frameNodes library)) (w.frameNodes library) →
      ∃ turns, Reaches h (Node.joins library) w (fun w id => ((), act w id)) turns
        (w.fanOut (w.frameNodes library) act)) ∧
    (∀ offer, Considerate offer (w.holdAll w.registry.sensing) w.registry.sensing →
      ∃ turns, Reaches h (·.capabilities.event) w offer turns (w.offerAll offer).2 ∧
        ((w.offerAll offer).1 = true ↔ ∃ t ∈ turns, t.2 = true)) ∧
    (∀ time library, ∃ turns,
      Reaches h (Node.joins library) w (fun w id => ((), w.update id time)) turns (w.updateAll time library) ∧
        (w.updateAll time library).turns = w.turns ++ turns.map (.updating ·.1)) ∧
    (∀ e now, ∃ turns,
      Reaches h (·.capabilities.event) w (fun w id => w.mouseEvent id e now) turns (w.mouseEventAll e now).2 ∧
        ((w.mouseEventAll e now).1 = true ↔ ∃ t ∈ turns, t.2 = true) ∧
        (w.mouseEventAll e now).2.turns = w.turns ++ turns.map (.offeringInput ·.1)) ∧
    ∀ e, ∃ turns,
      Reaches h (·.capabilities.event) w (fun w id => w.keyEvent id e) turns (w.keyEventAll e).2 ∧
        ((w.keyEventAll e).1 = true ↔ ∃ t ∈ turns, t.2 = true) ∧
        (w.keyEventAll e).2.turns = w.turns ++ turns.map (.offeringInput ·.1) := by
  refine ⟨fun library act => fanOut_reaches hw library, fun offer => offerAll_reaches hw,
    fun time library => ?_, fun e now => ?_, fun e => ?_⟩
  · have hact : Considerate (fun w id => ((), w.update id time)) (w.holdAll (w.frameNodes library))
        (w.frameNodes library) :=
      considerate_of_call (.update · time) (fun _ _ => nofun) (fun _ _ => rfl) _ _
    obtain ⟨turns, hreaches⟩ := fanOut_reaches hw library hact
    exact ⟨turns, hreaches, hreaches.turns_eq fun w id hlive => turns_update hlive time⟩
  · have hoffer : Considerate (fun w id => w.mouseEvent id e now) (w.holdAll w.registry.sensing) w.registry.sensing :=
      considerate_of_call (.mouse · e now) (fun _ _ => nofun) (fun _ _ => rfl) _ _
    obtain ⟨turns, hreaches, hhandled⟩ := offerAll_reaches hw hoffer
    exact ⟨turns, hreaches, hhandled, hreaches.turns_eq fun w id hlive => turns_mouseEvent hlive e now⟩
  · have hoffer : Considerate (fun w id => w.keyEvent id e) (w.holdAll w.registry.sensing) w.registry.sensing :=
      considerate_of_call (.key · e) (fun _ _ => nofun) (fun _ _ => rfl) _ _
    obtain ⟨turns, hreaches, hhandled⟩ := offerAll_reaches hw hoffer
    exact ⟨turns, hreaches, hhandled, hreaches.turns_eq fun w id hlive => turns_keyEvent hlive e⟩

/-- The hook of a timer lets go of the last handle of another timer, and makes a third one. -/
theorem fan_out_reaches_each_once_lastHandle : ∃ h w, Run h w ∧ w.frameNodes none = [⟨1⟩, ⟨3⟩] ∧
    ∃ turns, Reaches h (Node.joins none) w
      (fun w id => ((), if id = ⟨1⟩ then (Call.create Catalog.standard "TimeSensor" .detached).run (w.drop ⟨3⟩) else w))
      turns (w.fanOut (w.frameNodes none) fun w id =>
        if id = ⟨1⟩ then (Call.create Catalog.standard "TimeSensor" .detached).run (w.drop ⟨3⟩) else w) := by
  have hmade := ((Run.empty.call (.create Catalog.standard "TimeSensor" .detached)).call
    (.create Catalog.standard "Group" .detached)).call (.create Catalog.standard "TimeSensor" .detached)
  refine ⟨_, _, hmade, rfl, (fan_out_reaches_each_once hmade).1 none _ ⟨?_, ?_, trivial⟩⟩
  · refine Errand.call (.drop (.refl _) ⟨3⟩ ?_) (.create Catalog.standard "TimeSensor" .detached) fun _ => nofun
    decide
  · exact .refl _

end World

end SceneGraph
