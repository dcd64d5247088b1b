import Mathlib.Data.List.Perm.Subperm
import SceneGraph.Proofs.World.Unfolding

/-!
# What calls leave alone

A call makes a node, names one, changes the handles or begins a turn of a node at most at its very start
(`World.Call.opened`); the rest of it unfolds.

* `run_create`, `createScene_eq`: how a node is made.
* `Call.unfolds`: every call unfolds from the world in which it is opened.
* `Call.keeps`: a node that is held stays.
* `Call.moves`, `Call.cascade_run`: what nodes are told apart by, and the cascade stack.
* `Reachable.idle`: no cascade is left behind.
-/

namespace SceneGraph

namespace World

variable {own : Slot → Prop} {u v w w' : World} {kept : List NodeId} {id : NodeId}

/-! ### Making nodes -/

/-- A node that is made is added under the next id, and its layout is entered into the table. -/
theorem run_create (w : World) (catalog : Catalog) (typeName : String) (env : Environment) :
    (Call.create catalog typeName env).run w = w ∨ ∃ table spec b,
      (Call.create catalog typeName env).run w = ({ w with specifications := table }.create spec b env).2 := by
  rw [Call.run]
  split
  · rename_i made v hcreate
    obtain ⟨-, rfl⟩ | ⟨t, -, spec, u, hspec, -, rfl⟩ := createOfType_cases hcreate
    · exact .inl rfl
    · obtain ⟨table, rfl⟩ := specification_eq hspec
      exact .inr ⟨table, spec, t.behavior, rfl⟩
  · exact .inl rfl

theorem createScene_eq (w : World) (library filename : String) (renders : Bool) (time : Timestamp) :
    ∃ table spec b env, (Scene.create w library filename renders time).2 =
      ({ w with specifications := table }.create spec b env).2 := by
  unfold Scene.create
  dsimp only
  cases hspec : w.nextId.2.specification Scene.typeName groupingFields with
  | error e => exact ⟨w.specifications, _, .grouping, _, rfl⟩
  | ok r =>
    obtain ⟨spec, v⟩ := r
    obtain ⟨table, rfl⟩ := specification_eq hspec
    exact ⟨table, spec, .grouping, _, rfl⟩

/-! ### What stays -/

/-- Handles that are there stay, and so do the nodes that they hold. -/
def Keeps (kept : List NodeId) (w w' : World) : Prop :=
  kept.Subperm w.held → kept.Subperm w'.held ∧ ∀ id ∈ kept, w.isLive id = true → w'.isLive id = true

namespace Keeps

theorem refl (w : World) : Keeps kept w w := fun hheld => ⟨hheld, fun _ _ hlive => hlive⟩

theorem trans (h : Keeps kept u v) (h' : Keeps kept v w) : Keeps kept u w := by
  intro hheld
  obtain ⟨hv, hlive⟩ := h hheld
  obtain ⟨hw, hlive'⟩ := h' hv
  exact ⟨hw, fun id hid hu => hlive' id hid (hlive id hid hu)⟩

theorem of_unfolds {own : Slot → Prop} (h : Unfolds own w w') : Keeps kept w w' :=
  fun hheld => ⟨h.held ▸ hheld, fun _ hid hlive => h.isLive (hheld.subset hid) hlive⟩

/-- Something is added. -/
theorem of_suffix (hheld : w.held <:+ w'.held) (hlive : ∀ id, w.isLive id = true → w'.isLive id = true) :
    Keeps kept w w' :=
  fun hkept => ⟨hkept.trans hheld.sublist.subperm, fun id _ => hlive id⟩

/-- One handle is let go of that the others do without. -/
theorem drop (hspare : (id :: kept).Subperm w.held) : Keeps kept w (w.drop id) := by
  intro _
  have hheld : kept.Subperm (w.held.erase id) := by simpa using hspare.erase id
  have hrelease : Unfolds (fun _ => False) { w with held := w.held.erase id } (w.drop id) := unfolds_release [id] _
  have hkeeps : Keeps kept { w with held := w.held.erase id } (w.drop id) := of_unfolds hrelease
  exact hkeeps hheld

end Keeps

theorem isLive_setName (w : World) (id : NodeId) (name : String) : (w.setName id name).isLive = w.isLive := by
  obtain ⟨heq, -⟩ | ⟨n, -, -, heq⟩ := setName_cases w id name <;> rw [heq]
  exact isLive_modify w id (f := fun n => { n with name }) fun _ => rfl

/-! ### Calls -/

namespace Call

/-- The fields into which a call makes a node store of its own accord. -/
def Owns : Call → Slot → Prop
  | emitField id name _, s | initField id name _, s => s = (id, name)
  | update id _, s | mouse id _ _, s => s.1 = id
  | _, _ => False

/-- The world in which the turn of a node begins, if it is there. -/
def turn (w : World) (id : NodeId) (s : Step) : World := if w.isLive id then w.step s else w

/-- The world after the part of a call that makes a node, names it, changes the handles or begins a turn. -/
def opened (w : World) : Call → World
  | create catalog typeName environment => (create catalog typeName environment).run w
  | createScene library filename renders time => (createScene library filename renders time).run w
  | hold id => w.hold id
  | drop id => { w with held := w.held.erase id }
  | setName id name => w.setName id name
  | discard id => w.setName id ""
  | update id _ => turn w id (.updating id)
  | mouse id _ _ | key id _ => turn w id (.offeringInput id)
  | _ => w

/-- A turn does nothing if the node is not there. -/
theorem unfolds_turn {s : Step} (hgone : w.node? id = none → w' = w)
    (h : ∀ n, w.node? id = some n → Unfolds own (w.step s) w') : Unfolds own (turn w id s) w' := by
  unfold turn
  split
  · rename_i hlive
    obtain ⟨n, hn⟩ := isLive_iff.1 hlive
    exact h n hn
  · rename_i hlive
    have hnone : w.node? id = none := by
      cases hn : w.node? id with
      | none => rfl
      | some n => exact absurd (isLive_of_node? hn) hlive
    rw [hgone hnone]
    exact .refl w

/-- **Every call unfolds** from the world in which it is opened. -/
theorem unfolds (w : World) (c : Call) : Unfolds c.Owns (c.opened w) (c.run w) := by
  cases c with
  | create | createScene | hold | setName => exact .refl _
  | drop id => exact unfolds_release [id] _
  | setField id name value => exact unfolds_setField w id name value
  | emitField id name value => exact unfolds_emitField w id name value
  | initField id name value => exact unfolds_initField w id name value
  | addField id name value => exact unfolds_addField w id name value
  | removeField id name => exact unfolds_removeField w id name
  | addConnection id output route => exact unfolds_addConnection w id output route
  | removeConnection id output route => exact unfolds_removeConnection w id output route
  | setUp id time => exact unfolds_initializeNode w id time
  | setUpAgain id time => exact unfolds_reinitializeNode w id time
  | discard id => exact unfolds_discard w id
  | update id time =>
    refine unfolds_turn (fun hnone => ?_) fun n hn => unfolds_update hn time
    rw [run, World.update, hnone]
  | mouse id e now =>
    refine unfolds_turn (fun hnone => ?_) fun n hn => unfolds_mouseEvent hn e now
    rw [run, mouseEvent, hnone]
  | key id e =>
    refine unfolds_turn (fun hnone => ?_) fun n hn => unfolds_keyEvent hn e
    rw [run, keyEvent, hnone]

/-- A call leaves the cascade stack as it was, and takes back no id. -/
theorem cascade_run (w : World) (c : Call) :
    (c.run w).cascade = w.cascade ∧ w.registry.lastId ≤ (c.run w).registry.lastId := by
  have hsetName : ∀ id name, (w.setName id name).cascade = w.cascade ∧
      w.registry.lastId ≤ (w.setName id name).registry.lastId := by
    intro id name
    refine ⟨(proceeds_setName [] w id name).cascade, ?_⟩
    obtain ⟨heq, -⟩ | ⟨n, -, -, heq⟩ := setName_cases w id name <;> rewrite [heq]
    · exact Nat.le_refl _
    · exact Nat.le_of_eq (Registry.lastId_rename ..).symm
  have hturn : ∀ id s, (turn w id s).cascade = w.cascade ∧ w.registry.lastId ≤ (turn w id s).registry.lastId := by
    intro id s
    unfold turn
    split <;> exact ⟨rfl, Nat.le_refl _⟩
  have hopened : (c.opened w).cascade = w.cascade ∧ w.registry.lastId ≤ (c.opened w).registry.lastId := by
    cases c with
    | create catalog typeName env =>
      change ((create catalog typeName env).run w).cascade = _ ∧
        _ ≤ ((create catalog typeName env).run w).registry.lastId
      obtain heq | ⟨table, spec, b, heq⟩ := run_create w catalog typeName env <;> rw [heq]
      · exact ⟨rfl, Nat.le_refl _⟩
      · exact ⟨rfl, Nat.le_succ _⟩
    | createScene library filename renders time =>
      obtain ⟨table, spec, b, env, heq⟩ := createScene_eq w library filename renders time
      rw [opened, run, heq]
      exact ⟨rfl, Nat.le_succ _⟩
    | setName id name => exact hsetName id name
    | discard id => exact hsetName id ""
    | update | mouse | key => exact hturn _ _
    | _ => exact ⟨rfl, Nat.le_refl _⟩
  have h := c.unfolds w
  exact ⟨h.cascade.trans hopened.1, h.lastId.symm ▸ hopened.2⟩

/-- A call only adds to the handles that are kept and to the nodes that they hold, unless it lets go of one. -/
theorem keeps (w : World) {c : Call} (hc : ∀ id ∈ kept, c ≠ .drop id) : Keeps kept w (c.run w) := by
  have hmade : ∀ table spec b env,
      Keeps kept w ({ w with specifications := table }.create spec b env).2 := by
    intro table spec b env
    refine .of_suffix (List.suffix_cons _ _) fun id hlive => ?_
    obtain ⟨n, hn⟩ := isLive_iff.1 hlive
    have hfound : ({ w with specifications := table } : World).node? id = some n := hn
    rw [isLive_iff, node?_create, hfound]
    exact ⟨n, Option.some_or⟩
  have hsetName : ∀ id name, Keeps kept w (w.setName id name) := by
    intro id name
    have hheld : (w.setName id name).held = w.held := (proceeds_setName [] w id name).held
    exact .of_suffix (hheld ▸ List.suffix_refl _) fun _ hlive => isLive_setName w id name ▸ hlive
  have hturn : ∀ id s, Keeps kept w (turn w id s) := by
    intro id s
    unfold turn
    split <;> exact .of_suffix (List.suffix_refl _) fun _ hlive => hlive
  have hopened : Keeps kept w (c.opened w) := by
    cases c with
    | create catalog typeName env =>
      change Keeps kept w ((create catalog typeName env).run w)
      obtain heq | ⟨table, spec, b, heq⟩ := run_create w catalog typeName env <;> rw [heq]
      · exact .refl w
      · exact hmade table spec b env
    | createScene library filename renders time =>
      obtain ⟨table, spec, b, env, heq⟩ := createScene_eq w library filename renders time
      rw [opened, run, heq]
      exact hmade table spec b env
    | hold id => exact .of_suffix (List.suffix_cons id _) fun _ hlive => hlive
    | drop id =>
      have hid : id ∉ kept := fun hmem => hc id hmem rfl
      refine fun hheld => ⟨?_, fun _ _ hlive => hlive⟩
      have herased := hheld.erase id
      rwa [List.erase_of_not_mem hid] at herased
    | setName id name => exact hsetName id name
    | discard id => exact hsetName id ""
    | update | mouse | key => exact hturn _ _
    | _ => exact .refl w
  exact hopened.trans (.of_unfolds (c.unfolds w))

/-- The calls that make a node or give it another name. -/
def IsNotable : Call → Prop
  | create .. | createScene .. | setName .. | discard .. => True
  | _ => False

/-- **Only making and naming nodes is notable.** Any other call leaves the registry and the identities of the
nodes as they are, apart from nodes that it destroys. -/
theorem moves (w : World) {c : Call} (hc : ¬c.IsNotable) : Moves w (c.run w) := by
  have hturn : ∀ id s, Kept w (turn w id s) := by
    intro id s
    unfold turn
    split
    · exact .enter w _
    · exact .refl w
  have hopened : Kept w (c.opened w) := by
    cases c with
    | create | createScene | setName | discard => exact absurd trivial hc
    | update | mouse | key => exact hturn _ _
    | _ => exact ⟨rfl, rfl⟩
  exact (Moves.of_kept hopened).trans (c.unfolds w).moves

end Call

/-- Between two calls no field is being set. -/
theorem Reachable.idle {types : Catalog} (hw : Reachable types w) : w.cascade = [] := by
  induction hw with
  | empty => rfl
  | @call w c _ _ ih => exact (c.cascade_run w).1.trans ih

end World

end SceneGraph
