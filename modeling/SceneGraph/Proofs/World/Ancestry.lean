import Mathlib.Algebra.BigOperators.Group.Finset.Basic
import Mathlib.Order.Bounds.Basic
import SceneGraph.Proofs.Traversal
import SceneGraph.Proofs.World.Lookup

/-!
# The walk to the ancestors

The ancestors of a node are found on a walk upwards. Ids wait to be looked at; when one is looked at for the first
time and its node is there, the node's parents wait as well. Nothing is said about who is next (`World.Climbs`): ids
wait in no order, as often as they came up, also in circles and after their nodes are gone.

* `Climbs.work_lt`: every turn uses up work.
* `Climb.Sound`: what every turn preserves.
* `exists_climbs`: the traversal that lists the ancestors is such a walk.
* `ancestors_closure`: every walk comes to an end, at the least set that is closed upwards, and never asks the node
  at which it started.
-/

namespace SceneGraph

open Relation (ReflTransGen)

namespace World

/-- A walk upwards while it goes on. -/
structure Climb where
  /-- The ids that wait to be looked at. -/
  pending : Multiset NodeId
  /-- The ids that were looked at. -/
  seen : Finset NodeId
  /-- The nodes that were asked for their parents. -/
  read : Finset NodeId

/-- The walk from a node whose parents are known. -/
def Climb.start (id : NodeId) (first : List NodeId) : Climb := ⟨first, {id}, ∅⟩

/-- One turn of a walk looks at any of the ids that wait. -/
inductive Climbs (w : World) : Climb → Climb → Prop
  | again {x : NodeId} {pending : Multiset NodeId} {seen read : Finset NodeId} (hx : x ∈ seen) :
      Climbs w ⟨x ::ₘ pending, seen, read⟩ ⟨pending, seen, read⟩
  | gone {x : NodeId} {pending : Multiset NodeId} {seen read : Finset NodeId} (hx : x ∉ seen)
      (hnone : w.node? x = none) : Climbs w ⟨x ::ₘ pending, seen, read⟩ ⟨pending, insert x seen, read⟩
  | up {x : NodeId} {n : Node} {pending : Multiset NodeId} {seen read : Finset NodeId} (hx : x ∉ seen)
      (hn : w.node? x = some n) :
      Climbs w ⟨x ::ₘ pending, seen, read⟩ ⟨n.parentIds + pending, insert x seen, insert x read⟩

variable {w w' : World} {c c' : Climb} {n : Node} {id x : NodeId} {first : List NodeId}

theorem parentsOf_eq (hn : w.node? x = some n) : w.parentsOf x = n.parentIds := by
  rw [parentsOf, hn]
  rfl

theorem parentsOf_eq_nil (hnone : w.node? x = none) : w.parentsOf x = [] := by
  rw [parentsOf, hnone]
  rfl

/-! ### Walks end -/

/-- The ids that wait, and those that live nodes can still add to them. -/
def Climb.work (w : World) (c : Climb) : Nat :=
  c.pending.card + ∑ x ∈ w.liveIds.toFinset \ c.seen, (w.parentsOf x).length

/-- **Every turn uses up work**: one id waits no longer, and the parents of a node are added once. -/
theorem Climbs.work_lt (h : w.Climbs c c') : c'.work w < c.work w := by
  cases h with
  | again hx => simp [Climb.work]
  | @gone x pending seen read hx hnone =>
    -- what is gone has nothing to add, so the sum stays as it is
    have hdead : x ∉ w.liveIds.toFinset \ seen := by
      simp [mem_liveIds, isLive_iff, hnone]
    simp [Climb.work, Finset.sdiff_insert, Finset.erase_eq_of_notMem hdead]
  | @up x n pending seen read hx hn =>
    -- the parents of the node move from the sum to what waits
    have hlive : x ∈ w.liveIds.toFinset \ seen := by
      simp [mem_liveIds, isLive_of_node? hn, hx]
    have hsum := Finset.add_sum_erase _ (fun x => (w.parentsOf x).length) hlive
    simp only [Climb.work, Finset.sdiff_insert, Multiset.card_add, Multiset.card_cons, Multiset.coe_card]
    rw [parentsOf_eq hn] at hsum
    omega

/-- No walk goes on for ever. -/
theorem wellFounded_climbs (w : World) : WellFounded (Function.swap w.Climbs) :=
  Subrelation.wf (fun h => Climbs.work_lt h) (measure (Climb.work w)).wf

/-- As long as ids wait, the walk goes on. -/
theorem Climb.pending_eq_zero (h : ∀ c', ¬w.Climbs c c') : c.pending = 0 := by
  obtain ⟨pending, seen, read⟩ := c
  refine Multiset.eq_zero_of_forall_notMem fun x hx => ?_
  obtain ⟨rest, rfl⟩ := Multiset.exists_cons_of_mem hx
  by_cases hseen : x ∈ seen
  · exact h _ (.again hseen)
  · cases hn : w.node? x with
    | none => exact h _ (.gone hseen hn)
    | some n => exact h _ (.up hseen hn)

/-! ### Where walks end -/

/-- A set of ids that holds a node, the ids from which a walk sets out, and the parents of every other live node in
it. -/
structure IsClosedAbove (w : World) (id : NodeId) (first : List NodeId) (s : Set NodeId) : Prop where
  self : id ∈ s
  given : ∀ p ∈ first, p ∈ s
  others : ∀ x ∈ s, x ≠ id → ∀ n, w.node? x = some n → ∀ p ∈ n.parentIds, p ∈ s

/-- The ids that came up on a walk, looked at or not. -/
def Climb.met (c : Climb) : Set NodeId := {x | x ∈ c.seen ∨ x ∈ c.pending}

theorem Climbs.met_subset (h : w.Climbs c c') : c.met ⊆ c'.met := by
  intro y hy
  cases h with
  | again hx =>
    refine hy.elim .inl fun hmem => ?_
    obtain rfl | hmem := Multiset.mem_cons.1 hmem
    · exact .inl hx
    · exact .inr hmem
  | gone hx hnone =>
    refine hy.elim (fun hseen => .inl (Finset.mem_insert_of_mem hseen)) fun hmem => ?_
    obtain rfl | hmem := Multiset.mem_cons.1 hmem
    · exact .inl (Finset.mem_insert_self y _)
    · exact .inr hmem
  | up hx hn =>
    refine hy.elim (fun hseen => .inl (Finset.mem_insert_of_mem hseen)) fun hmem => ?_
    obtain rfl | hmem := Multiset.mem_cons.1 hmem
    · exact .inl (Finset.mem_insert_self y _)
    · exact .inr (Multiset.mem_add.2 (.inr hmem))

/-- What every turn of a walk preserves. -/
structure Climb.Sound (w : World) (id : NodeId) (first : List NodeId) (c : Climb) : Prop where
  self : id ∈ c.seen
  unread : id ∉ c.read
  given : ∀ p ∈ first, p ∈ c.met
  others : ∀ x ∈ c.seen, x ≠ id → ∀ n, w.node? x = some n → ∀ p ∈ n.parentIds, p ∈ c.met
  least : ∀ s, w.IsClosedAbove id first s → c.met ⊆ s

namespace Climb.Sound

theorem start (w : World) (id : NodeId) (first : List NodeId) : (Climb.start id first).Sound w id first where
  self := Finset.mem_singleton_self id
  unread := Finset.notMem_empty id
  given p hp := .inr hp
  others x hx hne := absurd (Finset.mem_singleton.1 hx) hne
  least s hs := by
    rintro x (hx | hx)
    · exact Finset.mem_singleton.1 hx ▸ hs.self
    · exact hs.given x hx

/-- The parents of an id that was seen before have come up, and a new id is not the one where the walk started. -/
theorem climbs (h : c.Sound w id first) (hstep : w.Climbs c c') : c'.Sound w id first := by
  have hgrows := hstep.met_subset
  have hfirst : ∀ p ∈ first, p ∈ c'.met := fun p hp => hgrows (h.given p hp)
  have hothers : ∀ x ∈ c.seen, x ≠ id → ∀ n, w.node? x = some n → ∀ p ∈ n.parentIds, p ∈ c'.met :=
    fun x hx hne n hn p hp => hgrows (h.others x hx hne n hn p hp)
  cases hstep with
  | @again x pending seen read hx =>
    refine ⟨h.self, h.unread, hfirst, hothers, fun s hs y hy => h.least s hs ?_⟩
    exact hy.imp_right (Multiset.mem_cons_of_mem ·)
  | @gone x pending seen read hx hnone =>
    refine ⟨Finset.mem_insert_of_mem h.self, h.unread, hfirst, fun y hy hne n hn => ?_, fun s hs y hy => h.least s hs ?_⟩
    · obtain rfl | hseen := Finset.mem_insert.1 hy
      · cases hnone.symm.trans hn
      · exact hothers y hseen hne n hn
    · obtain hy | hy := hy
      · exact (Finset.mem_insert.1 hy).elim (fun heq => .inr (heq ▸ Multiset.mem_cons_self x _)) .inl
      · exact .inr (Multiset.mem_cons_of_mem hy)
  | @up x n pending seen read hx hn =>
    have hne : x ≠ id := fun heq => hx (heq ▸ h.self)
    refine ⟨Finset.mem_insert_of_mem h.self, ?_, hfirst, fun y hy hy' m hm p hp => ?_, fun s hs y hy => ?_⟩
    · exact fun hread => (Finset.mem_insert.1 hread).elim (fun heq => hne heq.symm) h.unread
    · obtain rfl | hseen := Finset.mem_insert.1 hy
      · obtain rfl := Option.some.inj (hn.symm.trans hm)
        exact .inr (Multiset.mem_add.2 (.inl hp))
      · exact hothers y hseen hy' m hm p hp
    · -- a closed set held the node while it waited, and so it holds the parents
      have hmet : ∀ y, y ∈ seen ∨ y ∈ x ::ₘ pending → y ∈ s := fun y hy => h.least s hs hy
      have hxs : x ∈ s := hmet x (.inr (Multiset.mem_cons_self x _))
      obtain hy | hy := hy
      · exact (Finset.mem_insert.1 hy).elim (fun heq => heq ▸ hxs) fun hseen => hmet y (.inl hseen)
      · obtain hp | hy := Multiset.mem_add.1 hy
        · exact hs.others x hxs hne n hn y hp
        · exact hmet y (.inr (Multiset.mem_cons_of_mem hy))

/-- By induction on the turns of a walk. -/
theorem of_climbs (h : ReflTransGen w.Climbs (.start id first) c) : c.Sound w id first := by
  induction h with
  | refl => exact start w id first
  | tail _ hstep ih => exact ih.climbs hstep

/-- **A walk that is over has seen the least closed set.** -/
theorem isLeast (h : c.Sound w id first) (hover : c.pending = 0) :
    IsLeast {s | w.IsClosedAbove id first s} (c.seen : Set NodeId) := by
  have hmet : c.met = c.seen := by
    ext x
    simp [met, hover]
  have hothers := h.others
  rw [hmet] at hothers
  exact ⟨⟨h.self, hmet ▸ h.given, hothers⟩, fun s hs => hmet ▸ h.least s hs⟩

end Climb.Sound

/-! ### The ancestors -/

/-- The traversal that lists the ancestors is a walk, in one of the orders that are possible. -/
theorem exists_climbs (w : World) (stack seen : List NodeId) (read : Finset NodeId) : ∃ read',
    ReflTransGen w.Climbs ⟨stack, seen.toFinset, read⟩
      ⟨0, seen.toFinset ∪ (preorder w.parentsOf w.liveIds stack seen).toFinset, read'⟩ := by
  -- nothing waits; the first id was seen; it is new and live; it is new and gone
  fun_induction preorder w.parentsOf w.liveIds stack seen generalizing read with
  | case1 seen => exact ⟨read, by simpa using .refl⟩
  | case2 x stack seen hx ih =>
    obtain ⟨read', hrest⟩ := ih read
    rw [← Multiset.cons_coe]
    exact ⟨read', .head (.again (List.mem_toFinset.2 hx)) hrest⟩
  | case3 x stack seen hx hlive ih =>
    obtain ⟨n, hn⟩ := isLive_iff.1 (mem_liveIds.1 hlive)
    obtain ⟨read', hrest⟩ := ih (insert x read)
    rw [parentsOf_eq hn, ← Multiset.coe_add, List.toFinset_cons] at hrest
    rw [← Multiset.cons_coe, parentsOf_eq hn, List.toFinset_cons, Finset.union_insert, ← Finset.insert_union]
    exact ⟨read', .head (.up (fun hmem => hx (List.mem_toFinset.1 hmem)) hn) hrest⟩
  | case4 x stack seen hx hdead ih =>
    have hnone : w.node? x = none := by
      cases hn : w.node? x with
      | none => rfl
      | some n => exact absurd (mem_liveIds.2 (isLive_of_node? hn)) hdead
    obtain ⟨read', hrest⟩ := ih read
    rw [List.toFinset_cons] at hrest
    rw [← Multiset.cons_coe, List.toFinset_cons, Finset.union_insert, ← Finset.insert_union]
    exact ⟨read', .head (.gone (fun hmem => hx (List.mem_toFinset.1 hmem)) hnone) hrest⟩

/-- A set of ids that holds an id and the parents of every live node in it. -/
def IsClosedUpwards (w : World) (id : NodeId) (s : Set NodeId) : Prop :=
  id ∈ s ∧ ∀ x ∈ s, ∀ n, w.node? x = some n → ∀ p ∈ n.parentIds, p ∈ s

/-- What is closed upwards holds the parents of the node itself and of every other node. -/
theorem isClosedAbove_iff {s : Set NodeId} : w.IsClosedAbove id (w.parentsOf id) s ↔ w.IsClosedUpwards id s := by
  constructor
  · rintro ⟨hself, hgiven, hothers⟩
    refine ⟨hself, fun x hx n hn => ?_⟩
    by_cases heq : x = id
    · subst heq
      exact parentsOf_eq hn ▸ hgiven
    · exact hothers x hx heq n hn
  · rintro ⟨hself, hparents⟩
    refine ⟨hself, fun p hp => ?_, fun x hx _ => hparents x hx⟩
    cases hn : w.node? id with
    | none => rw [parentsOf_eq_nil hn] at hp; cases hp
    | some n => exact hparents id hself n hn p (parentsOf_eq hn ▸ hp)

/-- **The ancestors of a node are the least set closed upwards**: it holds the id of the node, and the ids in the list
of parents of every live node whose id it holds. Whatever the parents look like and in whichever order they are taken,
no walk from the node and its parents goes on for ever; a walk that cannot go on has seen just the ancestors; and on
the way the node itself is never asked again, so that nothing depends on what has become of it meanwhile. -/
theorem ancestors_closure (w : World) (id : NodeId) :
    IsLeast {s | w.IsClosedUpwards id s} {x | x ∈ w.ancestors id} ∧ (w.ancestors id).Nodup ∧
      WellFounded (Function.swap w.Climbs) ∧
      (∀ c, ReflTransGen w.Climbs (.start id (w.parentsOf id)) c →
        id ∉ c.read ∧ ((∀ c', ¬w.Climbs c c') → c.seen = (w.ancestors id).toFinset)) ∧
      ∀ w' : World, (∀ x, x ≠ id → w'.node? x = w.node? x) →
        id :: preorder w'.parentsOf w'.liveIds (w.parentsOf id) [id] = w.ancestors id := by
  obtain ⟨read, hwalk⟩ := w.exists_climbs (w.parentsOf id) [id] ∅
  have hancestors : [id].toFinset ∪ (preorder w.parentsOf w.liveIds (w.parentsOf id) [id]).toFinset =
      (w.ancestors id).toFinset := by
    rw [ancestors, List.toFinset_cons, List.toFinset_cons, List.toFinset_nil, insert_empty_eq, Finset.insert_eq]
  rw [hancestors] at hwalk
  have hleast := (Climb.Sound.of_climbs hwalk).isLeast rfl
  obtain ⟨hnodup, hnew⟩ := nodup_preorder w.parentsOf w.liveIds (w.parentsOf id) [id]
  refine ⟨?_, List.nodup_cons.2 ⟨fun hmem => hnew id hmem List.mem_cons_self, hnodup⟩, wellFounded_climbs w,
    fun c hc => ?_, fun w' hsame => ?_⟩
  · simpa only [isClosedAbove_iff, List.coe_toFinset] using hleast
  · have hsound := Climb.Sound.of_climbs hc
    refine ⟨hsound.unread, fun hover => ?_⟩
    exact Finset.coe_injective ((hsound.isLeast (Climb.pending_eq_zero hover)).unique hleast)
  · have hother : ∀ x, x ∉ [id] → w'.node? x = w.node? x := fun x hx => hsame x fun heq => hx (heq ▸ List.mem_cons_self)
    refine congrArg (id :: ·) (preorder_congr (fun x hx => ?_) fun x hx => ?_)
    · rw [parentsOf, hother x hx, parentsOf]
    · rw [mem_liveIds, isLive_iff, hother x hx, mem_liveIds, isLive_iff]

/-- Two nodes above each other; one of them is also above itself, and below a node that is gone. -/
example :
    let node := fun id parents => { Node.fresh ⟨id⟩ ⟨"Group", []⟩ .plain .detached with parents }
    ({ nodes := [node 1 [(⟨2⟩, 1)], node 2 [(⟨1⟩, 1), (⟨2⟩, 1), (⟨7⟩, 2)]] } : World).ancestors ⟨1⟩ =
      [⟨1⟩, ⟨2⟩, ⟨7⟩] := by decide +kernel

end World

end SceneGraph
