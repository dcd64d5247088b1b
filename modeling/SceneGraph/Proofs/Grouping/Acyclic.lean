import SceneGraph.Proofs.Grouping.Mirror
import SceneGraph.Proofs.Traversal

/-!
# The hierarchy of grouping nodes has no cycles

A grouping node that is set up claims the nodes that it lists (`World.Claims`). A new claim is checked
against the ancestors of whoever claims, and these are all the nodes from which claims lead there
(`mem_ancestors`), so no claim ever closes a cycle. Nodes that are not set up claim nothing: their lists
may be cyclic.

* `not_transGen_of_adding`: edges that leave one node and do not lead back to it close no cycle.
* `Acyclic.reclaims`: changes keep the claims acyclic.
* `parents_acyclic`: no node of a reachable world is above itself.
-/

namespace SceneGraph

open Relation

/-- Edges that leave one node and do not lead back to it close no cycle. -/
theorem not_transGen_of_adding {α : Type} {r r' : α → α → Prop} {p : α}
    (hadd : ∀ a b, r' a b → r a b ∨ a = p ∧ ¬ ReflTransGen r b p) (hr : ∀ a, ¬ TransGen r a a) (a : α) :
    ¬ TransGen r' a a := by
  have hway : ∀ b, TransGen r' a b → TransGen r a b ∨ ReflTransGen r a p ∧ ¬ ReflTransGen r b p := by
    intro b hab
    induction hab with
    | single hstep =>
      rcases hadd _ _ hstep with h | ⟨rfl, h⟩
      · exact .inl (.single h)
      · exact .inr ⟨.refl, h⟩
    | tail _ hstep ih =>
      rcases ih with hab | ⟨hap, hbp⟩ <;> rcases hadd _ _ hstep with h | ⟨rfl, h⟩
      · exact .inl (hab.tail h)
      · exact .inr ⟨hab.to_reflTransGen, h⟩
      · exact .inr ⟨hap, fun hcp => hbp (.head h hcp)⟩
      · exact absurd .refl hbp
  intro haa
  rcases hway a haa with h | ⟨hap, hnot⟩
  · exact hr a h
  · exact hnot hap

namespace World

variable {types : Catalog} {w w' : World}

/-- A grouping node that is set up lists a node. -/
def Claims (w : World) (p c : NodeId) : Prop := c ∈ w.claimed p

/-- Claims never lead back to where they start. -/
def Acyclic (w : World) : Prop := ∀ id, ¬ TransGen w.Claims id id

/-- All nodes above a node are listed among its ancestors, by induction on the way down from them. -/
theorem mem_ancestors (hs : Sound types w) (h : w.CountsAs w.claimed) {p c : NodeId}
    (hpc : ReflTransGen w.Claims p c) : p ∈ w.ancestors c := by
  obtain ⟨hstack, hlisted⟩ := preorder_closed w.parentsOf w.liveIds (w.parentsOf c) [c]
  have hstart : ∀ q, q ∈ [c] ∨ q ∈ preorder w.parentsOf w.liveIds (w.parentsOf c) [c] →
      q ∈ w.ancestors c := by
    rintro q (hq | hq)
    · rw [List.mem_singleton.1 hq]
      exact List.mem_cons_self
    · exact List.mem_cons_of_mem _ hq
  induction hpc using ReflTransGen.head_induction_on with
  | refl => exact List.mem_cons_self
  | @head q b hclaim _ ih =>
    have hlive := hs.claimed hclaim
    obtain ⟨n, hn⟩ := isLive_iff.1 hlive
    have hparent : q ∈ w.parentsOf b := by
      rw [parentsOf, hn]
      refine (h.mem_parentIds_iff (mem_nodes_of_node? hn) q).2 ?_
      rw [id_of_node? hn]
      exact hclaim
    rcases List.mem_cons.1 ih with rfl | hb
    · exact hstart q (hstack q hparent)
    · exact hstart q (hlisted b hb (mem_liveIds.2 hlive) q hparent)

/-- From all ancestors of a node claims lead there, by induction on the way up to them. -/
theorem claims_of_mem_ancestors (h : w.CountsAs w.claimed) {p c : NodeId} (hp : p ∈ w.ancestors c) :
    ReflTransGen w.Claims p c := by
  have hclaims : ∀ {a b}, b ∈ w.parentsOf a → w.Claims b a := by
    intro a b hb
    unfold parentsOf at hb
    cases hn : w.node? a with
    | none => rw [hn] at hb; cases hb
    | some n =>
      rw [hn] at hb
      have hclaimed := (h.mem_parentIds_iff (mem_nodes_of_node? hn) b).1 hb
      rwa [id_of_node? hn] at hclaimed
  rcases List.mem_cons.1 hp with rfl | hlisted
  · exact .refl
  obtain ⟨q, hq, hqp⟩ := exists_of_mem_preorder hlisted
  clear hp hlisted
  induction hqp with
  | refl => exact .single (hclaims hq)
  | tail _ hb ih => exact .head (hclaims hb) ih

/-- Claims on nodes that are no ancestors close no cycle. -/
theorem Acyclic.reclaims (hs : Sound types w) (hm : w.CountsAs w.claimed) (h : Acyclic w)
    (hc : Reclaims w w') : Acyclic w' := by
  obtain ⟨p, l, hclaimed, hl⟩ := hc
  refine not_transGen_of_adding (p := p) (fun a b hab => ?_) h
  rw [Claims, hclaimed, Function.update_apply] at hab
  split at hab
  · rename_i hap
    subst hap
    exact (hl b hab).imp_right fun hnot => ⟨rfl, fun hbp => hnot (mem_ancestors hs hm hbp)⟩
  · exact .inl hab

theorem Reachable.acyclic (hr : types.Regular) (hw : Reachable types w) : Acyclic w := by
  suffices Mirrored w ∧ Acyclic w from this.2
  refine hw.induction hr (P := fun w => Mirrored w ∧ Acyclic w) ⟨.empty, fun id hcycle => ?_⟩
    fun w w' hs hc h => ?_
  · obtain ⟨c, hc, -⟩ := TransGen.head'_iff.1 hcycle
    cases hc
  · obtain ⟨hm, hclaims⟩ := h.1.change hr hs hc
    exact ⟨hm, h.2.reclaims hs h.1.counts hclaims⟩

/-- A live node counts another one among its parents. -/
def HasParent (w : World) (c p : NodeId) : Prop := ∃ n, w.node? c = some n ∧ p ∈ n.parentIds

/-- A live grouping node that is set up lists a node among its children. -/
def Groups (w : World) (p c : NodeId) : Prop :=
  ∃ g, w.node? p = some g ∧ g.behavior = .grouping ∧ g.initialized = true ∧ c ∈ w.children p

/-- **The hierarchy has no cycles.** In no reachable world do parents lead from a node back to it, and
no grouping node that is set up is its own descendant. -/
theorem parents_acyclic (hr : types.Regular) (hw : Reachable types w) (id : NodeId) :
    ¬ TransGen w.HasParent id id ∧ ¬ TransGen w.Groups id id := by
  have hs := hw.sound hr
  have hm := hw.mirrored hr
  have hacyclic := hw.acyclic hr id
  refine ⟨fun hcycle => hacyclic ?_, fun hcycle => hacyclic ?_⟩
  · refine TransGen.mono (fun p c hpc => ?_) id id (transGen_swap.2 hcycle)
    obtain ⟨n, hn, hp⟩ := hpc
    have hclaim := (hm.counts.mem_parentIds_iff (mem_nodes_of_node? hn) p).1 hp
    rwa [id_of_node? hn] at hclaim
  · refine TransGen.mono (fun p c hpc => ?_) id id hcycle
    obtain ⟨g, hg, hb, hi, hc⟩ := hpc
    have hclaimed := claimed_of_grouping hs (mem_nodes_of_node? hg) hb
    rw [id_of_node? hg, if_pos hi] at hclaimed
    rw [Claims, hclaimed]
    exact hc

/-! ### Two groups that list each other -/

/-- Two groups are made to list each other before the first of them is set up. -/
def mutualGroups : World :=
  (Call.setUp ⟨1⟩ .unset).run <|
    (Call.initField ⟨2⟩ childrenField (.nodes [⟨1⟩])).run <|
      (Call.initField ⟨1⟩ childrenField (.nodes [⟨2⟩])).run <|
        (Call.create Catalog.withScenes "Group" .detached).run <|
          (Call.create Catalog.withScenes "Group" .detached).run {}

theorem fresh_of_any {id : NodeId} (h : (w.node? id).any (!·.initialized) = true) :
    Call.Fresh w id := by
  obtain ⟨n, hn, hi⟩ := (Option.any_eq_true _ _).1 h
  exact ⟨n, hn, by simpa using hi⟩

theorem reachable_mutualGroups : Reachable Catalog.withScenes mutualGroups := by
  refine .call (.call (.call (.call (.call .empty ?_) ?_) ⟨?_, fresh_of_any ?_⟩)
    ⟨?_, fresh_of_any ?_⟩) trivial
  · exact fun _ ht => ht
  · exact fun _ ht => ht
  · rw [Field.references_nodes]
    decide +kernel
  · decide +kernel
  · rw [Field.references_nodes]
    decide +kernel
  · decide +kernel

/-- The first group keeps the second one, and the second one loses the first. -/
theorem parents_acyclic_mutualGroups :
    Catalog.withScenes.Regular ∧ Reachable Catalog.withScenes mutualGroups ∧
      mutualGroups.children ⟨1⟩ = [⟨2⟩] ∧ mutualGroups.children ⟨2⟩ = [] ∧
      ¬ TransGen mutualGroups.HasParent ⟨1⟩ ⟨1⟩ ∧ ¬ TransGen mutualGroups.Groups ⟨1⟩ ⟨1⟩ :=
  ⟨Catalog.regular_withScenes, reachable_mutualGroups, by decide +kernel, by decide +kernel,
    parents_acyclic Catalog.regular_withScenes reachable_mutualGroups ⟨1⟩⟩

end World

end SceneGraph
