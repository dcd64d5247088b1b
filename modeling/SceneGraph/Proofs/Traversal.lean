import Mathlib.Logic.Relation
import SceneGraph.Traversal

/-!
# What a traversal lists

`preorder` lists, together with what was seen before, a closed set of nodes: it holds the starting
points and the successors of every live node that it lists (`preorder_closed`). Everything that it
lists is reached from a starting point (`exists_of_mem_preorder`), and nothing about the nodes seen before matters
(`preorder_congr`). How often it comes to a node is told by `Tallied`.
-/

namespace SceneGraph

open Relation (ReflTransGen)

/-- A node that counts as seen once `x` is listed was seen before or is listed. -/
theorem seen_or_listed {x y : NodeId} {seen listed : List NodeId}
    (h : y ∈ x :: seen ∨ y ∈ listed) : y ∈ seen ∨ y ∈ x :: listed := by
  rcases h with h | h
  · rcases List.mem_cons.1 h with rfl | h
    · exact .inr List.mem_cons_self
    · exact .inl h
  · exact .inr (List.mem_cons_of_mem _ h)

/-- Starting points, and successors of live nodes that are listed, are listed or were seen. -/
theorem preorder_closed (next : NodeId → List NodeId) (live stack seen : List NodeId) :
    (∀ x ∈ stack, x ∈ seen ∨ x ∈ preorder next live stack seen) ∧
      ∀ x ∈ preorder next live stack seen, x ∈ live →
        ∀ y ∈ next x, y ∈ seen ∨ y ∈ preorder next live stack seen := by
  fun_induction preorder next live stack seen with
  | case1 seen => simp
  | case2 x stack seen hseen ih =>
    refine ⟨fun y hy => ?_, ih.2⟩
    rcases List.mem_cons.1 hy with rfl | hy
    · exact .inl hseen
    · exact ih.1 y hy
  | case3 x stack seen _ hlive ih =>
    refine ⟨fun y hy => ?_, fun y hy hl z hz => ?_⟩
    · rcases List.mem_cons.1 hy with rfl | hy
      · exact .inr List.mem_cons_self
      · exact seen_or_listed (ih.1 y (List.mem_append_right _ hy))
    · rcases List.mem_cons.1 hy with rfl | hy
      · exact seen_or_listed (ih.1 z (List.mem_append_left _ hz))
      · exact seen_or_listed (ih.2 y hy hl z hz)
  | case4 x stack seen _ hdead ih =>
    refine ⟨fun y hy => ?_, fun y hy hl z hz => ?_⟩
    · rcases List.mem_cons.1 hy with rfl | hy
      · exact .inr List.mem_cons_self
      · exact seen_or_listed (ih.1 y hy)
    · rcases List.mem_cons.1 hy with rfl | hy
      · exact absurd hl hdead
      · exact seen_or_listed (ih.2 y hy hl z hz)

/-- Every node is listed once, and none that was seen before. -/
theorem nodup_preorder (next : NodeId → List NodeId) (live stack seen : List NodeId) :
    (preorder next live stack seen).Nodup ∧ ∀ x ∈ preorder next live stack seen, x ∉ seen := by
  fun_induction preorder next live stack seen with
  | case1 seen => simp
  | case2 x stack seen _ ih => exact ih
  | case3 x stack seen hnew _ ih | case4 x stack seen hnew _ ih =>
    refine ⟨List.nodup_cons.2 ⟨fun hx => ih.2 x hx List.mem_cons_self, ih.1⟩, fun y hy => ?_⟩
    rcases List.mem_cons.1 hy with rfl | hy
    · exact hnew
    · exact fun hseen => ih.2 y hy (List.mem_cons_of_mem _ hseen)

/-- Whatever is listed is reached from a starting point. -/
theorem exists_of_mem_preorder {next : NodeId → List NodeId} {live stack seen : List NodeId} {x : NodeId}
    (h : x ∈ preorder next live stack seen) :
    ∃ y ∈ stack, ReflTransGen (fun a b => b ∈ next a) y x := by
  fun_induction preorder next live stack seen with
  | case1 seen => cases h
  | case2 y stack seen _ ih =>
    obtain ⟨z, hz, hzx⟩ := ih h
    exact ⟨z, List.mem_cons_of_mem _ hz, hzx⟩
  | case3 y stack seen _ _ ih =>
    rcases List.mem_cons.1 h with rfl | h
    · exact ⟨x, List.mem_cons_self, .refl⟩
    obtain ⟨z, hz, hzx⟩ := ih h
    rcases List.mem_append.1 hz with hz | hz
    · exact ⟨y, List.mem_cons_self, .head hz hzx⟩
    · exact ⟨z, List.mem_cons_of_mem _ hz, hzx⟩
  | case4 y stack seen _ _ ih =>
    rcases List.mem_cons.1 h with rfl | h
    · exact ⟨x, List.mem_cons_self, .refl⟩
    obtain ⟨z, hz, hzx⟩ := ih h
    exact ⟨z, List.mem_cons_of_mem _ hz, hzx⟩

/-- Traversals of two graphs correspond where the graphs do. -/
theorem preorder_map {next next' : NodeId → List NodeId} {live live' stack seen seen' : List NodeId}
    {φ : NodeId → NodeId} {P : NodeId → Prop} (hinj : ∀ a, P a → ∀ b, P b → φ a = φ b → a = b)
    (hnext : ∀ a, P a → (∀ b ∈ next a, P b) ∧ next' (φ a) = (next a).map φ)
    (hlive : ∀ a, P a → (φ a ∈ live' ↔ a ∈ live)) (hstack : ∀ a ∈ stack, P a)
    (hseen : ∀ a, P a → (φ a ∈ seen' ↔ a ∈ seen)) :
    preorder next' live' (stack.map φ) seen' = (preorder next live stack seen).map φ := by
  have hvisited : ∀ {x : NodeId} {seen seen' : List NodeId}, P x → (∀ a, P a → (φ a ∈ seen' ↔ a ∈ seen)) →
      ∀ a, P a → (φ a ∈ φ x :: seen' ↔ a ∈ x :: seen) := by
    intro x seen seen' hx hseen a ha
    rw [List.mem_cons, List.mem_cons, hseen a ha]
    exact or_congr_left ⟨hinj a ha x hx, congrArg φ⟩
  fun_induction preorder next live stack seen generalizing seen' with
  | case1 seen => rw [List.map_nil, preorder]
  | case2 x stack seen hx ih =>
    obtain ⟨hmem, hstack⟩ := List.forall_mem_cons.1 hstack
    rw [List.map_cons, preorder, dif_pos ((hseen x hmem).2 hx)]
    exact ih hstack hseen
  | case3 x stack seen hx hlive' ih =>
    obtain ⟨hmem, hstack⟩ := List.forall_mem_cons.1 hstack
    obtain ⟨hsubset, hmap⟩ := hnext x hmem
    rw [List.map_cons, preorder, dif_neg (fun h => hx ((hseen x hmem).1 h)), dif_pos ((hlive x hmem).2 hlive'), hmap,
      ← List.map_append, List.map_cons]
    exact congrArg (φ x :: ·) (ih (List.forall_mem_append.2 ⟨hsubset, hstack⟩) (hvisited hmem hseen))
  | case4 x stack seen hx hdead ih =>
    obtain ⟨hmem, hstack⟩ := List.forall_mem_cons.1 hstack
    rw [List.map_cons, preorder, dif_neg (fun h => hx ((hseen x hmem).1 h)),
      dif_neg (fun h => hdead ((hlive x hmem).1 h)), List.map_cons]
    exact congrArg (φ x :: ·) (ih hstack (hvisited hmem hseen))

/-- A traversal does not ask about nodes that it has seen. -/
theorem preorder_congr {next next' : NodeId → List NodeId} {live live' stack seen : List NodeId}
    (hnext : ∀ x ∉ seen, next' x = next x) (hlive : ∀ x ∉ seen, x ∈ live' ↔ x ∈ live) :
    preorder next' live' stack seen = preorder next live stack seen := by
  have hmore : ∀ {x : NodeId} {seen : List NodeId} {p : NodeId → Prop}, (∀ y ∉ seen, p y) → ∀ y ∉ x :: seen, p y :=
    fun h y hy => h y fun hmem => hy (List.mem_cons_of_mem _ hmem)
  fun_induction preorder next live stack seen with
  | case1 seen => rw [preorder]
  | case2 x stack seen hx ih => rw [preorder, dif_pos hx, ih hnext hlive]
  | case3 x stack seen hx hu ih =>
    rw [preorder, dif_neg hx, dif_pos ((hlive x hx).2 hu), hnext x hx, ih (hmore hnext) (hmore hlive)]
  | case4 x stack seen hx hu ih =>
    rw [preorder, dif_neg hx, dif_neg fun h => hu ((hlive x hx).1 h), ih (hmore hnext) (hmore hlive)]

/-! ### Visits to come -/

/-- A walk that lists the nodes of `all` has listed `before`, the last one first, and is about to visit those of a
stack; nodes of `base` it never lists. Every visit to come is one of `uses`, and so was one for each node listed. -/
structure Tallied (next : NodeId → List NodeId) (live base all uses before stack : List NodeId) : Prop where
  nodes : all = before.reverse ++ preorder next live stack (before ++ base)
  uses : ∀ x, (if x ∈ before then 1 else 0) + stack.count x +
    ((preorder next live stack (before ++ base)).flatMap next).count x ≤ uses.count x

namespace Tallied

variable {next : NodeId → List NodeId} {live base all uses before stack : List NodeId} {x : NodeId}

/-- A node that is listed is passed by. It is used twice at least. -/
theorem pass (h : Tallied next live base all uses before (x :: stack)) (hx : x ∈ before) :
    Tallied next live base all uses before stack ∧ 1 < uses.count x := by
  have hrest : preorder next live (x :: stack) (before ++ base) = preorder next live stack (before ++ base) := by
    rw [preorder, dif_pos (List.mem_append_left _ hx)]
  refine ⟨⟨hrest ▸ h.nodes, fun y => ?_⟩, ?_⟩
  · have huses := h.uses y
    rw [hrest, List.count_cons] at huses
    omega
  · have huses := h.uses x
    rw [if_pos hx, List.count_cons_self] at huses
    omega

/-- A live node that is not listed is entered. -/
theorem enter (h : Tallied next live base all uses before (x :: stack)) (hx : x ∉ before) (hbase : x ∉ base)
    (hlive : x ∈ live) : Tallied next live base all uses (x :: before) (next x ++ stack) ∧ x ∈ all := by
  have hrest : preorder next live (x :: stack) (before ++ base) =
      x :: preorder next live (next x ++ stack) (x :: before ++ base) := by
    have hseen : x ∉ before ++ base := fun hmem => (List.mem_append.1 hmem).elim hx hbase
    rw [preorder, dif_neg hseen, dif_pos hlive]
    rfl
  have hnodes := h.nodes
  rw [hrest] at hnodes
  refine ⟨⟨?_, fun y => ?_⟩, ?_⟩
  · rw [hnodes, List.reverse_cons, List.append_assoc, List.singleton_append]
  · have huses := h.uses y
    rw [hrest, List.flatMap_cons, List.count_append, List.count_cons] at huses
    rw [List.count_append]
    by_cases hy : y = x
    · subst hy
      rw [if_neg hx, beq_self_eq_true, if_pos rfl] at huses
      rw [if_pos List.mem_cons_self]
      omega
    · have hmem : y ∈ x :: before ↔ y ∈ before := by simp [hy]
      have hbeq : (x == y) = false := by simpa using Ne.symm hy
      rw [hbeq, if_neg Bool.false_ne_true] at huses
      simp only [hmem]
      omega
  · rw [hnodes]
    simp

theorem length_le (h : Tallied next live base all uses before stack) : before.length ≤ all.length := by
  rw [h.nodes, List.length_append, List.length_reverse]
  omega

theorem mem (h : Tallied next live base all uses before stack) (hx : x ∈ before) : x ∈ all := by
  rw [h.nodes]
  exact List.mem_append_left _ (List.mem_reverse.2 hx)

end Tallied

end SceneGraph
