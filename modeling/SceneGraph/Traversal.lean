import SceneGraph.NodeId

/-!
# Depth-first traversal

`preorder next live` walks a graph of nodes from a stack of starting points and lists every node
at its first visit. Only nodes of `live` have successors, so the walk ends whatever the graph
looks like: with every node that it lists, the work that its successors can still cause is used up.
-/

namespace SceneGraph

/-- The work that the nodes not yet seen can cause. -/
def pendingWork (next : NodeId → List NodeId) (live seen : List NodeId) : Nat :=
  match live with
  | [] => 0
  | x :: rest => (if x ∈ seen then 0 else (next x).length) + pendingWork next rest seen

theorem pendingWork_cons_le (next : NodeId → List NodeId) (live seen : List NodeId) (x : NodeId) :
    pendingWork next live (x :: seen) ≤ pendingWork next live seen := by
  induction live with
  | nil => exact Nat.le_refl _
  | cons y rest ih =>
    simp only [pendingWork, List.mem_cons]
    by_cases hy : y ∈ seen
    · simp [hy, ih]
    · by_cases hx : y = x
      · simp only [hx, true_or, if_true]
        exact Nat.le_trans (by omega) (Nat.add_le_add_left ih _)
      · simp [hy, hx, ih]

/-- A node that is seen for the first time uses up the work of its successors. -/
theorem pendingWork_cons_add (next : NodeId → List NodeId) {live seen : List NodeId} {x : NodeId}
    (hx : x ∈ live) (hs : x ∉ seen) :
    pendingWork next live (x :: seen) + (next x).length ≤ pendingWork next live seen := by
  induction live with
  | nil => cases hx
  | cons y rest ih =>
    simp only [pendingWork, List.mem_cons]
    by_cases hyx : y = x
    · subst hyx
      have := pendingWork_cons_le next rest seen y
      simp [hs]
      omega
    · have hx' : x ∈ rest := by
        rcases List.mem_cons.1 hx with h | h
        · exact absurd h.symm hyx
        · exact h
      have := ih hx'
      by_cases hy : y ∈ seen <;> simp [hy, hyx] <;> omega

/-- The nodes reached from a stack, each at its first visit, without those already seen. -/
def preorder (next : NodeId → List NodeId) (live : List NodeId) :
    List NodeId → List NodeId → List NodeId
  | [], _ => []
  | x :: stack, seen =>
    if _hs : x ∈ seen then preorder next live stack seen
    else if _hu : x ∈ live then x :: preorder next live (next x ++ stack) (x :: seen)
    else x :: preorder next live stack (x :: seen)
termination_by stack seen => stack.length + pendingWork next live seen
decreasing_by
  · simp
  · have := pendingWork_cons_add next _hu _hs
    simp only [List.length_append, List.length_cons]
    omega
  · have := pendingWork_cons_le next live seen x
    simp only [List.length_cons]
    omega

end SceneGraph
