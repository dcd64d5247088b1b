import Mathlib.Data.List.Nodup
import SceneGraph.Proofs.World.Lookup

/-!
# The table of routes

A node keeps a list of routes for each field that a route ever left. Adding and removing routes changes one
of the lists and nothing else about the node, and a field has one list at most.

* `routesFrom_addConnection`, `routesFrom_removeConnection`, `routesFrom_filter`: what the operations do to
  the lists.
* `addConnection_fst`, `removeConnection_fst`: what they answer.
* `filter_connections`, `mem_connections_iff`: how the lists make up all routes of the node.
* `HasDistinctRoutes`: no route is there twice, and the operations keep it so.
-/

namespace SceneGraph

namespace Node

variable {m n : Node} {output : String} {route : Route}

/-- The fields that have a list of routes, which may be empty. -/
def outputs (n : Node) : List String := n.routes.map (·.1)

theorem any_routes_iff : n.routes.any (·.1 == output) = true ↔ output ∈ n.outputs := by
  simp [outputs]

theorem find?_routes_eq_none_iff : n.routes.find? (·.1 == output) = none ↔ output ∉ n.outputs := by
  rw [List.find?_eq_none, outputs, List.mem_map]
  simp only [beq_iff_eq, not_exists, not_and]

theorem routesFrom_congr (h : m.routes = n.routes) : m.routesFrom = n.routesFrom := by
  funext output
  rw [routesFrom, h, routesFrom]

theorem routesFrom_of_not_mem (h : output ∉ n.outputs) : n.routesFrom output = [] := by
  rw [routesFrom, find?_routes_eq_none_iff.2 h]
  rfl

theorem routesFrom_of_mem (h : n.outputs.Nodup) {e : String × List Route} (he : e ∈ n.routes) :
    n.routesFrom e.1 = e.2 := by
  obtain ⟨before, after, hroutes⟩ := List.append_of_mem he
  rw [outputs, hroutes, List.map_append, List.map_cons, List.nodup_append] at h
  rw [routesFrom, hroutes, List.find?_append, List.find?_cons_of_pos (by simp), List.find?_eq_none.2,
    Option.none_or]
  · rfl
  · intro d hd heq
    exact h.2.2 d.1 (List.mem_map_of_mem hd) e.1 List.mem_cons_self (by simpa using heq)

/-! ### One list changes -/

theorem outputs_replace (n : Node) (output : String) (g : List Route → List Route) :
    ({ n with routes := n.routes.map fun (f, rs) => if f == output then (f, g rs) else (f, rs) } : Node).outputs =
      n.outputs := by
  rw [outputs, List.map_map]
  refine List.map_congr_left fun e _ => ?_
  dsimp only [Function.comp]
  split <;> rfl

theorem routesFrom_replace (n : Node) (output other : String) (g : List Route → List Route) :
    ({ n with routes := n.routes.map fun (f, rs) => if f == output then (f, g rs) else (f, rs) } : Node).routesFrom
        other =
      if other = output ∧ output ∈ n.outputs then g (n.routesFrom output) else n.routesFrom other := by
  rw [routesFrom, find?_map_entries n.routes (fun _ => by dsimp only; split <;> rfl), Option.map_map]
  cases hfind : n.routes.find? (·.1 == other) with
  | none =>
    have hother := find?_routes_eq_none_iff.1 hfind
    rw [if_neg (by rintro ⟨rfl, h⟩; exact hother h), routesFrom_of_not_mem hother]
    rfl
  | some e =>
    have he : e.1 = other := by simpa using List.find?_some hfind
    have hmem : other ∈ n.outputs := he ▸ List.mem_map_of_mem (List.mem_of_find?_eq_some hfind)
    have hfrom : n.routesFrom other = e.2 := by rw [routesFrom, hfind]; rfl
    by_cases h : other = output
    · subst h
      rw [if_pos ⟨rfl, hmem⟩, hfrom]
      simp [he]
    · rw [if_neg fun hc => h hc.1, hfrom]
      simp [he, h]

/-! ### Adding a route -/

theorem addConnection_eq (n : Node) (output : String) (route : Route) :
    ∃ routes, (n.addConnection output route).2 = { n with routes } := by
  unfold addConnection
  split
  · split
    · exact ⟨n.routes, rfl⟩
    · exact ⟨_, rfl⟩
  · exact ⟨_, rfl⟩

theorem addConnection_id (n : Node) (output : String) (route : Route) :
    (n.addConnection output route).2.id = n.id := by
  obtain ⟨routes, hroutes⟩ := n.addConnection_eq output route
  rw [hroutes]

theorem addConnection_fst : (n.addConnection output route).1 = true ↔ route ∉ n.routesFrom output := by
  unfold addConnection
  split
  · split <;> simp_all
  · rename_i hnew
    rw [routesFrom_of_not_mem fun h => hnew (any_routes_iff.2 h)]
    simp

/-- A route that is added comes last, unless it is there already. -/
theorem routesFrom_addConnection (n : Node) (output other : String) (route : Route) :
    (n.addConnection output route).2.routesFrom other =
      if other = output ∧ route ∉ n.routesFrom output then n.routesFrom output ++ [route]
      else n.routesFrom other := by
  unfold addConnection
  split
  · rename_i hlisted
    split
    · rename_i hmem
      rw [if_neg fun h => h.2 (List.contains_iff_mem.1 hmem)]
    · rename_i hmem
      have hnew : route ∉ n.routesFrom output := fun h => hmem (List.contains_iff_mem.2 h)
      rw [routesFrom_replace n output other (· ++ [route])]
      simp only [any_routes_iff.1 hlisted, hnew, not_false_eq_true, and_true]
  · -- the first route that leaves the field begins a list
    rename_i hlisted
    have houtput : output ∉ n.outputs := fun h => hlisted (any_routes_iff.2 h)
    have hnil := routesFrom_of_not_mem houtput
    by_cases h : other = output
    · subst h
      rw [if_pos ⟨rfl, hnil ▸ List.not_mem_nil⟩, hnil, routesFrom, List.find?_append,
        find?_routes_eq_none_iff.2 houtput]
      simp
    · rw [if_neg fun hc => h hc.1, routesFrom, List.find?_append,
        List.find?_cons_of_neg (by simpa using Ne.symm h), routesFrom]
      simp

theorem nodup_addConnection (h : n.outputs.Nodup) (output : String) (route : Route) :
    (n.addConnection output route).2.outputs.Nodup := by
  unfold addConnection
  split
  · split
    · exact h
    · rw [outputs_replace n output (· ++ [route])]
      exact h
  · rename_i hlisted
    have hnew : output ∉ n.outputs := fun hmem => hlisted (any_routes_iff.2 hmem)
    rw [outputs, List.map_append, List.map_singleton, ← List.concat_eq_append]
    exact h.concat hnew

/-! ### Taking routes away -/

theorem removeConnection_eq (n : Node) (output : String) (route : Route) :
    ∃ routes, (n.removeConnection output route).2 = { n with routes } := by
  unfold removeConnection
  split
  · exact ⟨_, rfl⟩
  · exact ⟨n.routes, rfl⟩

theorem removeConnection_id (n : Node) (output : String) (route : Route) :
    (n.removeConnection output route).2.id = n.id := by
  obtain ⟨routes, hroutes⟩ := n.removeConnection_eq output route
  rw [hroutes]

theorem removeConnection_fst : (n.removeConnection output route).1 = true ↔ route ∈ n.routesFrom output := by
  unfold removeConnection
  split <;> simp_all

theorem routesFrom_removeConnection (n : Node) (output other : String) (route : Route) :
    (n.removeConnection output route).2.routesFrom other =
      if other = output then (n.routesFrom output).filter (· != route) else n.routesFrom other := by
  unfold removeConnection
  split
  · -- a list that loses its last route stays in the table
    rw [routesFrom_replace n output other (·.filter (· != route))]
    by_cases h : output ∈ n.outputs
    · simp only [h, and_true]
    · rw [if_neg fun hc => h hc.2]
      split
      · rename_i heq
        rw [heq, routesFrom_of_not_mem h]
        rfl
      · rfl
  · rename_i hmem
    split
    · rename_i heq
      rw [heq, List.filter_eq_self.2]
      intro r hr
      simpa using fun hc : r = route => hmem (List.contains_iff_mem.2 (hc ▸ hr))
    · rfl

theorem nodup_removeConnection (h : n.outputs.Nodup) (output : String) (route : Route) :
    (n.removeConnection output route).2.outputs.Nodup := by
  unfold removeConnection
  split
  · rw [outputs_replace n output (·.filter (· != route))]
    exact h
  · exact h

/-- A field that is taken away takes its routes with it. -/
theorem routesFrom_filter (n : Node) (name other : String) :
    ({ n with routes := n.routes.filter (·.1 != name) } : Node).routesFrom other =
      if other = name then [] else n.routesFrom other := by
  rw [routesFrom, List.find?_filter]
  by_cases h : other = name
  · rw [if_pos h, List.find?_eq_none.2]
    · rfl
    · rintro e -
      simp [h]
  · rw [if_neg h, routesFrom]
    congr 3
    funext e
    by_cases he : e.1 = other <;> simp [he, h]

/-! ### All routes -/

/-- The routes leaving one field are told in their order. -/
theorem filter_connections (h : n.outputs.Nodup) (output : String) :
    n.connections.filter (·.1 == output) = (n.routesFrom output).map (output, ·) := by
  unfold outputs at h
  unfold connections routesFrom
  generalize n.routes = entries at h
  induction entries with
  | nil => rfl
  | cons e rest ih =>
    obtain ⟨hnew, hrest⟩ := List.nodup_cons.1 h
    rw [List.flatMap_cons, List.filter_append, ih hrest]
    by_cases he : e.1 = output
    · -- no other list is of this field, so the rest has nothing to add
      have hnone : rest.find? (·.1 == output) = none := List.find?_eq_none.2 fun d hd hname =>
        hnew (List.mem_map.2 ⟨d, hd, (beq_iff_eq.1 hname).trans he.symm⟩)
      rw [hnone, List.find?_cons_of_pos (by simpa using he), List.filter_eq_self.2]
      · simp [he]
      · simp [he]
    · rw [List.find?_cons_of_neg (by simpa using he), List.filter_eq_nil_iff.2 (by simp [he])]
      rfl

theorem mem_connections_iff (h : n.outputs.Nodup) :
    (output, route) ∈ n.connections ↔ route ∈ n.routesFrom output := by
  have hmem : (output, route) ∈ n.connections.filter (·.1 == output) ↔ (output, route) ∈ n.connections := by
    simp
  rw [← hmem, filter_connections h]
  simp

/-! ### Distinct routes -/

/-- No field has two lists, and no list has a route twice. -/
structure HasDistinctRoutes (n : Node) : Prop where
  outputs : n.outputs.Nodup
  lists : ∀ output, (n.routesFrom output).Nodup

namespace HasDistinctRoutes

theorem of_routes (h : n.HasDistinctRoutes) (hroutes : m.routes = n.routes) : m.HasDistinctRoutes :=
  ⟨by rw [Node.outputs, hroutes]; exact h.outputs, by rw [routesFrom_congr hroutes]; exact h.lists⟩

theorem of_nil (hroutes : n.routes = []) : n.HasDistinctRoutes := by
  refine ⟨by rw [Node.outputs, hroutes]; exact .nil, fun output => ?_⟩
  rw [routesFrom, hroutes]
  exact .nil

theorem nodup_connections (h : n.HasDistinctRoutes) : n.connections.Nodup := by
  -- every occurrence of a route is in the list of the field that it leaves
  refine List.nodup_iff_count_le_one.2 fun t => ?_
  have hlist : ((n.routesFrom t.1).map (t.1, ·)).Nodup :=
    (h.lists t.1).map fun _ _ heq => (Prod.mk.inj heq).2
  rw [← filter_connections h.outputs] at hlist
  calc n.connections.count t = (n.connections.filter (·.1 == t.1)).count t :=
        (List.count_filter (by simp)).symm
    _ ≤ 1 := List.nodup_iff_count_le_one.1 hlist t

theorem addConnection (h : n.HasDistinctRoutes) (output : String) (route : Route) :
    (n.addConnection output route).2.HasDistinctRoutes := by
  refine ⟨nodup_addConnection h.outputs output route, fun other => ?_⟩
  rw [routesFrom_addConnection]
  split
  · rename_i hnew
    rw [← List.concat_eq_append]
    exact (h.lists output).concat hnew.2
  · exact h.lists other

theorem removeConnection (h : n.HasDistinctRoutes) (output : String) (route : Route) :
    (n.removeConnection output route).2.HasDistinctRoutes := by
  refine ⟨nodup_removeConnection h.outputs output route, fun other => ?_⟩
  rw [routesFrom_removeConnection]
  split
  · exact (h.lists output).filter _
  · exact h.lists other

theorem filter (h : n.HasDistinctRoutes) (name : String) :
    ({ n with routes := n.routes.filter (·.1 != name) } : Node).HasDistinctRoutes := by
  refine ⟨h.outputs.sublist (List.filter_sublist.map _), fun other => ?_⟩
  rw [routesFrom_filter]
  split
  · exact .nil
  · exact h.lists other

end HasDistinctRoutes

end Node

end SceneGraph
