import SceneGraph.Proofs.Cascade.Induction
import SceneGraph.Proofs.Cascade.SimplePaths
import SceneGraph.Proofs.World.Operations

/-!
# Assignments among passive nodes

Nodes that only hold values and are kept alive by handles (`World.Passive`) either take over a value
as it is or refuse it without any effect.

* `World.hops`: the valid hops that leave a field.
* `Delivered`: a part of a cascade that puts a value into some fields and does nothing else; such
  parts compose (`Delivered.trans`) and keep the graph of hops (`Delivered.hopGraph`).
* `receive_of_takes`, `receive_of_not_takes`: what a node does with a value.
-/

namespace SceneGraph

/-- The assignments that a journal tells of, in order. -/
def Journal.assigned (j : Journal) : List (Slot × Field) :=
  j.reverse.filterMap fun
    | .step (.stored id name value) => some ((id, name), value)
    | _ => none

namespace World

/-- The assignments so far, in order. -/
def assigned (w : World) : List (Slot × Field) := w.journal.assigned

/-- What a field holds, with its time. -/
def fieldAt (w : World) (s : Slot) : Option Field := (w.node? s.1).bind (·.field? s.2)

/-- The node is there, and its field can be set and is of the kind. -/
def takes (w : World) (s : Slot) (k : Kind) : Bool :=
  (w.node? s.1).any fun n =>
    (n.access? s.2).any (·.set) && (n.field? s.2).map (·.kind) == some k

/-- The valid hops that leave a field: it can be read, and the field at the other end exists, can be
set and is of the same kind. They are in the order in which the routes were added. -/
def hops (w : World) (s : Slot) : List Slot :=
  match w.node? s.1 with
  | none => []
  | some n =>
    if (n.access? s.2).any (·.get) then
      ((n.routesFrom s.2).map Route.slot).filter fun t => ((n.field? s.2).map (·.kind)).any (w.takes t)
    else []

/-- Where the routes of all nodes lead. -/
def routeEnds (w : World) : List Slot := (w.nodes.flatMap Node.connections).map (·.2.slot)

/-- No node lists a route twice, as `Node.addConnection` sees to. -/
def RoutesDistinct (w : World) : Prop := ∀ n ∈ w.nodes, ∀ output, (n.routesFrom output).Nodup

/-- All nodes only hold values, and handles keep them alive. -/
structure Passive (w : World) : Prop where
  behavior : ∀ n ∈ w.nodes, n.behavior = .plain ∨ n.behavior = .dynamic
  held : ∀ n ∈ w.nodes, n.id ∈ w.held

theorem mem_connections_of_mem_routesFrom {n : Node} {output : String} {r : Route}
    (h : r ∈ n.routesFrom output) : (output, r) ∈ n.connections := by
  unfold Node.routesFrom at h
  cases hf : n.routes.find? (·.1 == output) with
  | none => rw [hf] at h; simp at h
  | some e =>
    rw [hf] at h
    have he : e.1 = output := by simpa using List.find?_some hf
    refine List.mem_flatMap.2 ⟨e, List.mem_of_find?_eq_some hf, List.mem_map.2 ⟨r, by simpa using h, ?_⟩⟩
    rw [he]

theorem slot_mem_routeEnds {w : World} {n : Node} {output : String} {r : Route} (hn : n ∈ w.nodes)
    (h : r ∈ n.routesFrom output) : r.slot ∈ w.routeEnds :=
  List.mem_map.2 ⟨(output, r),
    List.mem_flatMap.2 ⟨n, hn, mem_connections_of_mem_routesFrom h⟩, rfl⟩

theorem hops_subset (w : World) (s : Slot) : w.hops s ⊆ w.routeEnds := by
  intro t ht
  unfold hops at ht
  split at ht
  · cases ht
  rename_i n hn
  split at ht
  · obtain ⟨r, hr, rfl⟩ := List.mem_map.1 (List.mem_of_mem_filter ht)
    exact slot_mem_routeEnds (mem_nodes_of_node? hn) hr
  · cases ht

/-- The graph of the valid hops. -/
def hopGraph (w : World) : OutGraph Slot := ⟨w.hops, w.routeEnds, w.hops_subset⟩

/-- The trails of valid hops from a field, in depth-first preorder, each with its end first. -/
def trails (w : World) (s : Slot) : List (List Slot) := w.hopGraph.trailsFrom [s]

/-- Puts a value into a field. -/
def put (w : World) (s : Slot) (value : Field) : World := w.modify s.1 (·.store s.2 value)

/-- Puts a value into several fields. -/
def putAll (w : World) (slots : List Slot) (value : Field) : World := slots.foldl (put · · value) w

variable {w w' : World} {s t : Slot} {v : Field} {k : Kind} {l l' : List Slot}

/-! ### Putting a value keeps the hops -/

theorem takes_iff : w.takes s k = true ↔
    ∃ n, w.node? s.1 = some n ∧ (∃ a, n.access? s.2 = some a ∧ a.set = true) ∧
      (n.field? s.2).map (·.kind) = some k := by
  simp only [takes, Option.any_eq_true, Bool.and_eq_true, beq_iff_eq]

theorem map_kind_field?_store {n : Node} {name : String} {f : Field}
    (h : (n.field? name).map (·.kind) = some f.kind) (other : String) :
    ((n.store name f).field? other).map (·.kind) = (n.field? other).map (·.kind) := by
  rw [Node.field?_store]
  by_cases ho : other = name
  · subst ho
    rw [if_pos rfl, h, Option.map_map]
    obtain ⟨old, hold, -⟩ := Option.map_eq_some_iff.1 h
    simp [hold]
  · rw [if_neg ho]

theorem node?_put (w : World) (s : Slot) (v : Field) (id : NodeId) :
    (w.put s v).node? id = (w.node? id).map fun n => if n.id = s.1 then n.store s.2 v else n :=
  node?_modify w s.1 id fun n => Node.store_id n s.2 v

/-- Only the field that takes the value changes, if it is there. -/
theorem fieldAt_put (w : World) (s t : Slot) (v : Field) :
    (w.put s v).fieldAt t = if t = s then (w.fieldAt s).map fun _ => v else w.fieldAt t := by
  unfold fieldAt
  rw [node?_put]
  cases hn : w.node? t.1 with
  | none =>
    split
    · rename_i h; subst h; rw [hn]; rfl
    · rfl
  | some n =>
    rw [Option.map_some, Option.bind_some]
    by_cases h : t = s
    · subst h
      rw [if_pos (id_of_node? hn), if_pos rfl, hn, Option.bind_some, Node.field?_store, if_pos rfl]
    · rw [if_neg h, Option.bind_some]
      split
      · rename_i hid
        rw [id_of_node? hn] at hid
        rw [Node.field?_store, if_neg fun h₂ => h (Prod.ext hid h₂)]
      · rfl

/-- What the look-ups of `takes` and `hops` say about a node is the same after a value of the right
kind is put. -/
theorem node?_put_of_takes (h : w.takes s v.kind = true) {id : NodeId} {n : Node}
    (hn : w.node? id = some n) : ∃ m, (w.put s v).node? id = some m ∧ m.access? = n.access? ∧
      (∀ name, (m.field? name).map (·.kind) = (n.field? name).map (·.kind)) ∧
      m.routesFrom = n.routesFrom := by
  rw [node?_put, hn]
  by_cases hs : n.id = s.1
  · refine ⟨n.store s.2 v, by simp [hs], ?_, ?_, ?_⟩
    · funext name; simp
    · obtain ⟨m, hm, -, hk⟩ := takes_iff.1 h
      obtain rfl : m = n := by
        rw [← hs, id_of_node? hn, hn] at hm
        exact (Option.some.inj hm).symm
      exact map_kind_field?_store hk
    · funext name; simp
  · exact ⟨n, by simp [hs], rfl, fun _ => rfl, rfl⟩

theorem node?_put_eq_none {id : NodeId} (hn : w.node? id = none) : (w.put s v).node? id = none := by
  rw [node?_put, hn]; rfl

theorem takes_put (h : w.takes s v.kind = true) : (w.put s v).takes = w.takes := by
  funext t k
  unfold takes
  cases hn : w.node? t.1 with
  | none => rw [node?_put_eq_none hn]
  | some n =>
    obtain ⟨m, hm, ha, hf, -⟩ := node?_put_of_takes h hn
    rw [hm]
    simp only [Option.any_some, ha, hf]

theorem hops_put (h : w.takes s v.kind = true) : (w.put s v).hops = w.hops := by
  funext t
  unfold hops
  rw [takes_put h]
  cases hn : w.node? t.1 with
  | none => rw [node?_put_eq_none hn]
  | some n =>
    obtain ⟨m, hm, ha, hf, hr⟩ := node?_put_of_takes h hn
    rw [hm]
    simp only [ha, hf, hr]

theorem routeEnds_put (w : World) (s : Slot) (v : Field) : (w.put s v).routeEnds = w.routeEnds := by
  unfold routeEnds put modify
  rw [List.flatMap_map]
  congr 1
  apply List.flatMap_congr
  intro n _
  by_cases h : n.id = s.1 <;> simp [h, Node.connections]

theorem hopGraph_put (h : w.takes s v.kind = true) : (w.put s v).hopGraph = w.hopGraph := by
  simp only [hopGraph, hops_put h, routeEnds_put]

theorem takes_congr (h : w.nodes = w'.nodes) : w.takes = w'.takes := by
  funext s k
  simp only [takes, node?_congr h]

theorem hopGraph_congr (h : w.nodes = w'.nodes) : w.hopGraph = w'.hopGraph := by
  have hh : w.hops = w'.hops := by
    funext s
    simp only [hops, node?_congr h, takes_congr h]
  have he : w.routeEnds = w'.routeEnds := by simp only [routeEnds, h]
  simp only [hopGraph, hh, he]

theorem putAll_spec (h : ∀ s ∈ l, w.takes s v.kind = true) :
    (w.putAll l v).takes = w.takes ∧ (w.putAll l v).hopGraph = w.hopGraph := by
  induction l generalizing w with
  | nil => exact ⟨rfl, rfl⟩
  | cons s rest ih =>
    have hs := h s List.mem_cons_self
    have hrest : ∀ t ∈ rest, (w.put s v).takes t v.kind = true := by
      rw [takes_put hs]
      exact fun t ht => h t (List.mem_cons_of_mem _ ht)
    obtain ⟨h₁, h₂⟩ := ih hrest
    exact ⟨h₁.trans (takes_put hs), h₂.trans (hopGraph_put hs)⟩

theorem putAll_append (w : World) (l l' : List Slot) (v : Field) :
    w.putAll (l ++ l') v = (w.putAll l v).putAll l' v := List.foldl_append

theorem nodes_putAll_congr (h : w.nodes = w'.nodes) (l : List Slot) (v : Field) :
    (w.putAll l v).nodes = (w'.putAll l v).nodes := by
  induction l generalizing w w' with
  | nil => exact h
  | cons s rest ih => exact ih (by simp only [put, modify, h])

theorem map_id_putAll (w : World) (l : List Slot) (v : Field) :
    (w.putAll l v).nodes.map (fun n => (n.id, n.behavior)) =
      w.nodes.map fun n => (n.id, n.behavior) := by
  induction l generalizing w with
  | nil => rfl
  | cons s rest ih =>
    refine (ih (w.put s v)).trans ?_
    simp only [put, modify, List.map_map]
    apply List.map_congr_left
    intro n _
    by_cases h : n.id = s.1 <;> simp [h]

/-! ### Nothing is let go of -/

/-- Passive worlds stay so when nodes change but not their ids and behaviours. -/
theorem Passive.of_nodes (hw : w.Passive)
    (hn : w'.nodes.map (fun n => (n.id, n.behavior)) = w.nodes.map fun n => (n.id, n.behavior))
    (hh : ∀ id ∈ w.held, id ∈ w'.held) : w'.Passive := by
  have key : ∀ n ∈ w'.nodes, ∃ m ∈ w.nodes, m.id = n.id ∧ m.behavior = n.behavior := by
    intro n hmem
    have : (n.id, n.behavior) ∈ w.nodes.map fun n => (n.id, n.behavior) :=
      hn ▸ List.mem_map_of_mem (f := fun n => (n.id, n.behavior)) hmem
    obtain ⟨m, hm, he⟩ := List.mem_map.1 this
    exact ⟨m, hm, (Prod.mk.inj he).1, (Prod.mk.inj he).2⟩
  constructor
  · intro n hmem
    obtain ⟨m, hm, -, hb⟩ := key n hmem
    exact hb ▸ hw.behavior m hm
  · intro n hmem
    obtain ⟨m, hm, hi, -⟩ := key n hmem
    exact hh _ (hi ▸ hw.held m hm)

/-- Nobody goes when every node is held by a handle. -/
theorem Passive.release (hw : w.Passive) (ids : List NodeId) : release ids w = w := by
  induction ids with
  | nil => rw [World.release]
  | cons id rest ih =>
    rw [World.release]
    split
    · exact ih
    · rename_i hheld
      split
      · exact ih
      · rename_i n hn
        have := hw.held n (mem_nodes_of_node? hn)
        rw [id_of_node? hn] at this
        simp [isHeld, this] at hheld

/-! ### What is delivered -/

/-- A part of a cascade that puts a value into some fields, in this order, and does nothing else. -/
structure Delivered (v : Field) (l : List Slot) (w w' : World) : Prop where
  taken : ∀ s ∈ l, w.takes s v.kind = true
  nodes : w'.nodes = (w.putAll l v).nodes
  held : w'.held = w.held
  cascade : w'.cascade = w.cascade
  assigned : w'.assigned = w.assigned ++ l.map (·, v)

namespace Delivered

theorem refl (w : World) (v : Field) : Delivered v [] w w :=
  ⟨by simp, rfl, rfl, rfl, by simp⟩

theorem takes (h : Delivered v l w w') : w'.takes = w.takes :=
  (takes_congr h.nodes).trans (putAll_spec h.taken).1

theorem hopGraph (h : Delivered v l w w') : w'.hopGraph = w.hopGraph :=
  (hopGraph_congr h.nodes).trans (putAll_spec h.taken).2

theorem trans {w'' : World} (h : Delivered v l w w') (h' : Delivered v l' w' w'') :
    Delivered v (l ++ l') w w'' where
  taken s hs := by
    rcases List.mem_append.1 hs with hs | hs
    · exact h.taken s hs
    · exact h.takes ▸ h'.taken s hs
  nodes := by rw [h'.nodes, putAll_append, nodes_putAll_congr h.nodes]
  held := h'.held.trans h.held
  cascade := h'.cascade.trans h.cascade
  assigned := by rw [h'.assigned, h.assigned, List.map_append, List.append_assoc]

theorem passive (h : Delivered v l w w') (hw : w.Passive) : w'.Passive :=
  hw.of_nodes (by rw [h.nodes, map_id_putAll]) fun _ hid => h.held ▸ hid

end Delivered

theorem assigned_enter (w : World) {e : Entry} (he : ∀ id name f, e ≠ .step (.stored id name f)) :
    (w.enter e).assigned = w.assigned := by
  simp only [assigned, Journal.assigned, enter, List.reverse_cons, List.filterMap_append]
  refine (congrArg _ ?_).trans (List.append_nil _)
  cases e with
  | step s => cases s <;> first | rfl | exact absurd rfl (he _ _ _)
  | _ => rfl

theorem assigned_stored (w : World) (id : NodeId) (name : String) (f : Field) :
    (w.step (.stored id name f)).assigned = w.assigned ++ [((id, name), f)] := by
  simp [assigned, Journal.assigned, step, enter]

/-- Entering something else than an assignment into the journal delivers nothing. -/
theorem Delivered.enter (h : Delivered v l w w') {e : Entry}
    (he : ∀ id name f, e ≠ .step (.stored id name f)) : Delivered v l w (w'.enter e) :=
  ⟨h.taken, h.nodes, h.held, h.cascade, by rw [assigned_enter w' he, h.assigned]⟩

/-- A node that only holds values takes over a value of the right kind that it may be set to. -/
theorem receive_of_takes {n : Node} (hw : w.Passive) (hn : w.node? n.id = some n)
    (h : w.takes (n.id, s.2) v.kind = true) :
    ∃ released, w.receive n s.2 v =
      (.ok (), ⟨released, []⟩, (w.put (n.id, s.2) v).step (.stored n.id s.2 v)) := by
  obtain ⟨m, hm, ⟨a, ha, hset⟩, hk⟩ := takes_iff.1 h
  obtain rfl : n = m := Option.some.inj (hn.symm.trans hm)
  obtain ⟨old, hold, hkind⟩ := Option.map_eq_some_iff.1 hk
  have hassign : w.assign n.id s.2 v {} =
      (true, ⟨old.references, []⟩, (w.put (n.id, s.2) v).step (.stored n.id s.2 v)) := by
    simp only [assign, hn, Option.bind_some, hold, Field.assign, hkind, if_true]
    rfl
  have hnotice : ∀ w', w'.nodes = (w.put (n.id, s.2) v).nodes →
      noticeChange w' n.id s.2 = w' := by
    intro w' hw'
    unfold noticeChange
    split
    · rename_i m hm'
      rw [node?_congr hw', node?_put, hn] at hm'
      have hb : m.behavior = n.behavior := by
        rw [← Option.some.inj hm']; simp
      rcases hw.behavior n (mem_nodes_of_node? hn) with hp | hp <;> rw [hb, hp]
    · rfl
  refine ⟨old.references, ?_⟩
  simp only [receive, ha, hset, hold, hkind, ne_eq, not_true_eq_false, if_false, Bool.not_true,
    Bool.false_eq_true]
  split
  · have hc : w.changeField n s.2 v = w.assign n.id s.2 v {} := by
      rcases hw.behavior n (mem_nodes_of_node? hn) with hp | hp <;> simp only [changeField, hp]
    rw [hc, hassign]
  · rw [hassign]
    split
    · dsimp only
      rw [hnotice ((w.put (n.id, s.2) v).step (.stored n.id s.2 v)) rfl]
    · rfl

/-- Any other value is refused, and nothing happens. -/
theorem receive_of_not_takes {n : Node} (hw : w.Passive) (hn : w.node? n.id = some n)
    (h : w.takes (n.id, s.2) v.kind = false) : ∃ e, w.receive n s.2 v = (.error e, {}, w) := by
  unfold receive
  cases ha : n.access? s.2 with
  | none => exact ⟨_, rfl⟩
  | some a =>
    simp only
    by_cases hset : a.set = true
    · have hk : ∀ old, n.field? s.2 = some old → old.kind ≠ v.kind := by
        intro old hold hkind
        have : w.takes (n.id, s.2) v.kind = true :=
          takes_iff.2 ⟨n, hn, ⟨a, ha, hset⟩, by simp [hold, hkind]⟩
        rw [this] at h
        cases h
      rw [hset, Bool.not_true, if_neg Bool.false_ne_true]
      split
      · have hassign : w.assign n.id s.2 v {} = (false, {}, w) := by
          obtain heq | ⟨m, old, hm, hold, hkind, -⟩ := assign_cases w n.id s.2 v {}
          · exact heq
          · obtain rfl := Option.some.inj (hn.symm.trans hm)
            exact absurd hkind (hk old hold)
        have hc : w.changeField n s.2 v = w.assign n.id s.2 v {} := by
          rcases hw.behavior n (mem_nodes_of_node? hn) with hp | hp <;> simp only [changeField, hp]
        rw [hc, hassign]
        exact ⟨_, rfl⟩
      · cases hf : n.field? s.2 with
        | none => exact ⟨_, rfl⟩
        | some old => exact ⟨.typeMismatch s.2 old.kind v.kind, by simp only [ne_eq, hk old hf,
            not_false_eq_true, if_true]⟩
    · rw [Bool.not_eq_true] at hset
      exact ⟨_, by rw [hset, Bool.not_false, if_pos rfl]⟩

end World

end SceneGraph
