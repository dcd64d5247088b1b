import Mathlib.Data.List.Nodup
import Mathlib.Logic.Function.Iterate
import SceneGraph.Proofs.World.Operations
import SceneGraph.World.Grouping

/-!
# Lists of parents

How often a node counts another one among its parents, and the parts of a run that change nothing but
lists of parents.

* `Node.parentCount_addParent`, `parentCount_removeParent`, `iterate_removeParent`: counting up and down.
* `World.Reparents`: a part of a run that changes each list of parents in some way and nothing else.
* `Reparents.foldl`: such parts, one for each entry of a list, count the entries.
* `reparents_takeLeave`: a node takes leave of what it claimed (`Node.claimed`).
-/

namespace SceneGraph

/-- An entry that tells of an error. -/
def Entry.isError : Entry → Bool
  | .log .error _ => true
  | _ => false

namespace Node

/-- How often a list of parents counts a node. -/
def parentCount (parents : List (NodeId × Nat)) (p : NodeId) : Nat :=
  ((parents.find? (·.1 == p)).map (·.2)).getD 0

/-- Every parent is listed once and counts at least once. -/
structure Counted (parents : List (NodeId × Nat)) : Prop where
  nodup : (parents.map (·.1)).Nodup
  pos : ∀ e ∈ parents, 0 < e.2

/-- The children that a node counts itself a parent of: those of a grouping node that is set up. -/
def claimed (n : Node) : List NodeId :=
  if n.behavior = .grouping ∧ n.initialized = true then n.nodesIn childrenField else []

variable {ps : List (NodeId × Nat)} {p q : NodeId} {k : Nat}

theorem parentCount_cons (e : NodeId × Nat) (ps : List (NodeId × Nat)) (q : NodeId) :
    parentCount (e :: ps) q = if e.1 = q then e.2 else parentCount ps q := by
  by_cases h : e.1 = q <;> simp [parentCount, h]

theorem parentCount_addParent (p q : NodeId) (ps : List (NodeId × Nat)) :
    parentCount (addParent p ps) q = parentCount ps q + if q = p then 1 else 0 := by
  induction ps with
  | nil =>
    rw [addParent, parentCount_cons]
    by_cases h : p = q
    · simp [h, parentCount]
    · simp [h, Ne.symm h, parentCount]
  | cons e rest ih =>
    obtain ⟨a, k⟩ := e
    rw [addParent]
    by_cases ha : a = p
    · rw [if_pos ha, parentCount_cons, parentCount_cons]
      by_cases hq : a = q
      · simp [hq, ← ha]
      · simp [hq, Ne.symm hq, ← ha]
    · rw [if_neg ha, parentCount_cons, parentCount_cons, ih]
      by_cases hq : a = q
      · simp [hq, hq ▸ ha]
      · simp [hq]

theorem map_fst_addParent (p : NodeId) (ps : List (NodeId × Nat)) :
    (addParent p ps).map (·.1) = if p ∈ ps.map (·.1) then ps.map (·.1) else ps.map (·.1) ++ [p] := by
  induction ps with
  | nil => rfl
  | cons e rest ih =>
    obtain ⟨a, k⟩ := e
    rw [addParent]
    by_cases ha : a = p
    · simp [ha]
    · rw [if_neg ha, List.map_cons, ih]
      by_cases hp : p ∈ rest.map (·.1) <;> simp [hp, Ne.symm ha]

theorem Counted.addParent (h : Counted ps) (p : NodeId) : Counted (Node.addParent p ps) := by
  constructor
  · rw [map_fst_addParent]
    split
    · exact h.nodup
    · rename_i hp
      rw [List.nodup_append]
      exact ⟨h.nodup, List.nodup_singleton p, fun a ha b hb => by
        rw [List.mem_singleton.1 hb]
        rintro rfl
        exact hp ha⟩
  · obtain ⟨-, hpos⟩ := h
    induction ps with
    | nil => simp [Node.addParent]
    | cons e rest ih =>
      obtain ⟨a, k⟩ := e
      rw [Node.addParent]
      have hrest := fun e he => hpos e (List.mem_cons_of_mem _ he)
      split
      · exact List.forall_mem_cons.2 ⟨Nat.succ_pos k, hrest⟩
      · exact List.forall_mem_cons.2 ⟨hpos _ List.mem_cons_self, ih hrest⟩

theorem map_fst_removeParent_sublist (p : NodeId) (ps : List (NodeId × Nat)) :
    ((removeParent p ps).map (·.1)).Sublist (ps.map (·.1)) := by
  induction ps with
  | nil => exact List.Sublist.refl _
  | cons e rest ih =>
    obtain ⟨a, k⟩ := e
    rw [removeParent]
    split
    · split
      · exact List.sublist_cons_self _ _
      · exact List.Sublist.refl _
    · exact ih.cons_cons _

theorem parentCount_eq_zero (h : q ∉ ps.map (·.1)) : parentCount ps q = 0 := by
  rw [parentCount, List.find?_eq_none.2, Option.map_none, Option.getD_none]
  intro e he heq
  exact h (List.mem_map.2 ⟨e, he, by simpa using heq⟩)

theorem parentCount_pos_iff (h : Counted ps) : 0 < parentCount ps q ↔ q ∈ ps.map (·.1) := by
  constructor
  · intro hpos
    by_contra hq
    rw [parentCount_eq_zero hq] at hpos
    exact absurd hpos (Nat.lt_irrefl 0)
  · intro hq
    obtain ⟨e, he, heq⟩ := List.mem_map.1 hq
    cases hfind : ps.find? (·.1 == q) with
    | none => exact absurd (by simpa using heq) (List.find?_eq_none.1 hfind e he)
    | some a =>
      rw [parentCount, hfind]
      exact h.pos a (List.mem_of_find?_eq_some hfind)

theorem parentCount_removeParent (h : Counted ps) (p q : NodeId) :
    parentCount (removeParent p ps) q = parentCount ps q - if q = p then 1 else 0 := by
  obtain ⟨hnodup, -⟩ := h
  induction ps with
  | nil => simp [removeParent, parentCount]
  | cons e rest ih =>
    obtain ⟨a, k⟩ := e
    rw [List.map_cons, List.nodup_cons] at hnodup
    rw [removeParent, parentCount_cons]
    by_cases ha : a = p
    · rw [if_pos ha]
      by_cases hk : k ≤ 1
      · rw [if_pos hk]
        by_cases hq : a = q
        · rw [parentCount_eq_zero (hq ▸ hnodup.1)]
          simp only [hq, if_true, ← ha]
          omega
        · simp [hq, ← ha, Ne.symm hq]
      · rw [if_neg hk, parentCount_cons]
        by_cases hq : a = q
        · simp [hq, ← ha]
        · simp [hq, ← ha, Ne.symm hq]
    · rw [if_neg ha, parentCount_cons, ih hnodup.2]
      by_cases hq : a = q
      · simp [hq, hq ▸ ha]
      · simp [hq]

theorem Counted.removeParent (h : Counted ps) (p : NodeId) : Counted (Node.removeParent p ps) := by
  constructor
  · exact h.nodup.sublist (map_fst_removeParent_sublist p ps)
  · obtain ⟨-, hpos⟩ := h
    induction ps with
    | nil => simp [Node.removeParent]
    | cons e rest ih =>
      obtain ⟨a, k⟩ := e
      rw [Node.removeParent]
      have hrest := fun e he => hpos e (List.mem_cons_of_mem _ he)
      split
      · split
        · exact hrest
        · rename_i hk
          exact List.forall_mem_cons.2 ⟨by omega, hrest⟩
      · exact List.forall_mem_cons.2 ⟨hpos _ List.mem_cons_self, ih hrest⟩

theorem Counted.iterate {f : List (NodeId × Nat) → List (NodeId × Nat)}
    (hf : ∀ ps, Counted ps → Counted (f ps)) (h : Counted ps) (k : Nat) : Counted (f^[k] ps) := by
  induction k generalizing ps with
  | zero => exact h
  | succ k ih => exact ih (hf ps h)

theorem parentCount_iterate_addParent (p q : NodeId) (k : Nat) (ps : List (NodeId × Nat)) :
    parentCount ((Node.addParent p)^[k] ps) q = parentCount ps q + if q = p then k else 0 := by
  induction k generalizing ps with
  | zero => simp
  | succ k ih =>
    rw [Function.iterate_succ_apply, ih, parentCount_addParent]
    split <;> omega

theorem parentCount_iterate_removeParent (h : Counted ps) (p q : NodeId) (k : Nat) :
    parentCount ((Node.removeParent p)^[k] ps) q = parentCount ps q - if q = p then k else 0 := by
  induction k generalizing ps with
  | zero => simp
  | succ k ih =>
    rw [Function.iterate_succ_apply, ih (h.removeParent p), parentCount_removeParent h]
    split <;> omega

theorem iterate_removeParent_self (p : NodeId) (k : Nat) (ps : List (NodeId × Nat)) :
    (Node.removeParent p)^[k + 1] ((p, k + 1) :: ps) = ps := by
  induction k with
  | zero => exact (if_pos rfl).trans (if_pos (Nat.le_refl 1))
  | succ k ih =>
    rw [Function.iterate_succ_apply, Node.removeParent, if_pos rfl, if_neg (by omega)]
    exact ih

/-- A parent that is taken back as often as it counts is gone from the list, and the others stay. -/
theorem iterate_removeParent (h : Counted ps) (p : NodeId) :
    (Node.removeParent p)^[parentCount ps p] ps = ps.filter (·.1 != p) := by
  obtain ⟨hnodup, hpos⟩ := h
  induction ps with
  | nil => rfl
  | cons e rest ih =>
    obtain ⟨a, k⟩ := e
    obtain ⟨hkey, hrest⟩ := List.nodup_cons.1 hnodup
    obtain ⟨hk, hpos⟩ := List.forall_mem_cons.1 hpos
    rw [parentCount_cons]
    by_cases ha : a = p
    · subst ha
      have hothers : rest.filter (·.1 != a) = rest := List.filter_eq_self.2 fun e he => by
        have hne : e.1 ≠ a := fun hea => hkey (List.mem_map.2 ⟨e, he, hea⟩)
        simpa using hne
      obtain ⟨j, rfl⟩ : ∃ j, k = j + 1 := Nat.exists_eq_succ_of_ne_zero (Nat.pos_iff_ne_zero.1 hk)
      rw [if_pos rfl, List.filter_cons_of_neg (by simp), hothers]
      exact iterate_removeParent_self a j rest
    · have hskip : Function.Semiconj (List.cons (a, k)) (Node.removeParent p) (Node.removeParent p) := fun qs => by
        rw [Node.removeParent, if_neg ha]
      rw [if_neg ha, List.filter_cons_of_pos (by simpa using ha), ← hskip.iterate_right _ rest, ih hrest hpos]

end Node

namespace World

/-- The children that a live node counts itself a parent of. -/
def claimed (w : World) (p : NodeId) : List NodeId := ((w.node? p).map Node.claimed).getD []

/-- A part of a run that changes every list of parents as `g` tells and nothing else. What it enters
into the journal tells of no error. -/
structure Reparents (g : NodeId → List (NodeId × Nat) → List (NodeId × Nat)) (w w' : World) : Prop
    where
  nodes : w'.nodes = w.nodes.map fun n => { n with parents := g n.id n.parents }
  registry : w'.registry = w.registry
  specifications : w'.specifications = w.specifications
  held : w'.held = w.held
  cascade : w'.cascade = w.cascade
  journal : ∃ entries, w'.journal = entries ++ w.journal ∧ ∀ e ∈ entries, e.isError = false

variable {w w' w'' : World} {g g' : NodeId → List (NodeId × Nat) → List (NodeId × Nat)}

namespace Reparents

theorem refl (w : World) : Reparents (fun _ ps => ps) w w :=
  ⟨(List.map_id' _).symm, rfl, rfl, rfl, rfl, [], rfl, by simp⟩

theorem trans (h : Reparents g w w') (h' : Reparents g' w' w'') :
    Reparents (fun id ps => g' id (g id ps)) w w'' := by
  obtain ⟨es, hes, hq⟩ := h.journal
  obtain ⟨es', hes', hq'⟩ := h'.journal
  refine ⟨?_, h'.registry.trans h.registry, h'.specifications.trans h.specifications,
    h'.held.trans h.held, h'.cascade.trans h.cascade, es' ++ es, ?_, ?_⟩
  · rw [h'.nodes, h.nodes, List.map_map]; rfl
  · rw [hes', hes, List.append_assoc]
  · exact fun e he => (List.mem_append.1 he).elim (hq' e) (hq e)

theorem enter (h : Reparents g w w') {e : Entry} (he : e.isError = false) :
    Reparents g w (w'.enter e) := by
  obtain ⟨es, hes, hq⟩ := h.journal
  exact ⟨h.nodes, h.registry, h.specifications, h.held, h.cascade, e :: es, congrArg (e :: ·) hes,
    List.forall_mem_cons.2 ⟨he, hq⟩⟩

theorem modify (w : World) (c : NodeId) (f : List (NodeId × Nat) → List (NodeId × Nat)) :
    Reparents (fun id ps => if id = c then f ps else ps) w
      (w.modify c fun n => { n with parents := f n.parents }) := by
  refine ⟨?_, rfl, rfl, rfl, rfl, [], rfl, by simp⟩
  rw [World.modify]
  apply List.map_congr_left
  intro n _
  by_cases hn : n.id = c <;> simp [hn]

/-- Parts that each change the parents of one node of a list change those of a node as often as it is
listed. -/
theorem foldl {act : World → NodeId → World} {f : List (NodeId × Nat) → List (NodeId × Nat)}
    (hact : ∀ w c, Reparents (fun id ps => if id = c then f ps else ps) w (act w c))
    (w : World) (l : List NodeId) :
    Reparents (fun id ps => f^[l.count id] ps) w (l.foldl act w) := by
  induction l generalizing w with
  | nil => exact refl w
  | cons c rest ih =>
    have h := (hact w c).trans (ih (act w c))
    rw [List.foldl_cons]
    convert h using 3 with id ps
    by_cases hid : id = c
    · rw [if_pos hid, hid, List.count_cons_self, Function.iterate_succ_apply]
    · rw [if_neg hid, List.count_cons_of_ne (Ne.symm hid)]

theorem liveIds (h : Reparents g w w') : w'.liveIds = w.liveIds := by
  rw [World.liveIds, h.nodes, List.map_map]; rfl

theorem node? (h : Reparents g w w') (id : NodeId) :
    w'.node? id = (w.node? id).map fun n => { n with parents := g n.id n.parents } := by
  rw [World.node?, h.nodes, List.find?_map]; rfl

theorem claimed (h : Reparents g w w') : w'.claimed = w.claimed := by
  funext p
  rw [World.claimed, h.node?, World.claimed, Option.map_map]
  rfl

end Reparents

theorem reparents_detach (w : World) (p c : NodeId) : Reparents (fun _ ps => ps) w (w.detach p c) := by
  obtain heq | ⟨a, b, heq⟩ := detach_cases w p c <;> rw [heq]
  · exact Reparents.refl w
  · exact (Reparents.refl w).enter rfl

theorem reparents_attach (w : World) (p c : NodeId) : Reparents (fun _ ps => ps) w (w.attach p c) := by
  obtain heq | ⟨a, b, heq⟩ := attach_cases w p c <;> rw [heq]
  · exact Reparents.refl w
  · exact (Reparents.refl w).enter rfl

theorem reparents_unlink (w : World) (p c : NodeId) :
    Reparents (fun id ps => if id = c then Node.removeParent p ps else ps) w (w.unlink p c) :=
  (Reparents.modify w c _).trans (reparents_detach _ p c)

theorem reparents_link (w : World) (p c : NodeId) :
    Reparents (fun id ps => if id = c then Node.addParent p ps else ps) w (w.link p c) :=
  (Reparents.modify w c _).trans (reparents_attach _ p c)

/-- The old children are given up and the new ones are claimed. -/
theorem reparents_relink (w : World) (p : NodeId) (old new : List NodeId) :
    Reparents
      (fun id ps => (Node.addParent p)^[new.count id] ((Node.removeParent p)^[old.count id] ps))
      w (new.foldl (link · p ·) (old.foldl (unlink · p ·) w)) :=
  (Reparents.foldl (fun w c => reparents_unlink w p c) w old).trans
    (Reparents.foldl (fun w c => reparents_link w p c) _ new)

theorem reparents_logRejected (w : World) (p c : NodeId) :
    Reparents (fun _ ps => ps) w (w.logRejected p c) := by
  obtain heq | ⟨text, heq⟩ := logRejected_cases w p c <;> rw [heq]
  · exact Reparents.refl w
  · exact (Reparents.refl w).enter rfl

/-- What is accepted are the proposed children that are no ancestors; only messages are entered. -/
theorem accept_spec (w : World) (p : NodeId) (proposed : List NodeId) :
    (w.accept p proposed).1 = proposed.filter (!(w.ancestors p).contains ·) ∧
      Reparents (fun _ ps => ps) w (w.accept p proposed).2.2 := by
  refine ⟨rfl, ?_⟩
  have h := Reparents.foldl (f := id) (fun w c => by simpa using reparents_logRejected w p c) w
    (proposed.filter ((w.ancestors p).contains ·))
  simp only [Function.iterate_id, id] at h
  exact h

/-- A node that goes gives up the children that it claimed. -/
theorem reparents_takeLeave (w : World) (n : Node) :
    Reparents (fun id ps => (Node.removeParent n.id)^[n.claimed.count id] ps) w (w.takeLeave n) := by
  by_cases hb : n.behavior = .grouping
  · rw [takeLeave, hb, leaveChildren, Node.claimed]
    by_cases hi : n.initialized = true
    · rw [if_pos hi, if_pos ⟨hb, hi⟩]
      exact Reparents.foldl (fun w c => reparents_unlink w n.id c) w _
    · rw [if_neg hi, if_neg fun h => hi h.2]
      exact Reparents.refl w
  · rw [Node.claimed, if_neg fun h => hb h.1, takeLeave]
    split
    · exact absurd ‹_› hb
    · exact (Reparents.refl w).enter rfl
    · exact Reparents.refl w

end World

end SceneGraph
