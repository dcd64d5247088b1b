import SceneGraph.Proofs.Traversal
import SceneGraph.Scene

/-!
# Scenes list their nodes depth first

A scene lists its nodes from a stack of nodes that are still to be visited. The same node may stand there many
times, and it counts as seen only when it is taken off. `VisitsNode` is the walk by recursion, which never sees
such a stack: a node is listed at its first visit, and then its fields are walked one after the other.

* `visitsNodes_iff`: the stack lists what the recursion visits, whatever was seen before.
* `Scene.nodes_depth_first`: the nodes of a scene are those that the recursion visits from the root.
-/

namespace SceneGraph

open Relation (ReflTransGen)

/-! ### The walk by recursion -/

mutual

/-- What a walk lists when it comes to a node, after it has seen some nodes: nothing if the node is one of them,
otherwise the node and what is listed for its fields. -/
inductive VisitsNode (fields : NodeId → List Field) : List NodeId → NodeId → List NodeId → Prop
  | again {seen : List NodeId} {id : NodeId} (hid : id ∈ seen) : VisitsNode fields seen id []
  | first {seen listed : List NodeId} {id : NodeId} (hid : id ∉ seen)
      (hfields : VisitsFields fields (id :: seen) (fields id) listed) : VisitsNode fields seen id (id :: listed)

/-- What a walk lists for some fields, one after the other. -/
inductive VisitsFields (fields : NodeId → List Field) : List NodeId → List Field → List NodeId → Prop
  | nil {seen : List NodeId} : VisitsFields fields seen [] []
  | cons {seen here later : List NodeId} {f : Field} {rest : List Field}
      (hf : VisitsNodes fields seen f.references here) (hrest : VisitsFields fields (here.reverse ++ seen) rest later) :
      VisitsFields fields seen (f :: rest) (here ++ later)

/-- What a walk lists for some nodes, one after the other. -/
inductive VisitsNodes (fields : NodeId → List Field) : List NodeId → List NodeId → List NodeId → Prop
  | nil {seen : List NodeId} : VisitsNodes fields seen [] []
  | cons {seen here later : List NodeId} {id : NodeId} {rest : List NodeId}
      (hid : VisitsNode fields seen id here) (hrest : VisitsNodes fields (here.reverse ++ seen) rest later) :
      VisitsNodes fields seen (id :: rest) (here ++ later)

end

variable {fields : NodeId → List Field} {next : NodeId → List NodeId}
  {live seen stack ids rest listed : List NodeId} {id x : NodeId}

theorem visitsNodes_cons_iff : VisitsNodes fields seen (id :: rest) listed ↔ ∃ here later,
    listed = here ++ later ∧ VisitsNode fields seen id here ∧ VisitsNodes fields (here.reverse ++ seen) rest later := by
  constructor
  · rintro (_ | ⟨hid, hrest⟩)
    exact ⟨_, _, rfl, hid, hrest⟩
  · rintro ⟨here, later, rfl, hid, hrest⟩
    exact .cons hid hrest

theorem visitsNodes_singleton_iff : VisitsNodes fields seen [id] listed ↔ VisitsNode fields seen id listed := by
  rw [visitsNodes_cons_iff]
  constructor
  · rintro ⟨here, later, rfl, hid, hnil⟩
    cases hnil
    rwa [List.append_nil]
  · exact fun h => ⟨listed, [], (List.append_nil _).symm, h, .nil⟩

/-- Two lists of nodes may be walked one after the other. -/
theorem visitsNodes_append_iff : VisitsNodes fields seen (ids ++ rest) listed ↔ ∃ here later,
    listed = here ++ later ∧ VisitsNodes fields seen ids here ∧
      VisitsNodes fields (here.reverse ++ seen) rest later := by
  induction ids generalizing seen listed with
  | nil =>
    constructor
    · exact fun h => ⟨[], listed, rfl, .nil, h⟩
    · rintro ⟨here, later, rfl, hnil, h⟩
      cases hnil
      exact h
  | cons id ids ih =>
    rw [List.cons_append, visitsNodes_cons_iff]
    constructor
    · rintro ⟨here, later, rfl, hid, h⟩
      obtain ⟨between, after, rfl, hids, hrest⟩ := ih.1 h
      rw [← List.append_assoc, ← List.reverse_append] at hrest
      exact ⟨here ++ between, after, (List.append_assoc _ _ _).symm, .cons hid hids, hrest⟩
    · rintro ⟨front, after, rfl, hfront, hrest⟩
      obtain ⟨here, between, rfl, hid, hids⟩ := visitsNodes_cons_iff.1 hfront
      rw [List.reverse_append, List.append_assoc] at hrest
      exact ⟨here, between ++ after, List.append_assoc _ _ _, hid, ih.2 ⟨between, after, rfl, hids, hrest⟩⟩

/-- Fields are walked by walking what they refer to, in order. -/
theorem visitsFields_iff {fs : List Field} :
    VisitsFields fields seen fs listed ↔ VisitsNodes fields seen (fs.flatMap Field.references) listed := by
  induction fs generalizing seen listed with
  | nil =>
    constructor
    · rintro ⟨⟩
      exact .nil
    · rintro ⟨⟩
      exact .nil
  | cons f rest ih =>
    rw [List.flatMap_cons, visitsNodes_append_iff]
    constructor
    · rintro (_ | ⟨hf, hrest⟩)
      exact ⟨_, _, rfl, hf, ih.1 hrest⟩
    · rintro ⟨here, later, rfl, hf, hrest⟩
      exact .cons hf (ih.2 hrest)

/-! ### The walk with a stack -/

/-- A node that is taken off the stack for the first time puts its successors there. Nodes that are not live have
none. -/
theorem preorder_cons_of_notMem (hlive : ∀ y, y ∉ live → next y = []) (hx : x ∉ seen) :
    preorder next live (x :: stack) seen = x :: preorder next live (next x ++ stack) (x :: seen) := by
  rw [preorder, dif_neg hx]
  split
  · rfl
  · rw [hlive x ‹_›, List.nil_append]

/-- **The stack lists what the recursion visits.** By induction on the work with the stack: what lies deeper in the
stack than a node is walked after all that the node leads to. -/
theorem visitsNodes_iff (hlive : ∀ y, y ∉ live → fields y = []) : VisitsNodes fields seen stack listed ↔
    listed = preorder (fun y => (fields y).flatMap Field.references) live stack seen := by
  have hnext : ∀ y, y ∉ live → (fields y).flatMap Field.references = [] := fun y hy => by rw [hlive y hy]; rfl
  -- the recursion lists a new node, then what it leads to together with the rest of the stack
  have hnew : ∀ {x stack seen listed}, x ∉ seen → (VisitsNodes fields seen (x :: stack) listed ↔ ∃ later,
      listed = x :: later ∧
        VisitsNodes fields (x :: seen) ((fields x).flatMap Field.references ++ stack) later) := by
    intro x stack seen listed hx
    rw [visitsNodes_cons_iff]
    constructor
    · rintro ⟨here, later, rfl, hvisit, hrest⟩
      cases hvisit with
      | again hseen => exact absurd hseen hx
      | @first _ below _ _ hfields =>
        rw [List.reverse_cons, List.append_assoc] at hrest
        exact ⟨below ++ later, rfl, visitsNodes_append_iff.2 ⟨below, later, rfl, visitsFields_iff.1 hfields, hrest⟩⟩
    · rintro ⟨later, rfl, h⟩
      obtain ⟨below, after, rfl, hbelow, hrest⟩ := visitsNodes_append_iff.1 h
      refine ⟨x :: below, after, rfl, .first hx (visitsFields_iff.2 hbelow), ?_⟩
      rwa [List.reverse_cons, List.append_assoc]
  fun_induction preorder (fun y => (fields y).flatMap Field.references) live stack seen generalizing listed with
  | case1 seen =>
    constructor
    · rintro ⟨⟩
      rfl
    · rintro rfl
      exact .nil
  | case2 x stack seen hx ih =>
    refine Iff.trans ?_ ih
    rw [visitsNodes_cons_iff]
    constructor
    · rintro ⟨here, later, rfl, hvisit, hrest⟩
      cases hvisit with
      | again => exact hrest
      | first hnot => exact absurd hx hnot
    · exact fun h => ⟨[], listed, rfl, .again hx, h⟩
  | case3 x stack seen hx _ ih =>
    simp only [hnew hx, ih, exists_eq_right]
  | case4 x stack seen hx hdead ih =>
    simp only [hnew hx, hnext x hdead, List.nil_append, ih, exists_eq_right]

/-- From nothing seen, everything is listed that is reached from the stack. -/
theorem mem_preorder_iff (hlive : ∀ y, y ∉ live → next y = []) :
    x ∈ preorder next live stack [] ↔ ∃ y ∈ stack, ReflTransGen (fun a b => b ∈ next a) y x := by
  refine ⟨exists_of_mem_preorder, ?_⟩
  obtain ⟨hstart, hclosed⟩ := preorder_closed next live stack []
  rintro ⟨y, hy, hway⟩
  induction hway with
  | refl => exact (hstart y hy).resolve_left List.not_mem_nil
  | @tail z x _ hx ih =>
    by_cases hz : z ∈ live
    · exact (hclosed z ih hz x hx).resolve_left List.not_mem_nil
    · rw [hlive z hz] at hx
      cases hx

/-- What a loop with a stack has before it and behind it. -/
structure Tour where
  /-- The nodes that are still to be visited, the next one last. -/
  stack : List NodeId
  seen : List NodeId
  listed : List NodeId

/-- One turn of the loop: the next node is taken off the stack, and if it was not seen before, it is listed and
everything that it refers to is put there. -/
def Tour.turn (next : NodeId → List NodeId) (t : Tour) : Option Tour :=
  match t.stack.reverse with
  | [] => none
  | x :: below =>
    if x ∈ t.seen then some { t with stack := below.reverse }
    else some ⟨below.reverse ++ (next x).reverse, x :: t.seen, t.listed ++ [x]⟩

/-- **The loop comes to an end**, with an empty stack, and has listed the nodes in preorder then. -/
theorem Tour.exists_end (hlive : ∀ y, y ∉ live → next y = []) (stack seen listed : List NodeId) :
    ∃ t : Tour, ReflTransGen (fun t t' => t.turn next = some t') ⟨stack.reverse, seen, listed⟩ t ∧ t.turn next = none ∧
      t.listed = listed ++ preorder next live stack seen := by
  -- a node that was not seen before
  have hnew : ∀ {x stack seen listed}, x ∉ seen → (⟨(x :: stack).reverse, seen, listed⟩ : Tour).turn next =
      some ⟨(next x ++ stack).reverse, x :: seen, listed ++ [x]⟩ := by
    intro x stack seen listed hx
    rw [turn, List.reverse_reverse, List.reverse_append]
    exact if_neg hx
  fun_induction preorder next live stack seen generalizing listed with
  | case1 seen => exact ⟨_, .refl, rfl, (List.append_nil _).symm⟩
  | case2 x stack seen hx ih =>
    obtain ⟨t, hsteps, hend, hlisted⟩ := ih listed
    refine ⟨t, .head ?_ hsteps, hend, hlisted⟩
    rw [turn, List.reverse_reverse]
    exact if_pos hx
  | case3 x stack seen hx _ ih =>
    obtain ⟨t, hsteps, hend, hlisted⟩ := ih (listed ++ [x])
    exact ⟨t, .head (hnew hx) hsteps, hend, by rw [hlisted, List.append_assoc]; rfl⟩
  | case4 x stack seen hx hdead ih =>
    obtain ⟨t, hsteps, hend, hlisted⟩ := ih (listed ++ [x])
    refine ⟨t, .head (hnew hx) ?_, hend, by rw [hlisted, List.append_assoc]; rfl⟩
    rwa [hlive x hdead]

/-! ### The nodes of a scene -/

namespace World

/-- The fields of a live node: those of its type in the order of the layout, then its own in the order in which they
were added. -/
def fieldsOf (w : World) (id : NodeId) : List Field :=
  ((w.node? id).map fun n => n.fields ++ n.dynamic.map (·.2)).getD []

theorem flatMap_fieldsOf (w : World) (id : NodeId) :
    (w.fieldsOf id).flatMap Field.references = w.referencesOf id := by
  unfold fieldsOf referencesOf
  cases w.node? id <;> rfl

theorem fieldsOf_eq_nil {w : World} (hid : id ∉ w.liveIds) : w.fieldsOf id = [] := by
  cases hn : w.node? id with
  | none => rw [fieldsOf, hn]; rfl
  | some n =>
    exact absurd (List.mem_map.2 ⟨n, mem_nodes_of_node? hn, id_of_node? hn⟩) hid

end World

/-- What is not live refers to nothing. -/
theorem World.referencesOf_eq_nil {w : World} (hid : id ∉ w.liveIds) : w.referencesOf id = [] := by
  rw [← w.flatMap_fieldsOf, World.fieldsOf_eq_nil hid]
  rfl

/-- The root and the nodes of a scene, in preorder from the root. -/
theorem Scene.root_cons_nodes (s : Scene) (w : World) :
    s.root :: s.nodes w = preorder w.referencesOf w.liveIds [s.root] [] := by
  rw [preorder_cons_of_notMem (fun _ => World.referencesOf_eq_nil) List.not_mem_nil, List.append_nil]
  rfl

/-- **The nodes of a scene are those of a depth-first walk from its root by recursion**, the root left out. The walk
visits what a node refers to field by field, those of its type first, and value by value. A loop with a stack comes
to an end whatever the references look like, and lists the same nodes: every node but the root that is reached from
the root, once. -/
theorem Scene.nodes_depth_first (s : Scene) (w : World) :
    (∀ listed, VisitsNode w.fieldsOf [] s.root listed ↔ listed = s.root :: s.nodes w) ∧
      (∃ t : Tour, ReflTransGen (fun t t' => t.turn w.referencesOf = some t')
          ⟨(w.referencesOf s.root).reverse, [s.root], []⟩ t ∧
        t.turn w.referencesOf = none ∧ t.listed = s.nodes w) ∧
      (s.nodes w).Nodup ∧
      ∀ x, x ∈ s.nodes w ↔ x ≠ s.root ∧ ReflTransGen (fun a b => b ∈ w.referencesOf a) s.root x := by
  have hlive : ∀ y, y ∉ w.liveIds → w.referencesOf y = [] := fun _ => World.referencesOf_eq_nil
  have hnext : (fun y => (w.fieldsOf y).flatMap Field.references) = w.referencesOf := funext w.flatMap_fieldsOf
  have hnodup : (s.root :: s.nodes w).Nodup := s.root_cons_nodes w ▸ (nodup_preorder _ _ _ _).1
  refine ⟨fun listed => ?_, Tour.exists_end hlive _ _ [], hnodup.of_cons, fun x => ?_⟩
  · rw [← visitsNodes_singleton_iff, visitsNodes_iff fun _ => World.fieldsOf_eq_nil, hnext, s.root_cons_nodes]
  · have hmem : x ∈ s.root :: s.nodes w ↔ ReflTransGen (fun a b => b ∈ w.referencesOf a) s.root x := by
      rw [s.root_cons_nodes, mem_preorder_iff hlive]
      simp
    rw [← hmem, List.mem_cons]
    constructor
    · intro hx
      exact ⟨fun heq => (List.nodup_cons.1 hnodup).1 (heq ▸ hx), .inr hx⟩
    · rintro ⟨hne, hx⟩
      exact hx.resolve_left hne

end SceneGraph
