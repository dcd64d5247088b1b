import SceneGraph.World.Cascade

/-!
# Looking things up after a change

How looking up a node, a field or an access right answers after `World.modify` and `Node.store`.

* `node?_modify`: a node that is looked up after a change is the old one, changed if it is the one.
* `field?_store`: storing changes the field of that name and no other.
* `kinds_store`, `references_store`: what storing does to kinds and references.
* `mem_liveIds`: the live ids are those that `World.node?` finds.
-/

namespace SceneGraph

theorem NodeId.eq_of_value {a b : NodeId} (h : a.value = b.value) : a = b := by
  cases a
  cases b
  exact congrArg NodeId.mk h

theorem Specification.index?_getElem {spec : Specification} (h : spec.names.Nodup) {i : Nat}
    (hi : i < spec.entries.length) : spec.index? spec.entries[i].name = some i := by
  refine List.findIdx?_eq_some_iff_getElem.2 ⟨hi, beq_self_eq_true _, fun j hj => ?_⟩
  have hlength : spec.names.length = spec.entries.length := List.length_map ..
  have hne := List.pairwise_iff_getElem.1 h j i (by omega) (by omega) hj
  simpa [Specification.names] using hne

/-- The entry that a name means stands at the place that the name means. -/
theorem Specification.entry?_of_index? {spec : Specification} {name : String} {i : Nat}
    (h : spec.index? name = some i) :
    ∃ hi : i < spec.entries.length, spec.entry? name = some spec.entries[i] ∧ spec.entries[i].name = name := by
  obtain ⟨hi, hname, hfirst⟩ := List.findIdx?_eq_some_iff_getElem.1 h
  exact ⟨hi, List.find?_eq_some_iff_getElem.2 ⟨hname, i, hi, rfl, fun j hj => by simpa using hfirst j hj⟩,
    beq_iff_eq.1 hname⟩

theorem Specification.entry?_eq_none_iff {spec : Specification} {name : String} :
    spec.entry? name = none ↔ spec.index? name = none := by
  simp [index?, entry?]

namespace Node

@[simp] theorem store_id (n : Node) (name : String) (f : Field) : (n.store name f).id = n.id := by
  unfold store; split <;> rfl

@[simp] theorem store_spec (n : Node) (name : String) (f : Field) :
    (n.store name f).spec = n.spec := by
  unfold store; split <;> rfl

@[simp] theorem store_behavior (n : Node) (name : String) (f : Field) :
    (n.store name f).behavior = n.behavior := by
  unfold store; split <;> rfl

@[simp] theorem store_environment (n : Node) (name : String) (f : Field) :
    (n.store name f).environment = n.environment := by
  unfold store; split <;> rfl

@[simp] theorem store_name (n : Node) (name : String) (f : Field) :
    (n.store name f).name = n.name := by
  unfold store; split <;> rfl

@[simp] theorem store_parents (n : Node) (name : String) (f : Field) :
    (n.store name f).parents = n.parents := by
  unfold store; split <;> rfl

@[simp] theorem store_routes (n : Node) (name : String) (f : Field) :
    (n.store name f).routes = n.routes := by
  unfold store; split <;> rfl

@[simp] theorem store_initialized (n : Node) (name : String) (f : Field) :
    (n.store name f).initialized = n.initialized := by
  unfold store; split <;> rfl

@[simp] theorem store_object (n : Node) (name : String) (f : Field) :
    (n.store name f).object = n.object := by
  unfold store; split <;> rfl

@[simp] theorem store_initializations (n : Node) (name : String) (f : Field) :
    (n.store name f).initializations = n.initializations := by
  unfold store; split <;> rfl

@[simp] theorem routesFrom_store (n : Node) (name output : String) (f : Field) :
    (n.store name f).routesFrom output = n.routesFrom output := by
  simp [routesFrom]

theorem hasField_eq_false {n : Node} {name : String} :
    n.hasField name = false ↔ n.spec.index? name = none ∧ n.dynamicField? name = none := by
  rw [hasField, Bool.or_eq_false_iff, Option.isSome_eq_false_iff, Option.isNone_iff_eq_none,
    Specification.hasField, Option.isSome_eq_false_iff, Option.isNone_iff_eq_none, Specification.entry?,
    Specification.index?, List.find?_eq_none, List.findIdx?_eq_none_iff]
  simp

theorem index?_ne {s : Specification} {a b : String} {i j : Nat} (ha : s.index? a = some i)
    (hb : s.index? b = some j) (hab : a ≠ b) : i ≠ j := by
  rintro rfl
  obtain ⟨_, hpa, -⟩ := List.findIdx?_eq_some_iff_getElem.1 ha
  obtain ⟨_, hpb, -⟩ := List.findIdx?_eq_some_iff_getElem.1 hb
  exact hab ((beq_iff_eq.1 hpa).symm.trans (beq_iff_eq.1 hpb))

/-- Entries that keep their names are found as before. -/
theorem find?_map_entries {α β : Type} (l : List (String × α)) {g : String × α → String × β}
    (hg : ∀ e, (g e).1 = e.1) (name : String) :
    (l.map g).find? (·.1 == name) = (l.find? (·.1 == name)).map g := by
  rw [List.find?_map]
  congr 2
  funext e
  exact congrArg (· == name) (hg e)

theorem find?_replace (l : List (String × Field)) (name other : String) (f : Field) :
    (l.map fun (k, old) => if k == name then (k, f) else (k, old)).find? (·.1 == other) =
      (l.find? (·.1 == other)).map fun (k, old) => if k == name then (k, f) else (k, old) :=
  find?_map_entries l (fun _ => by dsimp only; split <;> rfl) other

/-- Storing changes the field of the name, if the node has it, and no other field. -/
theorem field?_store (n : Node) (name other : String) (f : Field) :
    (n.store name f).field? other =
      if other = name then (n.field? name).map fun _ => f else n.field? other := by
  unfold field? store
  cases hname : n.spec.index? name with
  | some i =>
    cases hother : n.spec.index? other with
    | some j =>
      by_cases h : other = name
      · subst h
        obtain rfl : j = i := Option.some.inj (hother.symm.trans hname)
        by_cases hj : j < n.fields.length <;> simp [hj]
      · rw [if_neg h]
        exact List.getElem?_set_ne (index?_ne hname hother (Ne.symm h))
    | none =>
      rw [if_neg (by rintro rfl; rw [hother] at hname; cases hname)]
      rfl
  | none =>
    cases hother : n.spec.index? other with
    | some j =>
      rw [if_neg (by rintro rfl; rw [hother] at hname; cases hname)]
    | none =>
      simp only [dynamicField?, find?_replace, Option.map_map]
      by_cases h : other = name
      · subst h
        rw [if_pos rfl]
        cases hd : n.dynamic.find? (·.1 == other) with
        | none => rfl
        | some e =>
          have he : e.1 = other := by simpa using List.find?_some hd
          simp [he]
      · rw [if_neg h]
        cases hd : n.dynamic.find? (·.1 == other) with
        | none => rfl
        | some e =>
          have he : e.1 = other := by simpa using List.find?_some hd
          simp [he, h]

/-- A list of nodes that is stored is what the field lists then. -/
theorem nodesIn_store {n : Node} {name : String} {old : Field} (hold : n.field? name = some old)
    (ids : List NodeId) (time : Timestamp) : (n.store name (.nodes ids time)).nodesIn name = ids := by
  rw [nodesIn, field?_store, if_pos rfl, hold]
  exact (if_pos rfl).trans (Field.references_nodes ids time)

theorem isSome_dynamicField?_store (n : Node) (name other : String) (f : Field) :
    ((n.store name f).dynamicField? other).isSome = (n.dynamicField? other).isSome := by
  unfold store dynamicField?
  split
  · rfl
  · rw [find?_replace]
    simp

@[simp] theorem access?_store (n : Node) (name other : String) (f : Field) :
    (n.store name f).access? other = n.access? other := by
  have h := isSome_dynamicField?_store n name other f
  unfold access?
  rw [store_spec]
  cases n.spec.entry? other with
  | some e => rfl
  | none =>
    cases h₁ : (n.store name f).dynamicField? other <;> cases h₂ : n.dynamicField? other <;>
      simp_all

theorem kind?_store {n : Node} {name : String} {old value : Field} (hold : n.field? name = some old)
    (hkind : old.kind = value.kind) (other : String) :
    (n.store name value).kind? other = n.kind? other := by
  unfold kind?
  rw [store_spec]
  cases hentry : n.spec.entry? other with
  | some e => rfl
  | none =>
    -- the field of the node's own may be the one that is replaced, by one of its kind
    unfold store
    unfold field? at hold
    cases hindex : n.spec.index? name with
    | some i => rfl
    | none =>
      rw [hindex] at hold
      obtain ⟨found, hfound, rfl⟩ := Option.map_eq_some_iff.1 hold
      simp only [dynamicField?, find?_replace, Option.map_map]
      cases hd : n.dynamic.find? (·.1 == other) with
      | none => rfl
      | some e =>
        have he : e.1 = other := by simpa using List.find?_some hd
        by_cases hname : other = name
        · subst hname
          obtain rfl : found = e := Option.some.inj (hfound.symm.trans hd)
          simp [he, hkind]
        · simp [he, hname]

/-- The kind that a node knows for a field is the kind of the field. -/
theorem kind?_eq_map {n : Node} (hkinds : n.fields.map (·.kind) = n.spec.entries.map (·.initial.kind))
    (name : String) : n.kind? name = (n.field? name).map (·.kind) := by
  unfold kind? field?
  cases hindex : n.spec.index? name with
  | some i =>
    obtain ⟨hi, hentry, -⟩ := Specification.entry?_of_index? hindex
    have hkind : (n.fields.map (·.kind))[i]? = (n.spec.entries.map (·.initial.kind))[i]? := by rw [hkinds]
    rw [List.getElem?_map, List.getElem?_map, List.getElem?_eq_getElem hi] at hkind
    rw [hentry]
    exact hkind.symm
  | none =>
    rw [Specification.entry?_eq_none_iff.2 hindex]

/-- Storing a value of the kind that is there keeps all kinds. -/
theorem kinds_store {n : Node} {name : String} {old f : Field} (hold : n.field? name = some old)
    (hk : old.kind = f.kind) : (n.store name f).fields.map (·.kind) = n.fields.map (·.kind) := by
  unfold field? at hold
  unfold store
  split
  · rename_i i hi
    rw [hi] at hold
    obtain ⟨hlt, hget⟩ := List.getElem?_eq_some_iff.1 hold
    rw [List.map_set, ← hk, ← hget, ← List.getElem_map (fun f : Field => f.kind), List.set_getElem_self]
    simpa using hlt
  · rfl

/-- What a node refers to after a value is stored, it referred to before or the value does. -/
theorem references_store {n : Node} {name : String} {f : Field} {r : NodeId}
    (h : r ∈ (n.store name f).references) : r ∈ n.references ∨ r ∈ f.references := by
  obtain ⟨g, hg, hr⟩ := List.mem_flatMap.1 h
  have hgf : g ∈ n.allFields ∨ g = f := by
    unfold store at hg
    split at hg
    · rcases List.mem_append.1 hg with hg | hg
      · rcases List.mem_or_eq_of_mem_set hg with hg | hg
        · exact .inl (List.mem_append_left _ hg)
        · exact .inr hg
      · exact .inl (List.mem_append_right _ hg)
    · rcases List.mem_append.1 hg with hg | hg
      · exact .inl (List.mem_append_left _ hg)
      · rw [List.map_map] at hg
        obtain ⟨⟨k, old⟩, he, rfl⟩ := List.mem_map.1 hg
        by_cases hk : k = name
        · exact .inr (by simp [hk])
        · refine .inl (List.mem_append_right _ (List.mem_map.2 ⟨(k, old), he, ?_⟩))
          simp [hk]
  rcases hgf with hg | rfl
  · exact .inl (List.mem_flatMap.2 ⟨g, hg, hr⟩)
  · exact .inr hr

theorem dynamicNames_store (n : Node) (name : String) (value : Field) :
    (n.store name value).dynamicNames = n.dynamicNames := by
  unfold store
  split
  · rfl
  · rw [dynamicNames, dynamicNames, List.map_map]
    refine List.map_congr_left fun ⟨k, old⟩ _ => ?_
    dsimp only [Function.comp]
    split <;> rfl

theorem dynamic_of_store {n : Node} {name : String} {f : Field} (h : (n.store name f).dynamic ≠ []) :
    n.dynamic ≠ [] := by
  unfold store at h
  split at h
  · exact h
  · simpa using h

theorem fieldOfKind_ok {n : Node} {name : String} {k : Kind} {f : Field}
    (h : n.fieldOfKind name k = .ok f) : n.field? name = some f ∧ f.kind = k := by
  unfold fieldOfKind at h
  split at h
  · rename_i g hg
    split at h
    · obtain rfl := Except.ok.inj h
      exact ⟨hg, ‹_›⟩
    · cases h
  · cases h

theorem mem_allFields_of_field? {n : Node} {name : String} {f : Field} (h : n.field? name = some f) :
    f ∈ n.allFields := by
  unfold field? at h
  split at h
  · exact List.mem_append_left _ (List.mem_of_getElem? h)
  · obtain ⟨e, he, rfl⟩ := Option.map_eq_some_iff.1 h
    exact List.mem_append_right _ (List.mem_map_of_mem (List.mem_of_find?_eq_some he))

theorem references_subset_of_field? {n : Node} {name : String} {f : Field}
    (h : n.field? name = some f) : f.references ⊆ n.references :=
  fun _ hc => List.mem_flatMap.2 ⟨f, mem_allFields_of_field? h, hc⟩

theorem nodesIn_subset (n : Node) (name : String) : n.nodesIn name ⊆ n.references := by
  intro c hc
  unfold nodesIn at hc
  split at hc
  · rename_i f hf
    split at hc
    · exact references_subset_of_field? hf hc
    · cases hc
  · cases hc

theorem references_append_dynamic (n : Node) (name : String) (value : Field) :
    ({ n with dynamic := n.dynamic ++ [(name, value)] } : Node).references =
      n.references ++ value.references := by
  simp [references, allFields]

theorem references_filter_dynamic_subset (n : Node) (name : String) :
    ({ n with
        dynamic := n.dynamic.filter (·.1 != name)
        routes := n.routes.filter (·.1 != name) } : Node).references ⊆ n.references := by
  intro r hr
  obtain ⟨f, hf, hr⟩ := List.mem_flatMap.1 hr
  refine List.mem_flatMap.2 ⟨f, ?_, hr⟩
  rcases List.mem_append.1 hf with hf | hf
  · exact List.mem_append_left _ hf
  · obtain ⟨e, he, rfl⟩ := List.mem_map.1 hf
    exact List.mem_append_right _ (List.mem_map_of_mem (List.mem_filter.1 he).1)

end Node

/-- An entry of a list that gets longer is the new one or was there before. -/
theorem concat_eq_append_cons {α : Type} {l before after : List α} {x y : α} (h : l ++ [x] = before ++ y :: after) :
    (l = before ∧ x = y ∧ after = []) ∨ ∃ rest, after = rest ++ [x] ∧ l = before ++ y :: rest := by
  obtain rfl | ⟨rest, z, rfl⟩ := List.eq_nil_or_concat after
  · obtain ⟨hl, hx⟩ := List.append_inj' h rfl
    exact .inl ⟨hl, (List.cons.inj hx).1, rfl⟩
  · rw [List.concat_eq_append, ← List.cons_append, ← List.append_assoc] at h
    obtain ⟨hl, hx⟩ := List.append_inj' h rfl
    exact .inr ⟨rest, by rw [List.concat_eq_append, hx], hl⟩

/-- Handles that are taken and let go of again leave the others. -/
theorem foldl_erase_append (ids held : List NodeId) : ids.foldl List.erase (ids ++ held) = held := by
  induction ids with
  | nil => rfl
  | cons id rest ih => simpa using ih

theorem mem_of_mem_foldl_erase {ids held : List NodeId} {id : NodeId}
    (h : id ∈ ids.foldl List.erase held) : id ∈ held := by
  induction ids generalizing held with
  | nil => exact h
  | cons a rest ih => exact List.mem_of_mem_erase (ih h)

namespace World

variable {w : World} {id : NodeId}

theorem liveIds_modify (w : World) (id : NodeId) {f : Node → Node} (hf : ∀ n, (f n).id = n.id) :
    (w.modify id f).liveIds = w.liveIds := by
  rw [liveIds, modify, List.map_map, liveIds]
  apply List.map_congr_left
  intro n _
  by_cases hn : n.id = id <;> simp [hn, hf]

theorem node?_modify (w : World) (id other : NodeId) {f : Node → Node} (hf : ∀ n, (f n).id = n.id) :
    (w.modify id f).node? other = (w.node? other).map fun n => if n.id = id then f n else n := by
  unfold node? modify
  rw [List.find?_map]
  congr 1
  congr 1
  funext n
  by_cases h : n.id = id <;> simp [h, hf]

theorem node?_modify_self (w : World) (id : NodeId) {f : Node → Node} (hf : ∀ n, (f n).id = n.id) :
    (w.modify id f).node? id = (w.node? id).map f := by
  rw [node?_modify w id id hf]
  cases h : w.node? id with
  | none => rfl
  | some n => simp [id_of_node? h]

theorem node?_modify_of_ne (w : World) {id other : NodeId} {f : Node → Node}
    (hf : ∀ n, (f n).id = n.id) (h : other ≠ id) : (w.modify id f).node? other = w.node? other := by
  rw [node?_modify w id other hf]
  cases hn : w.node? other with
  | none => rfl
  | some n => simp [id_of_node? hn, h]

theorem node?_remove (w : World) (n : Node) (id : NodeId) :
    (w.remove n).node? id = if id = n.id then none else w.node? id := by
  have hnodes : (w.remove n).nodes = w.nodes.filter (·.id != n.id) := rfl
  rw [node?, hnodes, List.find?_filter]
  by_cases h : id = n.id
  · rw [if_pos h, List.find?_eq_none]
    rintro m -
    simp [h]
  · rw [if_neg h, node?]
    congr 1
    funext m
    by_cases hm : m.id = id <;> simp [hm, h]

theorem node?_addNode (w : World) (id other : NodeId) (spec : Specification) (b : Behavior)
    (env : Environment) :
    (w.addNode id spec b env).node? other =
      (w.node? other).or (if id = other then some (.fresh id spec b env) else none) := by
  refine (List.find?_append ..).trans (congrArg (Option.or (w.node? other)) ?_)
  rw [List.find?_singleton]
  by_cases h : id = other
  · rw [if_pos h]
    exact if_pos (by simp [Node.fresh, h])
  · rw [if_neg h]
    exact if_neg (by simp [Node.fresh, h])

theorem node?_create (w : World) (id : NodeId) (spec : Specification) (b : Behavior) (env : Environment) :
    (w.create spec b env).2.node? id =
      (w.node? id).or (if w.nextId.1 = id then some (.fresh w.nextId.1 spec b env) else none) :=
  node?_addNode w.nextId.2 w.nextId.1 id spec b env

theorem isLive_iff : w.isLive id = true ↔ ∃ n, w.node? id = some n := by
  unfold isLive node?
  rw [← Option.isSome_iff_exists, List.find?_isSome]
  simp

theorem mem_liveIds : id ∈ w.liveIds ↔ w.isLive id = true := by
  simp [liveIds, isLive]

theorem isLive_congr {w w' : World} (h : w.liveIds = w'.liveIds) : w.isLive = w'.isLive := by
  funext id
  rw [Bool.eq_iff_iff, ← mem_liveIds, ← mem_liveIds, h]

theorem isLive_modify (w : World) (id : NodeId) {f : Node → Node} (hf : ∀ n, (f n).id = n.id) :
    (w.modify id f).isLive = w.isLive := isLive_congr (liveIds_modify w id hf)

theorem isLive_of_node? {n : Node} (h : w.node? id = some n) : w.isLive id = true :=
  isLive_iff.2 ⟨n, h⟩

theorem node?_congr {w w' : World} (h : w.nodes = w'.nodes) : w.node? id = w'.node? id := by
  simp [node?, h]

end World

end SceneGraph
