import SceneGraph.Proofs.Document.Contents
import SceneGraph.Proofs.World.Change

/-!
# Drafts

A node of a document is a draft as long as the document is read: its type is a built-in one, its names
are words, its fields hold what documents can say, and its routes are listed once (`Node.IsDraft`).
Whatever the reading of a document does to a node keeps it a draft.
-/

namespace SceneGraph

/-- A value as a document can put it into a field: colors are clamped, a list of nodes has no gaps, and
every node in it was made after the root. -/
structure Field.IsDraft (root : NodeId) (f : Field) : Prop where
  clamped : f.IsClamped
  gapless : f.kind = ⟨.node, .multi⟩ → f = .nodes f.references f.timestamp
  inner : ∀ r ∈ f.references, root.value < r.value

/-- A field that a header lets a node of some type declare as its own. -/
structure Specification.Admits (header : Header) (spec : Specification) (own : String × Field) :
    Prop where
  name : IsIdentifier (some header) own.1
  kind : (Keyword.kind own.2.kind).isEnabled (some header) = true
  new : spec.hasField own.1 = false

/-- No list of routes is empty, no field has two of them, and no route is listed twice. -/
structure Node.HasTidyRoutes (n : Node) : Prop where
  distinct : (n.routes.map (·.1)).Nodup
  lists : ∀ e ∈ n.routes, e.2 ≠ [] ∧ e.2.Nodup

/-- A node as a document with some header declares it. -/
structure Node.IsDraft (header : Header) (env : Environment) (n : Node) : Prop where
  typed : ∃ t ∈ Catalog.standard, n.spec = t.layout ∧ n.behavior = t.behavior
  environment : n.environment = env
  name : n.name = "" ∨ IsIdentifier (some header) n.name
  fields : ∀ f ∈ n.allFields, f.IsDraft env.scene
  own : ∀ e ∈ n.dynamic, n.spec.Admits header e
  ownNames : n.dynamicNames.Nodup
  routes : n.HasTidyRoutes

variable {header : Header} {env : Environment} {root : NodeId} {n : Node} {name : String} {value : Field}

/-! ### Values -/

theorem Field.isDraft_single (root : NodeId) {t : FieldType} (ht : t ≠ .node) {v : t.Carrier}
    (hv : t.IsClamped v) : (Field.single t v).IsDraft root where
  clamped u hu := by rwa [List.mem_singleton.1 hu]
  gapless := nofun
  inner r hr := by
    have hnone : (Field.single t v).references = [] := references_eq_nil ht
    rw [hnone] at hr
    cases hr

/-- Three equal parts within the unit interval. -/
theorem Color.isClamped_gray {x : Float32} (hx : clampUnit x = x) :
    FieldType.IsClamped .color (⟨x, x, x⟩ : Color) := by
  change Color.mk (clampUnit x) (clampUnit x) (clampUnit x) = ⟨x, x, x⟩
  rw [hx]

theorem Field.isDraft_initial (root : NodeId) (k : Kind) : (Field.initial k).IsDraft root := by
  obtain ⟨t, d⟩ := k
  cases d with
  | single =>
    refine ⟨fun v hv => ?_, nofun, fun r hr => by cases t <;> cases hr⟩
    rw [List.mem_singleton.1 hv]
    cases t with
    | color => exact Color.isClamped_gray clampUnit_zero
    | _ => trivial
  | multi =>
    refine ⟨fun v hv => (by cases hv), fun hk => ?_, fun r hr => by cases hr⟩
    obtain rfl : t = .node := congrArg Kind.type hk
    rfl

/-- The first values of the built-in types. -/
theorem isDraft_standard (root : NodeId) {t : NodeType} (ht : t ∈ Catalog.standard) {e : FieldSpec}
    (he : e ∈ t.fields) : e.initial.IsDraft root := by
  have hdiffuse := Color.isClamped_gray (x := 0.8) (by decide +kernel)
  have hblack := Color.isClamped_gray clampUnit_zero
  have hnodes : (Field.nodes []).IsDraft root := Field.isDraft_initial root ⟨.node, .multi⟩
  revert t e
  simp only [Catalog.standard, List.forall_mem_cons, groupingFields, List.cons_append, List.nil_append]
  repeat' apply And.intro
  all_goals first
    | exact Field.isDraft_initial root ⟨_, _⟩
    | exact hnodes
    | exact Field.isDraft_single root (by decide) trivial
    | exact Field.isDraft_single root (by decide) hdiffuse
    | exact Field.isDraft_single root (by decide) hblack
    | exact Field.isDraft_initial root ⟨.string, .multi⟩
    | exact List.forall_mem_nil _

namespace Node

/-! ### Fields -/

theorem mem_allFields_store {f : Field} (h : f ∈ (n.store name value).allFields) :
    f = value ∨ f ∈ n.allFields := by
  unfold store at h
  split at h
  · rcases List.mem_append.1 h with h | h
    · exact (List.mem_or_eq_of_mem_set h).symm.imp_right (List.mem_append_left _ ·)
    · exact .inr (List.mem_append_right _ h)
  · rcases List.mem_append.1 h with h | h
    · exact .inr (List.mem_append_left _ h)
    · simp only [List.map_map, List.mem_map, Function.comp] at h
      obtain ⟨e, he, rfl⟩ := h
      split
      · exact .inl rfl
      · exact .inr (List.mem_append_right _ (List.mem_map_of_mem he))

/-- A field of a node's own that is replaced has a place among them already. -/
theorem mem_dynamic_store {old : Field} (hold : n.field? name = some old)
    (hkind : old.kind = value.kind) {e : String × Field} (he : e ∈ (n.store name value).dynamic) :
    ∃ d ∈ n.dynamic, e.1 = d.1 ∧ e.2.kind = d.2.kind := by
  unfold store at he
  split at he
  · exact ⟨e, he, rfl, rfl⟩
  · rename_i hindex
    obtain ⟨⟨k, f⟩, hd, rfl⟩ := List.mem_map.1 he
    dsimp only
    split
    · rename_i hname
      rw [field?, hindex] at hold
      obtain ⟨found, hfound, rfl⟩ := Option.map_eq_some_iff.1 hold
      have hfoundname : found.1 = name := by simpa using List.find?_some hfound
      exact ⟨found, List.mem_of_find?_eq_some hfound, (beq_iff_eq.1 hname).trans hfoundname.symm,
        hkind.symm⟩
    · exact ⟨(k, f), hd, rfl, rfl⟩

namespace IsDraft

theorem fresh (header : Header) (env : Environment) {t : NodeType} (ht : t ∈ Catalog.standard)
    (id : NodeId) : (Node.fresh id t.layout t.behavior env).IsDraft header env where
  typed := ⟨t, ht, rfl, rfl⟩
  environment := rfl
  name := .inl rfl
  fields f hf := by
    rw [allFields, Node.fresh, List.map_nil, List.append_nil, Specification.instantiate] at hf
    obtain ⟨e, he, rfl⟩ := List.mem_map.1 hf
    exact isDraft_standard _ ht he
  own e he := by cases he
  ownNames := List.nodup_nil
  routes := ⟨List.nodup_nil, fun e he => by cases he⟩

theorem rename (h : n.IsDraft header env) (hname : name = "" ∨ IsIdentifier (some header) name) :
    { n with name }.IsDraft header env :=
  ⟨h.typed, h.environment, hname, h.fields, h.own, h.ownNames, ⟨h.routes.distinct, h.routes.lists⟩⟩

theorem store (h : n.IsDraft header env) {old : Field} (hold : n.field? name = some old)
    (hkind : old.kind = value.kind) (hvalue : value.IsDraft env.scene) :
    (n.store name value).IsDraft header env where
  typed := by simpa using h.typed
  environment := by simpa using h.environment
  name := by simpa using h.name
  fields f hf := (mem_allFields_store hf).elim (fun hf => hf ▸ hvalue) (h.fields f)
  own e he := by
    obtain ⟨d, hd, hname, hkinds⟩ := mem_dynamic_store hold hkind he
    obtain ⟨hidentifier, henabled, hnew⟩ := h.own d hd
    refine ⟨hname ▸ hidentifier, hkinds ▸ henabled, ?_⟩
    rw [store_spec, hname]
    exact hnew
  ownNames := by
    rw [dynamicNames_store]
    exact h.ownNames
  routes := by
    constructor <;> rw [store_routes]
    exacts [h.routes.distinct, h.routes.lists]

/-- A new field of the node's own, at its first value. -/
theorem extend (h : n.IsDraft header env) {k : Kind} (hnew : n.hasField name = false)
    (hname : IsIdentifier (some header) name)
    (hkind : (Keyword.kind k).isEnabled (some header) = true) :
    { n with dynamic := n.dynamic ++ [(name, Field.initial k)] }.IsDraft header env := by
  rw [hasField, Bool.or_eq_false_iff, Option.isSome_eq_false_iff, Option.isNone_iff_eq_none] at hnew
  refine ⟨h.typed, h.environment, h.name, fun f hf => ?_, fun e he => ?_, ?_,
    ⟨h.routes.distinct, h.routes.lists⟩⟩
  · rw [allFields, List.map_append, ← List.append_assoc] at hf
    rcases List.mem_append.1 hf with hf | hf
    · exact h.fields f hf
    · rw [List.mem_singleton.1 hf]
      exact Field.isDraft_initial _ _
  · rcases List.mem_append.1 he with he | he
    · exact h.own e he
    · rw [List.mem_singleton.1 he]
      refine ⟨hname, ?_, hnew.1⟩
      rw [Field.kind_initial]
      exact hkind
  · rw [dynamicNames, List.map_append, List.map_singleton, List.nodup_append]
    refine ⟨h.ownNames, List.nodup_singleton _, fun a ha b hb hab => ?_⟩
    rw [List.mem_singleton.1 hb] at hab
    obtain ⟨e, he, rfl⟩ := List.mem_map.1 ha
    rw [dynamicField?, Option.map_eq_none_iff] at hnew
    exact List.find?_eq_none.1 hnew.2 e he (beq_iff_eq.2 hab)

theorem forget (h : n.IsDraft header env) : n.forget.IsDraft header env := by
  obtain ⟨t, ht, hspec, hb⟩ := h.typed
  refine ⟨⟨t, ht, hspec, hb⟩, h.environment, h.name, fun f hf => ?_, fun e he => h.own e (List.mem_filter.1 he).1, ?_, ?_⟩
  · rcases List.mem_append.1 hf with hf | hf
    · obtain ⟨⟨g, e⟩, hzip, rfl⟩ := List.mem_map.1 hf
      obtain ⟨hg, he⟩ := List.of_mem_zip hzip
      dsimp only
      split
      · rw [hspec] at he
        exact isDraft_standard _ ht he
      · exact h.fields g (List.mem_append_left _ hg)
    · obtain ⟨e, he, rfl⟩ := List.mem_map.1 hf
      exact h.fields e.2 (List.mem_append_right _ (List.mem_map_of_mem (List.mem_filter.1 he).1))
  · exact h.ownNames.sublist (List.filter_sublist.map _)
  · exact ⟨h.routes.distinct, h.routes.lists⟩

end IsDraft

/-! ### Routes -/

theorem HasTidyRoutes.addConnection (h : n.HasTidyRoutes) (output : String) (route : Route) :
    (n.addConnection output route).2.HasTidyRoutes := by
  refine ⟨nodup_addConnection h.distinct output route, fun e he => ?_⟩
  unfold Node.addConnection at he
  split at he
  · split at he
    · exact h.lists e he
    · rename_i hnew
      obtain ⟨⟨f, rs⟩, hd, rfl⟩ := List.mem_map.1 he
      obtain ⟨hne, hnodup⟩ := h.lists (f, rs) hd
      dsimp only at hne hnodup ⊢
      split
      · rename_i hf
        have hfrom := routesFrom_of_mem h.distinct hd
        rw [beq_iff_eq.1 hf] at hfrom
        rw [hfrom] at hnew
        refine ⟨by simp, List.nodup_append.2 ⟨hnodup, List.nodup_singleton _, fun a ha b hb hab => ?_⟩⟩
        rw [List.mem_singleton.1 hb] at hab
        exact hnew (by simpa using hab ▸ ha)
      · exact ⟨hne, hnodup⟩
  · rcases List.mem_append.1 he with he | he
    · exact h.lists e he
    · rw [List.mem_singleton.1 he]
      exact ⟨List.cons_ne_nil _ _, List.nodup_singleton _⟩

theorem mem_connections_addConnection {output : String} {route : Route} {c : String × Route}
    (h : c ∈ (n.addConnection output route).2.connections) : c = (output, route) ∨ c ∈ n.connections := by
  unfold addConnection at h
  split at h
  · split at h
    · exact .inr h
    · obtain ⟨e, he, hc⟩ := List.mem_flatMap.1 h
      obtain ⟨⟨f, rs⟩, hd, rfl⟩ := List.mem_map.1 he
      dsimp only at hc
      split at hc
      · rename_i hf
        obtain ⟨r, hr, rfl⟩ := List.mem_map.1 hc
        rcases List.mem_append.1 hr with hr | hr
        · exact .inr (List.mem_flatMap.2 ⟨(f, rs), hd, List.mem_map_of_mem hr⟩)
        · rw [List.mem_singleton.1 hr, beq_iff_eq.1 hf]
          exact .inl rfl
      · exact .inr (List.mem_flatMap.2 ⟨(f, rs), hd, hc⟩)
  · rw [connections, List.flatMap_append] at h
    rcases List.mem_append.1 h with h | h
    · exact .inr h
    · exact .inl (by simpa using h)

theorem IsDraft.connect (h : n.IsDraft header env) (output : String) (route : Route) :
    (n.addConnection output route).2.IsDraft header env := by
  have hroutes := h.routes.addConnection output route
  obtain ⟨routes, hn⟩ := n.addConnection_eq output route
  rw [hn] at hroutes ⊢
  exact ⟨h.typed, h.environment, h.name, h.fields, h.own, h.ownNames, hroutes⟩

end Node

end SceneGraph
