import SceneGraph.Proofs.World.Lookup
import SceneGraph.Scene

/-!
# Other ids for the same nodes

A map of ids takes the references of a field along (`Field.mapNodes`). Two nodes match under such a map if
they are of one type and have the same fields of their own (`Node.Matches`): then they have the same rights
and kinds. The image of a node (`Node.mapNodes`) is the same node in every other way, and whatever is done
to the node is done to its image as well.
-/

namespace SceneGraph

variable {φ : NodeId → NodeId}

namespace Field

/-- A field that refers to the images of the nodes that it referred to. -/
def mapNodes (φ : NodeId → NodeId) : Field → Field
  | ⟨⟨.node, .single⟩, v, time⟩ => single .node (Option.map φ v) time
  | ⟨⟨.node, .multi⟩, vs, time⟩ => multi .node (vs.map (Option.map φ)) time
  | f => f

theorem mapNodes_of_ne {f : Field} (ht : f.kind.type ≠ .node) : f.mapNodes φ = f := by
  obtain ⟨⟨t, d⟩, content, time⟩ := f
  cases t <;> cases d <;> first | rfl | exact absurd rfl ht

theorem kind_mapNodes (φ : NodeId → NodeId) (f : Field) : (f.mapNodes φ).kind = f.kind := by
  obtain ⟨⟨t, d⟩, content, time⟩ := f
  cases t <;> cases d <;> rfl

theorem references_mapNodes (φ : NodeId → NodeId) (f : Field) :
    (f.mapNodes φ).references = f.references.map φ := by
  by_cases ht : f.kind.type = .node
  · obtain ⟨⟨t, d⟩, content, time⟩ := f
    obtain rfl : t = .node := ht
    cases d with
    | single => cases content <;> rfl
    | multi =>
      have hmap : ∀ vs : List (Option NodeId), (vs.map (Option.map φ)).filterMap id = (vs.filterMap id).map φ := by
        intro vs
        induction vs with
        | nil => rfl
        | cons v vs ih => cases v <;> simpa using ih
      exact hmap content
  · rw [mapNodes_of_ne ht, references_eq_nil ht]
    rfl

/-- A field that refers to no node stays as it is. -/
theorem mapNodes_of_references {f : Field} (h : f.references = []) : f.mapNodes φ = f := by
  by_cases ht : f.kind.type = .node
  · obtain ⟨⟨t, d⟩, content, time⟩ := f
    obtain rfl : t = .node := ht
    cases d with
    | single =>
      cases content with
      | none => rfl
      | some id => cases h
    | multi =>
      have hnone : ∀ vs : List (Option NodeId), vs.filterMap id = [] → vs.map (Option.map φ) = vs := by
        intro vs hvs
        induction vs with
        | nil => rfl
        | cons v vs ih =>
          cases v with
          | none => exact congrArg (none :: ·) (ih hvs)
          | some id => cases hvs
      exact congrArg (fun vs => multi .node vs time) (hnone content h)
  · exact mapNodes_of_ne ht

end Field

/-- Under a map of ids, a node is of the type of another one and has the same fields of its own. -/
structure Node.Matches (φ : NodeId → NodeId) (n m : Node) : Prop where
  id : m.id = φ n.id
  spec : m.spec = n.spec
  own : m.dynamic.map (fun e => (e.1, e.2.kind)) = n.dynamic.map fun e => (e.1, e.2.kind)

namespace Node.Matches

variable {n m : Node}

theorem refl (n : Node) : Matches (fun id => id) n n := ⟨rfl, rfl, rfl⟩

theorem typeName (h : n.Matches φ m) : m.typeName = n.typeName := by rw [Node.typeName, h.spec, Node.typeName]

theorem kind_dynamicField? (h : n.Matches φ m) (name : String) :
    (m.dynamicField? name).map (·.kind) = (n.dynamicField? name).map (·.kind) := by
  have hfind : ∀ l : List (String × Field), ((l.find? (·.1 == name)).map (·.2)).map (·.kind) =
      ((l.map fun e => (e.1, e.2.kind)).find? (·.1 == name)).map (·.2) := by
    intro l
    rw [List.find?_map, Option.map_map, Option.map_map]
    rfl
  rw [Node.dynamicField?, Node.dynamicField?, hfind, hfind, h.own]

theorem isSome_dynamicField? (h : n.Matches φ m) (name : String) :
    (m.dynamicField? name).isSome = (n.dynamicField? name).isSome := by
  rw [← Option.isSome_map (f := fun f : Field => f.kind), h.kind_dynamicField?, Option.isSome_map]

theorem kind? (h : n.Matches φ m) : m.kind? = n.kind? := by
  funext name
  rw [Node.kind?, Node.kind?, h.spec, h.kind_dynamicField?]

theorem access? (h : n.Matches φ m) : m.access? = n.access? := by
  funext name
  have hsome := h.isSome_dynamicField? name
  rw [Node.access?, Node.access?, h.spec]
  split
  · rfl
  · cases hm : m.dynamicField? name <;> cases hn : n.dynamicField? name <;> simp_all

theorem hasField (h : n.Matches φ m) : m.hasField = n.hasField := by
  funext name
  rw [Node.hasField, Node.hasField, h.spec, h.isSome_dynamicField?]

theorem plainFieldName (h : n.Matches φ m) : m.plainFieldName = n.plainFieldName := by
  funext name
  rw [Node.plainFieldName, Node.plainFieldName, h.hasField]

end Node.Matches

/-! ### Images of nodes -/

def Environment.mapNodes (φ : NodeId → NodeId) (e : Environment) : Environment := { e with scene := φ e.scene }

def Route.mapNodes (φ : NodeId → NodeId) (r : Route) : Route := { r with target := φ r.target }

def Scene.mapNodes (φ : NodeId → NodeId) (s : Scene) : Scene := { s with root := φ s.root }

namespace Node

/-- The same node under another id, with every id that it knows of changed likewise. -/
def mapNodes (φ : NodeId → NodeId) (n : Node) : Node :=
  { n with
    id := φ n.id
    environment := n.environment.mapNodes φ
    fields := n.fields.map (·.mapNodes φ)
    dynamic := n.dynamic.map fun e => (e.1, e.2.mapNodes φ)
    parents := n.parents.map fun e => (φ e.1, e.2)
    routes := n.routes.map fun e => (e.1, e.2.map (·.mapNodes φ))
    object := n.object.map φ }

variable {n : Node}

theorem matches_mapNodes (φ : NodeId → NodeId) (n : Node) : n.Matches φ (n.mapNodes φ) where
  id := rfl
  spec := rfl
  own := by
    rw [mapNodes, List.map_map]
    exact List.map_congr_left fun e _ => congrArg (Prod.mk e.1) (e.2.kind_mapNodes φ)

theorem references_mapNodes (φ : NodeId → NodeId) (n : Node) :
    (n.mapNodes φ).references = n.references.map φ := by
  have hall : (n.mapNodes φ).allFields = n.allFields.map (·.mapNodes φ) := by
    simp [allFields, mapNodes]
  rw [references, hall, references, List.flatMap_map, List.map_flatMap]
  simp only [Field.references_mapNodes]

theorem dynamicField?_mapNodes (φ : NodeId → NodeId) (n : Node) (name : String) :
    (n.mapNodes φ).dynamicField? name = (n.dynamicField? name).map (·.mapNodes φ) := by
  rw [dynamicField?, mapNodes, List.find?_map, Option.map_map, dynamicField?, Option.map_map]
  rfl

theorem field?_mapNodes (φ : NodeId → NodeId) (n : Node) (name : String) :
    (n.mapNodes φ).field? name = (n.field? name).map (·.mapNodes φ) := by
  have hspec : (n.mapNodes φ).spec = n.spec := rfl
  rw [field?, hspec, field?]
  split
  · exact List.getElem?_map
  · exact dynamicField?_mapNodes φ n name

theorem store_mapNodes (φ : NodeId → NodeId) (n : Node) (name : String) (f : Field) :
    (n.mapNodes φ).store name (f.mapNodes φ) = (n.store name f).mapNodes φ := by
  have hspec : (n.mapNodes φ).spec = n.spec := rfl
  rw [store, hspec, store]
  split
  · rw [mapNodes, mapNodes, List.map_set]
  · rw [mapNodes, mapNodes, List.map_map, List.map_map]
    have hentry : ∀ e : String × Field,
        (if e.1 == name then (e.1, f.mapNodes φ) else (e.1, e.2.mapNodes φ)) =
          ((if e.1 == name then (e.1, f) else (e.1, e.2)).1,
            (if e.1 == name then (e.1, f) else (e.1, e.2)).2.mapNodes φ) := by
      intro e
      split <;> rfl
    exact congrArg (fun dynamic => { n.mapNodes φ with dynamic }) (List.map_congr_left fun e _ => hentry e)

theorem nodesIn_mapNodes (φ : NodeId → NodeId) (n : Node) (name : String) :
    (n.mapNodes φ).nodesIn name = (n.nodesIn name).map φ := by
  rw [nodesIn, field?_mapNodes, nodesIn]
  cases n.field? name with
  | none => rfl
  | some f =>
    dsimp only [Option.map_some]
    rw [f.kind_mapNodes, f.references_mapNodes]
    split <;> rfl

theorem parentIds_mapNodes (φ : NodeId → NodeId) (n : Node) :
    (n.mapNodes φ).parentIds = n.parentIds.map φ := by
  simp [parentIds, mapNodes]

theorem fresh_mapNodes (φ : NodeId → NodeId) (id : NodeId) {spec : Specification}
    (hfree : ∀ e ∈ spec.entries, e.initial.references = []) (b : Behavior) (env : Environment) :
    (fresh id spec b env).mapNodes φ = fresh (φ id) spec b (env.mapNodes φ) := by
  have hfields : spec.instantiate.map (·.mapNodes φ) = spec.instantiate := by
    rw [Specification.instantiate, List.map_map]
    exact List.map_congr_left fun e he => Field.mapNodes_of_references (hfree e he)
  exact congrArg (fun fields => { fresh (φ id) spec b (env.mapNodes φ) with fields }) hfields

theorem forget_mapNodes (φ : NodeId → NodeId) (n : Node)
    (hfree : ∀ e ∈ n.spec.entries, e.initial.references = []) :
    (n.mapNodes φ).forget = n.forget.mapNodes φ := by
  have hfields : ∀ (fs : List Field) (es : List FieldSpec), (∀ e ∈ es, e.initial.references = []) →
      ((fs.map (·.mapNodes φ)).zip es).map (fun p => if p.1.kind.type = FieldType.node then p.2.initial else p.1) =
        ((fs.zip es).map fun p => if p.1.kind.type = FieldType.node then p.2.initial else p.1).map (·.mapNodes φ) := by
    intro fs es hes
    induction fs generalizing es with
    | nil => rfl
    | cons f fs ih =>
      cases es with
      | nil => rfl
      | cons e es =>
        obtain ⟨he, hes⟩ := List.forall_mem_cons.1 hes
        simp only [List.map_cons, List.zip_cons_cons, ih es hes]
        congr 1
        rw [f.kind_mapNodes]
        split
        · exact (Field.mapNodes_of_references he).symm
        · rfl
  have hdynamic : (n.dynamic.map fun e => (e.1, e.2.mapNodes φ)).filter (·.2.kind.type != .node) =
      (n.dynamic.filter (·.2.kind.type != .node)).map fun e => (e.1, e.2.mapNodes φ) := by
    rw [List.filter_map]
    refine congrArg (List.map _) (List.filter_congr fun e _ => ?_)
    rw [Function.comp_apply, e.2.kind_mapNodes]
  have hforget : ∀ m : Node, m.forget = { m with
      fields := (m.fields.zip m.spec.entries).map fun p => if p.1.kind.type = .node then p.2.initial else p.1
      dynamic := m.dynamic.filter (·.2.kind.type != .node) } := fun m => rfl
  rw [hforget, hforget, mapNodes, mapNodes, hfields n.fields n.spec.entries hfree, hdynamic]

/-! ### Routes and parents -/

theorem routesFrom_mapNodes (φ : NodeId → NodeId) (n : Node) (field : String) :
    (n.mapNodes φ).routesFrom field = (n.routesFrom field).map (·.mapNodes φ) := by
  rw [routesFrom, mapNodes, List.find?_map, Option.map_map, routesFrom]
  change ((n.routes.find? (·.1 == field)).map fun e => e.2.map (·.mapNodes φ)).getD [] = _
  cases n.routes.find? (·.1 == field) <;> rfl

section Injective

variable (hφ : Function.Injective φ)
include hφ

theorem addConnection_mapNodes (n : Node) (field : String) (r : Route) :
    (n.mapNodes φ).addConnection field (r.mapNodes φ) =
      ((n.addConnection field r).1, (n.addConnection field r).2.mapNodes φ) := by
  have hroute : ∀ a : Route, a.mapNodes φ = r.mapNodes φ ↔ a = r := by
    rintro ⟨target, input⟩
    cases r
    simp [Route.mapNodes, hφ.eq_iff]
  have hany : (n.mapNodes φ).routes.any (·.1 == field) = n.routes.any (·.1 == field) := List.any_map
  have hcontains : ((n.routesFrom field).map (·.mapNodes φ)).contains (r.mapNodes φ) =
      (n.routesFrom field).contains r := by
    rw [Bool.eq_iff_iff, List.contains_iff_mem, List.contains_iff_mem, List.mem_map]
    simp only [hroute, exists_eq_right]
  rw [addConnection, hany, routesFrom_mapNodes, hcontains, addConnection]
  split
  · split
    · rfl
    · refine congrArg (Prod.mk true) (congrArg (fun routes => { n.mapNodes φ with routes }) ?_)
      dsimp only [mapNodes]
      rw [List.map_map, List.map_map]
      refine List.map_congr_left fun e _ => ?_
      by_cases he : e.1 = field <;> simp [he]
  · refine congrArg (Prod.mk true) (congrArg (fun routes => { n.mapNodes φ with routes }) ?_)
    dsimp only [mapNodes]
    rw [List.map_append]
    rfl

theorem addParent_map (p : NodeId) (ps : List (NodeId × Nat)) :
    addParent (φ p) (ps.map fun e => (φ e.1, e.2)) = (addParent p ps).map fun e => (φ e.1, e.2) := by
  induction ps with
  | nil => rfl
  | cons e rest ih =>
    rw [List.map_cons, addParent, addParent, ih]
    by_cases he : e.1 = p
    · rw [if_pos he, if_pos (congrArg φ he)]
      rfl
    · rw [if_neg he, if_neg (hφ.ne he)]
      rfl

theorem removeParent_map (p : NodeId) (ps : List (NodeId × Nat)) :
    removeParent (φ p) (ps.map fun e => (φ e.1, e.2)) = (removeParent p ps).map fun e => (φ e.1, e.2) := by
  induction ps with
  | nil => rfl
  | cons e rest ih =>
    rw [List.map_cons, removeParent, removeParent, ih]
    by_cases he : e.1 = p
    · rw [if_pos he, if_pos (congrArg φ he)]
      split <;> rfl
    · rw [if_neg he, if_neg (hφ.ne he)]
      rfl

end Injective

end Node

end SceneGraph
