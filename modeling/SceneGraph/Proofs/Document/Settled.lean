import SceneGraph.Proofs.Document.Roots

/-!
# Scenes that were read

What holds of a scene after its document was read (`Scene.IsSettled`): its nodes are drafts, its
top-level nodes are layered, its lists of children close no cycle, and its routes lead where they may.

* `Document.isSettled`: so it is whenever a document is read and no declaration was skipped.
* `Document.ready`: the world is ready for the next document.
-/

namespace SceneGraph

open Relation (ReflTransGen TransGen)
open World (Drafted Orderly Ready Trims)

namespace World

/-- A node refers to another one. -/
def Refers (w : World) (a b : NodeId) : Prop := b ∈ w.referencesOf a

theorem Refers.exists_node {w : World} {a b : NodeId} (h : w.Refers a b) :
    ∃ n, w.node? a = some n ∧ b ∈ n.references := by
  unfold Refers referencesOf at h
  cases hn : w.node? a with
  | none => rw [hn] at h; cases h
  | some n => exact ⟨n, rfl, by rwa [hn] at h⟩

theorem Lists.refers {w : World} {p c : NodeId} (h : w.Lists p c) : w.Refers p c := by
  obtain ⟨n, hn, -, hc⟩ := h
  rw [Refers, referencesOf, hn]
  exact Node.nodesIn_subset n _ hc

end World

/-- A scene as the reading of a document leaves it. -/
structure Scene.IsSettled (header : Header) (env : Environment) (s : Scene) (w : World) : Prop where
  orderly : Orderly w
  root : s.root = env.scene
  tidy : s.Tidy header
  top : ∃ n, w.node? env.scene = some n ∧ n.routes = [] ∧ n.references = w.children env.scene
  drafts : ∀ n ∈ w.nodes, env.scene.value < n.id.value → n.IsDraft header env
  layered : w.Layered env (w.children env.scene)
  uncyclic : ∀ id, ReflTransGen w.Refers env.scene id → ¬ w.IsCyclic id
  routes : ∃ bound, (∀ c ∈ w.children env.scene, c.value < bound) ∧ w.ClosedBelow env bound ∧
    w.RoutesFit env bound

variable {header : Header} {env : Environment} {cut : Prop} {n m : Node} {w v v' : World}
  {ids : List NodeId} {time : Timestamp}

namespace Node.IsTrimmed

theorem isDraft (h : n.IsTrimmed cut m) (hn : n.IsDraft header env) : m.IsDraft header env where
  typed := by rw [h.spec, h.behavior]; exact hn.typed
  environment := h.environment.trans hn.environment
  name := h.name ▸ hn.name
  fields f hf := by
    rcases List.mem_append.1 hf with hf | hf
    · have hmem : ∀ g ∈ m.fields, ∃ f ∈ n.fields, f.IsTrimmed cut g := by
        have hall := h.fields
        generalize n.fields = fs, m.fields = gs at hall
        induction hall with
        | nil => exact fun g hg => by cases hg
        | cons hfg _ ih =>
          refine List.forall_mem_cons.2 ⟨⟨_, List.mem_cons_self, hfg⟩, fun g hg => ?_⟩
          obtain ⟨f, hf, hfg⟩ := ih g hg
          exact ⟨f, List.mem_cons_of_mem _ hf, hfg⟩
      obtain ⟨g, hg, hgf⟩ := hmem f hf
      exact hgf.isDraft (hn.fields g (List.mem_append_left _ hg))
    · rw [h.dynamic] at hf
      exact hn.fields f (List.mem_append_right _ hf)
  own e he := by
    rw [h.spec]
    exact hn.own e (h.dynamic ▸ he)
  ownNames := by
    rw [dynamicNames, h.dynamic]
    exact hn.ownNames
  routes := by
    constructor <;> rw [h.routes]
    exacts [hn.routes.distinct, hn.routes.lists]

theorem fields_eq (h : n.IsTrimmed cut m) (hcut : ¬ cut) : m.fields = n.fields := by
  have hall := h.fields
  generalize n.fields = fs, m.fields = gs at hall
  induction hall with
  | nil => rfl
  | cons hfg _ ih =>
    rw [ih]
    rcases hfg with rfl | ⟨hc, -⟩
    · rfl
    · exact absurd hc hcut

theorem grows (h : n.IsTrimmed cut m) : n.Grows m := .of_eq h.id h.spec h.dynamic

end Node.IsTrimmed

namespace World

/-! ### The world between reading and setting up -/

namespace Assembles

theorem mem_nodes {root : NodeId} (h : Assembles root ids w v) (hn : n ∈ v.nodes) (hid : n.id ≠ root) :
    n ∈ w.nodes := by
  obtain ⟨time, hnodes⟩ := h.nodes
  rw [hnodes] at hn
  obtain ⟨k, hk, rfl⟩ := List.mem_map.1 hn
  split
  · rename_i hroot
    rw [if_pos hroot, Node.store_id] at hid
    exact absurd hroot hid
  · exact hk

theorem exists_root (h : Assembles env.scene ids w v) (hw : Drafted header env w) :
    ∃ time, v.node? env.scene = some ((Node.fresh env.scene Scene.nodeType.layout .grouping env).store
      childrenField (.nodes ids time)) := by
  obtain ⟨time, hnodes⟩ := h.nodes
  refine ⟨time, ?_⟩
  rw [node?_congr hnodes, node?_modify_self w env.scene fun n => Node.store_id n _ _, hw.root]
  rfl

end Assembles

/-- The root refers to its children and to nothing else. -/
theorem references_root (env : Environment) (ids : List NodeId) (time : Timestamp) :
    ((Node.fresh env.scene Scene.nodeType.layout .grouping env).store childrenField
      (.nodes ids time)).references = ids := by
  change (Field.nodes ids time).references ++ ((Field.nodes []).references ++
    ((Field.nodes []).references ++ [])) = ids
  simp only [Field.references_nodes, List.append_nil]

theorem nodesIn_root (env : Environment) (ids : List NodeId) (time : Timestamp) :
    ((Node.fresh env.scene Scene.nodeType.layout .grouping env).store childrenField
      (.nodes ids time)).nodesIn childrenField = ids := Field.references_nodes ids time

namespace Assembles

variable (hw : Drafted header env w) (hids : ∀ c ∈ ids, env.scene.value < c.value)
  (h : Assembles env.scene ids w v)
include hw h

/-- Setting everything up, of which nothing is set up yet. -/
theorem setsUp (time : Timestamp) :
    SetsUp v env.scene.value [] v (v.initializeNode env.scene time) ∧
      (v.initializeNode env.scene time).IsMarked env.scene := by
  refine setsUp_initializeNode h.orderly (fun n hn hid => ?_) _ _
  rcases Nat.eq_or_lt_of_le hid with heq | hlt
  · obtain ⟨time, hroot⟩ := h.exists_root hw
    have hnode := h.orderly.node?_of_mem hn
    rw [← NodeId.eq_of_value heq, hroot] at hnode
    obtain rfl := Option.some.inj hnode
    rw [Node.store_initialized]
    rfl
  · exact (hw.fresh n (h.mem_nodes hn fun hroot => by
      rw [hroot] at hlt
      exact Nat.lt_irrefl _ hlt) hlt).1

/-- A node made after the root that is there after setting up. -/
theorem exists_node (time : Timestamp) {m : Node} (hm : m ∈ (v.initializeNode env.scene time).nodes)
    (hid : env.scene.value < m.id.value) :
    ∃ n ∈ w.nodes, n.IsTrimmed (v.IsCyclic n.id) m := by
  obtain ⟨hset, -⟩ := h.setsUp hw time
  obtain ⟨n, hn, hnm, -⟩ := hset.trims.nodes m hm
  refine ⟨n, h.mem_nodes hn fun hroot => ?_, hnm⟩
  rw [hnm.id, hroot] at hid
  exact Nat.lt_irrefl _ hid

theorem closedBelow (time : Timestamp) {bound : Nat} (hc : w.ClosedBelow env bound) :
    (v.initializeNode env.scene time).ClosedBelow env bound := by
  intro m hm hroot hbound r hr
  obtain ⟨n, hn, hnm⟩ := h.exists_node hw time hm hroot
  rw [hnm.id] at hroot hbound
  exact hc n hn hroot hbound r (hnm.references.subset hr)

theorem routesFit (time : Timestamp) {bound : Nat} (hr : w.RoutesFit env bound) :
    (v.initializeNode env.scene time).RoutesFit env bound := by
  intro a' ha' hroot hbound c hc b' hb' hcb hbound'
  obtain ⟨a, ha, haa⟩ := h.exists_node hw time ha' hroot
  obtain ⟨hset, -⟩ := h.setsUp hw time
  obtain ⟨b, hb, hbb, -⟩ := hset.trims.nodes b' hb'
  have hc' : c ∈ a.connections := by rwa [Node.connections, ← haa.routes]
  have htarget := (hw.targets a ha (haa.id ▸ hroot) c hc').1
  have hb := h.mem_nodes hb fun hid => by
    rw [← hcb, hbb.id, hid] at htarget
    exact Nat.lt_irrefl _ htarget
  exact (hr a ha (haa.id ▸ hroot) (haa.id ▸ hbound) c hc' b hb (hbb.id ▸ hcb) (hbb.id ▸ hbound')).grows
    haa.grows hbb.grows

/-- The world is ready for the next document. -/
theorem ready (time : Timestamp) : Ready (v.initializeNode env.scene time) := by
  obtain ⟨hset, -⟩ := h.setsUp hw time
  have hproceeds := proceeds_initializeNode Catalog.regular_withScenes h.orderly.sound env.scene time
  have hroot := h.orderly.issued (mem_nodes_of_node? (h.exists_root hw).choose_spec)
  have hlast := hset.trims.lastId
  refine ⟨hset.orderly, hproceeds.cascade.trans h.idle, fun m hm => ?_, fun e he => ?_⟩
  · obtain ⟨n, hn, hnm, -⟩ := hset.trims.nodes m hm
    rw [hnm.environment, hlast]
    rcases Nat.lt_trichotomy n.id.value env.scene.value with hlt | heq | hgt
    · exact Nat.le_of_lt (Nat.lt_of_lt_of_le
        (hw.strangers n (h.mem_nodes hn fun hroot => by
          rw [hroot] at hlt
          exact Nat.lt_irrefl _ hlt) hlt) hroot)
    · have hnode := h.orderly.node?_of_mem hn
      rw [NodeId.eq_of_value heq, (h.exists_root hw).choose_spec] at hnode
      rw [← Option.some.inj hnode, Node.store_environment]
      exact hroot
    · rw [(hw.drafts n (h.mem_nodes hn fun hroot => by
        rw [hroot] at hgt
        exact Nat.lt_irrefl _ hgt) hgt).environment]
      exact hroot
  · rw [hlast, h.registry]
    exact (hw.names e (h.registry ▸ hset.trims.names e he)).1

include hids

/-- Nodes made after the root refer to such nodes only. -/
theorem inner {a c : NodeId} (ha : env.scene.value ≤ a.value) (hc : v.Refers a c) :
    env.scene.value < c.value := by
  obtain ⟨n, hn, hc⟩ := hc.exists_node
  have hid := id_of_node? hn
  rcases Nat.eq_or_lt_of_le ha with heq | hlt
  · obtain ⟨time, hroot⟩ := h.exists_root hw
    rw [← NodeId.eq_of_value heq, hroot] at hn
    obtain rfl := Option.some.inj hn
    exact hids c (references_root env ids time ▸ hc)
  · have hmem := h.mem_nodes (mem_nodes_of_node? hn) fun hroot => by
      rw [← hid, hroot] at hlt
      exact Nat.lt_irrefl _ hlt
    obtain ⟨f, hf, hr⟩ := List.mem_flatMap.1 hc
    exact ((hw.drafts n hmem (hid ▸ hlt)).fields f hf).inner c hr

theorem not_isCyclic_root : ¬ v.IsCyclic env.scene := by
  rintro ⟨c, hc, hcroot⟩
  have hinner : ∀ a b, ReflTransGen v.Lists a b → env.scene.value < a.value → env.scene.value < b.value := by
    intro a b hab ha
    induction hab with
    | refl => exact ha
    | tail _ hstep ih => exact h.inner hw hids (Nat.le_of_lt ih) hstep.refers
  exact Nat.lt_irrefl _ (hinner c _ hcroot (h.inner hw hids (Nat.le_refl _) hc.refers))

/-- The root keeps its children. -/
theorem exists_root_setUp (time : Timestamp) :
    ∃ m, (v.initializeNode env.scene time).node? env.scene = some m ∧ m.routes = [] ∧
      m.references = ids ∧ (v.initializeNode env.scene time).children env.scene = ids := by
  obtain ⟨hset, -⟩ := h.setsUp hw time
  have hheld := (proceeds_initializeNode Catalog.regular_withScenes h.orderly.sound env.scene time).held
  obtain ⟨m, hm⟩ := isLive_iff.1 (hset.orderly.sound.held env.scene (hheld ▸ h.held))
  obtain ⟨n, hn, hnm, -⟩ := hset.trims.nodes m (mem_nodes_of_node? hm)
  obtain ⟨stamp, hroot⟩ := h.exists_root hw
  have hid : n.id = env.scene := hnm.id.symm.trans (id_of_node? hm)
  have hnode := h.orderly.node?_of_mem hn
  rw [hid, hroot] at hnode
  have hfields := hnm.fields_eq (hid ▸ h.not_isCyclic_root hw hids)
  obtain rfl := Option.some.inj hnode
  refine ⟨m, hm, hnm.routes.trans (Node.store_routes ..), ?_, ?_⟩
  · rw [Node.references, Node.allFields, hfields, hnm.dynamic]
    exact references_root env ids stamp
  · rw [World.children, hm]
    refine Eq.trans ?_ (nodesIn_root env ids stamp)
    change m.nodesIn childrenField = _
    unfold Node.nodesIn Node.field? Node.dynamicField?
    rw [hnm.spec, hfields, hnm.dynamic]

/-- Everything reached from the root is set up. -/
theorem isMarked_of_refers (time : Timestamp) {id : NodeId}
    (hid : ReflTransGen (v.initializeNode env.scene time).Refers env.scene id) :
    (v.initializeNode env.scene time).IsMarked id ∧ env.scene.value ≤ id.value := by
  obtain ⟨hset, hroot⟩ := h.setsUp hw time
  induction hid with
  | refl => exact ⟨hroot, Nat.le_refl _⟩
  | tail _ hstep ih =>
    have hstep' := hset.trims.references h.orderly.sound.distinct _ hstep
    refine ⟨?_, Nat.le_of_lt (h.inner hw hids ih.2 hstep')⟩
    obtain ⟨n, hn, hc⟩ := hstep.exists_node
    have hmem := mem_nodes_of_node? hn
    have hid := id_of_node? hn
    exact hset.closed n hmem (hid ▸ ih.2) (ih.1 n hmem hid) (List.not_mem_nil) _ hc

/-- Lists of what is set up are claims, which close no cycle. -/
theorem uncyclic (time : Timestamp) {id : NodeId}
    (hid : ReflTransGen (v.initializeNode env.scene time).Refers env.scene id) :
    ¬ (v.initializeNode env.scene time).IsCyclic id := by
  obtain ⟨hset, -⟩ := h.setsUp hw time
  have hclaims : ∀ {a b}, ReflTransGen (v.initializeNode env.scene time).Refers env.scene a →
      (v.initializeNode env.scene time).Lists a b → (v.initializeNode env.scene time).Claims a b := by
    intro a b ha ⟨n, hn, hb, hc⟩
    have hi := (h.isMarked_of_refers hw hids time ha).1 n (mem_nodes_of_node? hn) (id_of_node? hn)
    rw [Claims, claimed_eq hn, Node.claimed, if_pos ⟨hb, hi⟩]
    exact hc
  rintro ⟨c, hc, hback⟩
  have hway : ∀ b, ReflTransGen (v.initializeNode env.scene time).Lists c b →
      TransGen (v.initializeNode env.scene time).Claims id b ∧
        ReflTransGen (v.initializeNode env.scene time).Refers env.scene b := by
    intro b hb
    induction hb with
    | refl => exact ⟨.single (hclaims hid hc), hid.tail hc.refers⟩
    | tail _ hstep ih => exact ⟨ih.1.tail (hclaims ih.2 hstep), ih.2.tail hstep.refers⟩
  exact hset.orderly.acyclic id (hway id hback).1

end Assembles

end World

namespace Reader

variable {ctx : DocumentContext} {w₀ : World} {rest : List NodeId} {bound : Nat} {t : ReaderState}

/-- **After a document whose declarations were all read** its scene is settled. -/
theorem Stage.isSettled (h : Stage ctx header w₀ rest ids bound t)
    (ha : World.Assembles ctx.environment.scene ids t.world v)
    (hskip : ¬ w₀.Skipped ctx.file t.world) (time : Timestamp) (e : Entry) :
    t.scene.IsSettled header ctx.environment ((v.initializeNode ctx.environment.scene time).enter e) := by
  have hw := h.reading.drafted
  have hids := h.layered.inner
  obtain ⟨hset, -⟩ := ha.setsUp hw time
  obtain ⟨m, hm, hroutes, hrefs, hchildren⟩ := ha.exists_root_setUp hw hids time
  refine ⟨hset.orderly.enter e, h.reading.root, h.reading.tidy, ⟨m, hm, hroutes, hrefs.trans hchildren.symm⟩,
    fun m hm hid => ?_, ?_, fun id hid => ha.uncyclic hw hids time hid,
    ⟨bound, fun c hc => h.bounded c (hchildren ▸ hc), ha.closedBelow hw time h.closed,
      ha.routesFit hw time (h.routes hskip)⟩⟩
  · obtain ⟨n, hn, hnm⟩ := ha.exists_node hw time hm hid
    exact hnm.isDraft (hw.drafts n hn (hnm.id ▸ hid))
  · change World.Layered ctx.environment _ ((v.initializeNode ctx.environment.scene time).children
      ctx.environment.scene)
    rw [hchildren]
    exact ⟨hids, h.layered.ordered, fun c hc => ha.closedBelow hw time (h.layered.closed c hc)⟩

end Reader

namespace Document

open Reader (Stage exec)

/-- What stays the same while a document is read into a world. -/
def context (d : Document) (h : Header) (w : World) : DocumentContext where
  file := d.file
  catalog := d.catalog
  environment :=
    { library := d.library, filename := d.file, scene := ⟨w.registry.lastId + 1⟩, renders := d.renders }
  time := if d.time.isUnset then d.now else d.time
  size := d.text.utf8ByteSize
  stop := ((Cursor.ofText d.text).readLine.2.lexemes (some h)).2.position
  control := d.control

/-- The state in which the statements of a document are read into a world. -/
def start (d : Document) (h : Header) (w : World) : ReaderState :=
  let created := Scene.create w d.library d.file d.renders (if d.time.isUnset then d.now else d.time)
  { lexemes := ((Cursor.ofText d.text).readLine.2.lexemes (some h)).1
    world := created.2
    scene := created.1
    progress := d.progress }

/-- The root of a new scene has the next id. -/
theorem root_create (w : World) (library filename : String) (renders : Bool) (time : Timestamp) :
    (Scene.create w library filename renders time).1.root = ⟨w.registry.lastId + 1⟩ := rfl

/-- What comes of a document whose header is right. -/
theorem read_outcome {d : Document} (w : World) (hheader : d.header = .ok header) :
    d.read w = {
      result := (exec (Reader.document (d.context header w)) (d.start header w)).1.map fun _ =>
        (exec (Reader.document (d.context header w)) (d.start header w)).2.scene
      world := (exec (Reader.document (d.context header w)) (d.start header w)).2.world
      progress := (exec (Reader.document (d.context header w)) (d.start header w)).2.progress
      checkpoints := (exec (Reader.document (d.context header w)) (d.start header w)).2.checkpoints.reverse } := by
  unfold Document.read context start
  rw [hheader]
  dsimp only
  rw [root_create]
  rfl

/-- A document whose header is wrong leaves the world alone. -/
theorem read_of_error {d : Document} {e : ReadError} (w : World) (hheader : d.header = .error e) :
    d.read w = ⟨.error e, w, d.progress, []⟩ := by
  unfold Document.read
  rw [hheader]

theorem exists_header {d : Document} {s : Scene} (hread : (d.read w).result = .ok s) :
    ∃ header, d.header = .ok header := by
  cases hheader : d.header with
  | error e =>
    rw [read_of_error w hheader] at hread
    cases hread
  | ok header => exact ⟨header, rfl⟩

theorem read_eq {d : Document} (w : World) (hheader : d.header = .ok header) :
    (d.read w).result = (exec (Reader.document (d.context header w)) (d.start header w)).1.map (fun _ =>
        (exec (Reader.document (d.context header w)) (d.start header w)).2.scene) ∧
      (d.read w).world = (exec (Reader.document (d.context header w)) (d.start header w)).2.world := by
  rw [read_outcome w hheader]
  exact ⟨rfl, rfl⟩

theorem root_start (hw : Ready w) (d : Document) (header : Header) :
    (d.start header w).scene.root = (d.context header w).environment.scene ∧
      w.journal <:+ (d.start header w).world.journal := by
  obtain ⟨specifications, hcreate⟩ := World.create_eq hw.orderly.sound d.library d.file d.renders
    (if d.time.isUnset then d.now else d.time)
  have hscene : (d.start header w).scene = _ := congrArg Prod.fst hcreate
  have hworld : (d.start header w).world = _ := congrArg Prod.snd hcreate
  rw [hscene, hworld]
  exact ⟨rfl, List.suffix_cons _ _⟩

/-- The first statement of a document. -/
theorem stage_start (hw : Ready w) (d : Document) (header : Header) :
    Stage (d.context header w) header (d.start header w).world (d.start header w).world.held []
      ((d.start header w).world.registry.lastId + 1) (d.start header w) := by
  have hdrafted : Drafted header (d.context header w).environment (d.start header w).world :=
    hw.drafted header d.library d.file d.renders (if d.time.isUnset then d.now else d.time)
  have hnone : ∀ n ∈ (d.start header w).world.nodes,
      ¬ (d.context header w).environment.scene.value < n.id.value := by
    obtain ⟨specifications, hcreate⟩ := World.create_eq hw.orderly.sound d.library d.file d.renders
      (if d.time.isUnset then d.now else d.time)
    have hworld : (d.start header w).world = _ := congrArg Prod.snd hcreate
    intro n hn hlt
    have hle := hdrafted.orderly.issued hn
    rw [hworld] at hle
    exact absurd hlt (Nat.not_lt_of_le hle)
  have hmetadata : (d.start header w).scene.profile = none ∧ (d.start header w).scene.metadata = [] :=
    ⟨rfl, rfl⟩
  refine ⟨⟨hdrafted, (root_start hw d header).1, ⟨?_, ?_⟩, fun t ht => ?_⟩, ⟨[], List.Perm.refl _⟩,
    List.suffix_rfl, ⟨by simp, List.Pairwise.nil, by simp⟩, by simp,
    fun n hn hlt => (hnone n hn hlt).elim, fun _ n hn hlt => (hnone n hn hlt).elim, Nat.le_refl _⟩
  · rw [hmetadata.1]
    exact fun p hp => by cases hp
  · rw [hmetadata.2]
    exact List.nodup_nil
  · obtain ⟨l, hl, rfl⟩ := List.mem_map.1 ht
    exact valid_lexemes (some header) _ l hl

/-- How a document was read: statement by statement, and then everything was set up. -/
theorem exists_of_read {d : Document} (hw : Ready w) (hcatalog : d.catalog = Catalog.standard)
    (hheader : d.header = .ok header) {s : Scene} (hread : (d.read w).result = .ok s) :
    ∃ ids bound t v e time,
      Stage (d.context header w) header (d.start header w).world (d.start header w).world.held ids bound t ∧
        World.Assembles (d.context header w).environment.scene ids t.world v ∧ s = t.scene ∧
          e.isQuoting = false ∧ (d.read w).world =
            (v.initializeNode (d.context header w).environment.scene time).enter e := by
  obtain ⟨hresult, hworld⟩ := read_eq w hheader
  obtain ⟨s', hrun⟩ : ∃ s', exec (Reader.document (d.context header w)) (d.start header w) = (.ok (), s') := by
    rw [hread] at hresult
    generalize exec (Reader.document (d.context header w)) (d.start header w) = r at hresult
    obtain ⟨e | _, s'⟩ := r
    · cases hresult
    · exact ⟨s', rfl⟩
  rw [hrun] at hresult hworld
  obtain ⟨ids, t, hstatements⟩ := Reader.exists_of_exec_document hrun
  have hstart := stage_start hw d header
  obtain ⟨bound, hstage⟩ := hstart.statements hcatalog hstart.reading.drafted.rootHeld hstatements
  obtain ⟨leaked, hheld⟩ := hstage.held
  obtain ⟨v, e, s'', hassembles, he, hrun', hscene, hworld'⟩ := Reader.exec_document hstatements
    hstage.reading.drafted hstage.reading.root hstage.layered.inner
    fun c hc => hheld.mem_iff.2 (List.mem_append_left _ hc)
  obtain rfl : s' = s'' := congrArg Prod.snd (hrun.symm.trans hrun')
  refine ⟨ids, bound, t, v, e, _, hstage, hassembles, ?_, he, hworld.trans hworld'⟩
  rw [hread] at hresult
  exact (Except.ok.inj hresult).trans hscene

/-- **A document that is read without a skipped declaration** leaves a settled scene. -/
theorem isSettled {d : Document} (hw : Ready w) (hcatalog : d.catalog = Catalog.standard)
    (hheader : d.header = .ok header) {s : Scene} (hread : (d.read w).result = .ok s)
    (hskip : ¬ w.Skipped d.file (d.read w).world) :
    s.IsSettled header (d.context header w).environment (d.read w).world := by
  obtain ⟨ids, bound, t, v, e, time, hstage, hassembles, rfl, he, hworld⟩ :=
    exists_of_read hw hcatalog hheader hread
  rw [hworld] at hskip ⊢
  refine hstage.isSettled hassembles (fun hskipped => hskip ?_) time e
  obtain ⟨entries, hentries, -⟩ := hassembles.journal
  obtain ⟨more, hmore, -⟩ := (hassembles.setsUp hstage.reading.drafted time).1.trims.journal
  refine Reader.skipped_of_suffix (root_start hw d header).2 (Reader.skipped_trans ?_ hskipped)
  exact ((hentries ▸ List.suffix_append entries _).trans (hmore ▸ List.suffix_append more _)).trans
    (List.suffix_cons e _)

/-- After a document was read the world is ready for the next one. -/
theorem ready {d : Document} (hw : Ready w) (hcatalog : d.catalog = Catalog.standard)
    (hheader : d.header = .ok header) {s : Scene} (hread : (d.read w).result = .ok s) :
    Ready (d.read w).world := by
  obtain ⟨ids, bound, t, v, e, time, hstage, hassembles, rfl, he, hworld⟩ :=
    exists_of_read hw hcatalog hheader hread
  have hready := hassembles.ready hstage.reading.drafted time
  rw [hworld]
  exact ⟨hready.orderly.enter e, hready.idle, hready.scenes, hready.names⟩

end Document

end SceneGraph
