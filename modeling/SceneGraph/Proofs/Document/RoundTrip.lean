import SceneGraph.Proofs.Document.Rereading

/-!
# Writing a scene and reading it again

The text of a scene is read as a copy of the scene (`Document.read_text`). Once there are copies of all nodes,
the root gets the copies of the top-level nodes and everything is set up: this cuts no list down, because
lists of copies close no cycle (`Scene.IsSettled.not_isCyclic_copy`), so the traversal of the copies lists
what the traversal of the scene lists.
-/

namespace SceneGraph

open Relation (ReflTransGen)
open World (Trims Orderly)

variable {header : Header} {env : Environment} {s : Scene} {w v u : World} {φ : NodeId → NodeId}
  {id : NodeId} {n m k : Node}

namespace Scene

/-- Setting up leaves a copy what it is if it cuts no list down. -/
theorem Copied.trim {cut : Prop} (h : s.Copied φ w n m) (ht : m.IsTrimmed cut k) (hcut : ¬ cut) :
    s.Copied φ w n k where
  copied := h.copied.congr ht.spec ht.behavior (ht.fields_eq hcut) ht.dynamic
  name := ht.name.trans h.name
  connections := by
    rw [Node.connections, ht.routes]
    exact h.connections

namespace IsSettled

/-- What a node of the scene refers to is a node of the scene. -/
theorem references_subset (h : s.IsSettled header env w) (hid : id ∈ s.nodes w) :
    w.referencesOf id ⊆ s.nodes w := by
  intro r hr
  obtain ⟨hinner, hlive⟩ := h.isLive_of_mem_nodes hid
  have hclosed := (preorder_closed w.referencesOf w.liveIds (w.referencesOf s.root) [s.root]).2 id hid
    (World.mem_liveIds.2 hlive) r hr
  refine hclosed.resolve_left fun hroot => ?_
  obtain ⟨n, hn, hr⟩ := World.Refers.exists_node hr
  have hmem := h.inner (World.mem_nodes_of_node? hn) (World.id_of_node? hn ▸ hinner) r hr
  rw [List.mem_singleton.1 hroot, h.root] at hmem
  exact Nat.lt_irrefl _ hmem

theorem children_subset (h : s.IsSettled header env w) : s.children w ⊆ s.nodes w := by
  intro c hc
  have hclosed := (preorder_closed w.referencesOf w.liveIds (w.referencesOf s.root) [s.root]).1 c
    (h.references_root ▸ hc)
  refine hclosed.resolve_left fun hroot => ?_
  have hinner := (h.isLive_child hc).1
  rw [List.mem_singleton.1 hroot, h.root] at hinner
  exact Nat.lt_irrefl _ hinner

/-- The nodes of a scene are reached from its root. -/
theorem reaches (h : s.IsSettled header env w) (hid : id ∈ s.nodes w) :
    ReflTransGen w.Refers env.scene id := by
  obtain ⟨c, hc, hway⟩ := exists_of_mem_preorder hid
  rw [h.root] at hc
  exact ReflTransGen.head hc hway

section Copies

variable (h : s.IsSettled header env w) (hcopies : s.HasCopies φ w v)
  (hinj : ∀ a ∈ s.nodes w, ∀ b ∈ s.nodes w, φ a = φ b → a = b)
include h hcopies

/-- What the copy of a node lists are copies of what the node lists. -/
theorem exists_of_lists_copy (hid : id ∈ s.nodes w) {x : NodeId} (hx : v.Lists (φ id) x) :
    ∃ b ∈ s.nodes w, w.Lists id b ∧ x = φ b := by
  obtain ⟨n, m, hn, hm, hcopied⟩ := hcopies id hid
  obtain ⟨m', hm', hbehavior, hx⟩ := hx
  obtain rfl := Option.some.inj (hm.symm.trans hm')
  obtain ⟨b, hb, rfl⟩ := hcopied.copied.exists_of_mem_nodesIn
    (h.orderly.isRegular (World.mem_nodes_of_node? hn)) hx
  have hlists : w.Lists id b := ⟨n, hn, hcopied.copied.behavior.symm.trans hbehavior, hb⟩
  exact ⟨b, h.references_subset hid hlists.refers, hlists, rfl⟩

include hinj

/-- Lists of copies close no cycle, because lists of their originals do not. -/
theorem not_isCyclic_copy (hid : id ∈ s.nodes w) : ¬ v.IsCyclic (φ id) := by
  rintro ⟨c, hc, hback⟩
  obtain ⟨b, hb, hfirst, rfl⟩ := h.exists_of_lists_copy hcopies hid hc
  have hway : ∀ x, ReflTransGen v.Lists (φ b) x → ∃ a ∈ s.nodes w, ReflTransGen w.Lists b a ∧ x = φ a := by
    intro x hx
    induction hx with
    | refl => exact ⟨b, hb, .refl, rfl⟩
    | tail _ hstep ih =>
      obtain ⟨a, ha, hba, rfl⟩ := ih
      obtain ⟨a', ha', hstep', rfl⟩ := h.exists_of_lists_copy hcopies ha hstep
      exact ⟨a', ha', hba.tail hstep', rfl⟩
  obtain ⟨a, ha, hba, heq⟩ := hway _ hback
  obtain rfl := hinj id hid a ha heq
  exact h.uncyclic id (h.reaches hid) ⟨b, hfirst, hba⟩

/-- A copy that is there after setting up is a copy still. -/
theorem exists_copied (hv : v.liveIds.Nodup) {marks : NodeId → Prop} (ht : Trims v marks v u)
    (hid : id ∈ s.nodes w) (hlive : u.isLive (φ id) = true) :
    ∃ n m, w.node? id = some n ∧ u.node? (φ id) = some m ∧ s.Copied φ w n m := by
  obtain ⟨n, m, hn, hm, hcopied⟩ := hcopies id hid
  obtain ⟨k, hk⟩ := World.isLive_iff.1 hlive
  obtain ⟨m', hm', htrim, -⟩ := ht.nodes k (World.mem_nodes_of_node? hk)
  have hid' : m'.id = φ id := htrim.id.symm.trans (World.id_of_node? hk)
  have hnode := World.node?_of_mem hv hm'
  rw [hid'] at hnode htrim
  obtain rfl := Option.some.inj (hm.symm.trans hnode)
  exact ⟨n, k, hn, hk, hcopied.trim htrim (h.not_isCyclic_copy hcopies hinj hid)⟩

/-- **Setting up keeps all copies** if the root refers to the copies of the top-level nodes: along references
every copy is reached from the root. -/
theorem hasCopies_setUp (hshown : ∀ id ∈ s.nodes w, ∀ n, w.node? id = some n → ¬ n.HidesNodes)
    (hv : v.liveIds.Nodup) {marks : NodeId → Prop} (ht : Trims v marks v u) (hu : Orderly u) {root : NodeId}
    (hroot : u.referencesOf root = (s.children w).map φ) :
    s.HasCopies φ w u ∧ ∀ id ∈ s.nodes w, u.referencesOf (φ id) = (w.referencesOf id).map φ := by
  have hlive_of : ∀ {a b}, b ∈ u.referencesOf a → u.isLive b = true := fun hb => by
    obtain ⟨n, hn, hb⟩ := World.Refers.exists_node hb
    exact hu.isLive_reference (World.mem_nodes_of_node? hn) hb
  have hrefs : ∀ id ∈ s.nodes w, u.isLive (φ id) = true →
      u.referencesOf (φ id) = (w.referencesOf id).map φ := by
    intro id hid hlive
    obtain ⟨n, m, hn, hm, hcopied⟩ := h.exists_copied hcopies hinj hv ht hid hlive
    rw [World.referencesOf, World.referencesOf, hn, hm]
    exact hcopied.copied.references (h.orderly.isRegular (World.mem_nodes_of_node? hn))
      (hu.isRegular (World.mem_nodes_of_node? hm)) (hshown id hid n hn)
  have hlive : ∀ id ∈ s.nodes w, u.isLive (φ id) = true := by
    intro id hid
    obtain ⟨c, hc, hway⟩ := exists_of_mem_preorder hid
    rw [h.references_root] at hc
    have hboth : id ∈ s.nodes w ∧ u.isLive (φ id) = true := by
      clear hid
      induction hway with
      | refl => exact ⟨h.children_subset hc, hlive_of (hroot ▸ List.mem_map_of_mem hc)⟩
      | @tail a b _ hstep ih =>
        refine ⟨h.references_subset ih.1 hstep, hlive_of (a := φ a) ?_⟩
        rw [hrefs a ih.1 ih.2]
        exact List.mem_map_of_mem hstep
    exact hboth.2
  exact ⟨fun id hid => h.exists_copied hcopies hinj hv ht hid (hlive id hid),
    fun id hid => hrefs id hid (hlive id hid)⟩

end Copies

end IsSettled

end Scene

namespace Scene

/-- The image of a route, with the node and the field that it leaves. -/
def mapRoute (φ : NodeId → NodeId) (r : NodeId × String × Route) : NodeId × String × Route :=
  (φ r.1, r.2.1, ⟨φ r.2.2.target, r.2.2.field⟩)

/-- A scene is a copy of another one: its nodes are the images of the nodes of the other, in the same order,
and copies of them, with the same names where these have names. So are its top-level nodes and its routes
to its nodes, and a document that can say so has the same profile and the same metadata. -/
structure CopiedAs (header : Header) (φ : NodeId → NodeId) (s : Scene) (w : World) (s' : Scene) (u : World) :
    Prop where
  nodes : s'.nodes u = (s.nodes w).map φ
  injective : ∀ a ∈ s.nodes w, ∀ b ∈ s.nodes w, φ a = φ b → a = b
  copies : ∀ id ∈ s.nodes w, ∃ n m, w.node? id = some n ∧ u.node? (φ id) = some m ∧ n.CopiedAs φ m ∧
    (n.name ≠ "" → m.name = n.name)
  children : s'.children u = (s.children w).map φ
  routes : s'.routesWithin u = (s.routesWithin w).map (mapRoute φ)
  opening : header.isX3d = true → s'.profile = s.profile ∧ s'.metadata = s.metadata

/-- The journal does not matter. -/
theorem CopiedAs.enter {s' : Scene} (h : CopiedAs header φ s w s' u) (e : Entry) :
    CopiedAs header φ s w s' (u.enter e) :=
  ⟨h.nodes, h.injective, h.copies, h.children, h.routes, h.opening⟩

/-- A named node keeps its name in the text of a scene. -/
theorem Copied.name_eq (h : s.Copied φ w n m) (hid : n.id ∈ s.nodes w) (hn : w.node? n.id = some n)
    (hname : n.name ≠ "") : m.name = n.name := by
  rw [h.name, name?_namesFor, if_pos hid, hn, Option.bind_some, nameFor, if_pos hname]
  rfl

/-- The routes of a copy to copies are copies of routes within the scene. -/
theorem Copied.filter_connections (h : s.Copied φ w n m) (id : NodeId) :
    (m.connections.map (φ id, ·)).filter (fun r => ((s.nodes w).map φ).contains r.2.2.target) =
      ((n.connections.map (id, ·)).filter fun r => (s.nodes w).contains r.2.2.target).map (mapRoute φ) := by
  rw [h.connections, List.filter_map (l := n.connections), List.map_map, List.map_map, List.filter_eq_self.2]
  · rfl
  · intro r hr
    obtain ⟨c, hc, rfl⟩ := List.mem_map.1 hr
    have hwithin := List.contains_iff_mem.1 (List.mem_filter.1 hc).2
    exact List.contains_iff_mem.2 (List.mem_map_of_mem hwithin)

/-- **The traversal of copies lists the copies**, and the scene is a copy. -/
theorem IsSettled.copiedAs (h : s.IsSettled header env w) (hcopies : s.HasCopies φ w u)
    (hinj : ∀ a ∈ s.nodes w, ∀ b ∈ s.nodes w, φ a = φ b → a = b)
    (hrefs : ∀ id ∈ s.nodes w, u.referencesOf (φ id) = (w.referencesOf id).map φ) {s' : Scene} {r : Node}
    (hroot : ∀ id ∈ s.nodes w, φ id ≠ s'.root) (hr : u.node? s'.root = some r) (hroutes : r.routes = [])
    (hchildren : r.references = (s.children w).map φ) (htop : u.children s'.root = (s.children w).map φ)
    (hopening : header.isX3d = true → s'.profile = s.profile ∧ s'.metadata = s.metadata) :
    CopiedAs header φ s w s' u := by
  have hlive : ∀ id ∈ s.nodes w, id ∈ w.liveIds ∧ φ id ∈ u.liveIds := by
    intro id hid
    obtain ⟨n, m, hn, hm, -⟩ := hcopies id hid
    exact ⟨World.mem_liveIds.2 (World.isLive_of_node? hn), World.mem_liveIds.2 (World.isLive_of_node? hm)⟩
  have htops : u.referencesOf s'.root = (w.referencesOf s.root).map φ := by
    rw [h.references_root, World.referencesOf, hr]
    exact hchildren
  have hseen : ∀ id ∈ s.nodes w, φ id ∈ [s'.root] ↔ id ∈ [s.root] := by
    intro id hid
    refine iff_of_false (fun hmem => hroot id hid (List.mem_singleton.1 hmem)) fun hmem => ?_
    exact h.root_notMem (List.mem_singleton.1 hmem ▸ hid)
  have hnodes : s'.nodes u = (s.nodes w).map φ := by
    rw [Scene.nodes, htops]
    exact preorder_map hinj (fun id hid => ⟨fun _ hc => h.references_subset hid hc, hrefs id hid⟩)
      (fun id hid => iff_of_true (hlive id hid).2 (hlive id hid).1) (h.references_root ▸ h.children_subset) hseen
  refine ⟨hnodes, hinj, fun id hid => ?_, htop, ?_, hopening⟩
  · obtain ⟨n, m, hn, hm, hcopied⟩ := hcopies id hid
    obtain rfl := World.id_of_node? hn
    exact ⟨n, m, hn, hm, hcopied.copied, hcopied.name_eq hid hn⟩
  -- roots have no routes, so the routes are those of the nodes below
  · have hnone : ∀ {a : World} {x : NodeId} {k : Node}, a.node? x = some k → k.routes = [] →
        ((a.node? x).map Node.connections).getD [] = [] := by
      intro a x k hk hroutes
      rw [hk]
      change k.connections = []
      rw [Node.connections, hroutes]
      rfl
    obtain ⟨top, htop', htoproutes, -⟩ := h.top
    rw [← h.root] at htop'
    rw [routesWithin, routesWithin, Scene.routes, Scene.routes, List.flatMap_cons, List.flatMap_cons,
      hnone hr hroutes, hnone htop' htoproutes, List.map_nil, List.map_nil, List.nil_append, List.nil_append,
      hnodes, List.flatMap_map, List.filter_flatMap, List.filter_flatMap, List.map_flatMap]
    refine List.flatMap_congr fun id hid => ?_
    obtain ⟨n, m, hn, hm, hcopied⟩ := hcopies id hid
    rw [hn, hm]
    exact hcopied.filter_connections id

end Scene

/-! ### Nothing is skipped -/

/-- The message about a skipped declaration starts with a quotation mark. -/
theorem Entry.IsSkip.isQuoting {file : String} {e : Entry} (h : e.IsSkip file) : e.isQuoting = true := by
  have hwarning : ∀ p text, (Entry.warning file p text).isQuoting = true := by
    intro p text
    simp only [Entry.warning, Entry.isQuoting, String.toList_append, List.append_assoc]
    rfl
  obtain ⟨p, typeName, rfl | rfl⟩ := h
  · exact hwarning p _
  · exact hwarning p _

theorem World.Quiet.not_skipped (h : w.Quiet u) (file : String) : ¬ w.Skipped file u := by
  rintro ⟨entries, hentries, e, he, hskip⟩
  obtain ⟨entries', hentries', hquiet⟩ := h
  obtain rfl := List.append_cancel_right (hentries.symm.trans hentries')
  have hnot := hquiet e he
  rw [hskip.isQuoting] at hnot
  cases hnot

/-! ### Numbers -/

/-- All numbers in a value are finite. -/
def FieldType.isFinite : (t : FieldType) → t.Carrier → Bool
  | float, (x : Float32) => x.isFinite
  | time, (x : Float) => x.isFinite
  | color, (c : Color) => (Parts.parts c).all Float32.isFinite
  | rotation, (r : Rotation) => (Parts.parts r).all Float32.isFinite
  | vector2, (v : Vector2) => (Parts.parts v).all Float32.isFinite
  | vector3, (v : Vector3) => (Parts.parts v).all Float32.isFinite
  | vector4, (v : Vector4) => (Parts.parts v).all Float32.isFinite
  | matrix3, (m : Matrix3) => (Parts.parts m).all Float32.isFinite
  | matrix4, (m : Matrix4) => (Parts.parts m).all Float32.isFinite
  | _, _ => true

/-- All numbers in a field are finite. -/
def Field.IsFinite (f : Field) : Prop := ∀ v ∈ f.values, f.kind.type.isFinite v = true

instance (f : Field) : Decidable f.IsFinite :=
  inferInstanceAs (Decidable (∀ v ∈ f.values, f.kind.type.isFinite v = true))

namespace Document

open Reader (exec Copying)

/-- The first statement of a document finds no copies. -/
theorem copying_start (hw : w.Ready) (d : Document) (header : Header) (names : NodeNames)
    (order : List NodeId) : Copying (d.context header w) header names order [] (d.start header w) ∧
      w.Quiet (d.start header w).world := by
  have hstage := stage_start hw d header
  obtain ⟨specifications, hcreate⟩ := World.create_eq hw.orderly.sound d.library d.file d.renders
    (if d.time.isUnset then d.now else d.time)
  have hworld : (d.start header w).world = _ := congrArg Prod.snd hcreate
  refine ⟨⟨hstage.reading, by rw [hworld]; rfl, by simp, by simp, fun e he => .inl ?_⟩, ?_⟩
  · rw [hworld] at he
    exact Nat.lt_succ_of_le (hw.names e he)
  · rw [hworld]
    exact ⟨[.step (.created ⟨w.registry.lastId + 1⟩)], rfl, by simp [Entry.isQuoting]⟩

/-- **Writing a scene and reading it again gives a copy of the scene.** A document was read and no
declaration in it was skipped; the names that its nodes have in the text of its scene are different; no field
that can be set but not read holds a node; and all numbers are finite. Then the text of the scene under
the same header is read without skipping a declaration, and gives a scene that is a copy of the scene.
Of printing it is assumed that the text of a finite number is read as the same number, and that an axis of
length one stays what it is. -/
theorem read_text {d d' : Document} {w w' : World} {header : Header} {s : Scene} (hw : w.Ready) (hw' : w'.Ready)
    (hcatalog : d.catalog = Catalog.standard) (hcatalog' : d'.catalog = Catalog.standard)
    (hheader : d.header = .ok header) (hread : (d.read w).result = .ok s)
    (hskip : ¬ w.Skipped d.file (d.read w).world)
    (hdistinct : ((s.namesFor (d.read w).world).map (·.2)).Nodup)
    (hshown : ∀ id ∈ s.nodes (d.read w).world, ∀ n, (d.read w).world.node? id = some n → ¬ n.HidesNodes)
    (hfinite : ∀ id ∈ s.nodes (d.read w).world, ∀ n, (d.read w).world.node? id = some n →
      ∀ f ∈ n.allFields, f.IsFinite)
    (hprints : ∀ id ∈ s.nodes (d.read w).world, ∀ n, (d.read w).world.node? id = some n →
      ∀ f ∈ n.allFields, f.IsFinite → f.ReadsBack ∧ f.IsSteady)
    (htext : d'.text = s.text (d.read w).world header)
    (hcheck : ∀ required ∈ d'.check.required? d'.file, required = header)
    (hgoes : ∀ asked, d'.control.isCancelled asked = false) :
    ∃ s' φ, (d'.read w').result = .ok s' ∧ ¬ w'.Skipped d'.file (d'.read w').world ∧
      Scene.CopiedAs header φ s (d.read w).world s' (d'.read w').world := by
  have hsettled := isSettled hw hcatalog hheader hread hskip
  generalize (d.read w).world = original at *
  have hwritable : s.IsWritable header (d.context header w).environment original :=
    ⟨hsettled, hdistinct, hshown, fun id hid n hn f hf => hprints id hid n hn f hf (hfinite id hid n hn f hf)⟩
  have hheader' := header_of_text htext hcheck
  obtain ⟨hcopying, hquiet⟩ := copying_start hw' d' header (s.namesFor original) (s.nodes original)
  obtain ⟨t, hrun, hopening, hquiet', -, hcopies⟩ := Reader.exec_statements_of_text hwritable hcatalog' hgoes
    hcopying ((tokens_start d' header w').trans (tokens_of_text htext)) rfl rfl
  -- the root gets the copies, and everything is set up
  have hstart := stage_start hw' d' header
  obtain ⟨bound, hstage⟩ := hstart.statements hcatalog' hstart.reading.drafted.rootHeld hrun
  obtain ⟨leaked, hheld⟩ := hstage.held
  have hdrafted := hstage.reading.drafted
  have hinner := hstage.layered.inner
  obtain ⟨v, e, s', hassembles, he, hrun', hscene, hworld⟩ := Reader.exec_document hrun hdrafted
    hstage.reading.root hinner fun c hc => hheld.mem_iff.2 (List.mem_append_left _ hc)
  obtain ⟨hset, -⟩ := hassembles.setsUp hdrafted t.scene.time
  obtain ⟨r, hr, hroutes, hchildren, htop⟩ := hassembles.exists_root_setUp hdrafted hinner t.scene.time
  obtain ⟨hresult, hworld'⟩ := read_eq w' hheader'
  rw [hrun'] at hresult hworld'
  generalize hφ : (d'.context header w').copy (s.nodes original) = φ at hcopies hchildren htop
  have hinj : ∀ a ∈ s.nodes original, ∀ b ∈ s.nodes original, φ a = φ b → a = b :=
    hφ ▸ fun a ha b _ hab => DocumentContext.copy_inj ha hab
  have hbelow : ∀ id, φ id ≠ (d'.context header w').environment.scene := fun id heq => by
    have hlt := (d'.context header w').lt_copy (s.nodes original) id
    rw [hφ, heq] at hlt
    exact Nat.lt_irrefl _ hlt
  have hcopies' : s.HasCopies φ original v := by
    intro id hid
    obtain ⟨n, m, hn, hm, hcopied⟩ := hcopies id hid
    obtain ⟨time, hnodes⟩ := hassembles.nodes
    refine ⟨n, m, hn, ?_, hcopied⟩
    rw [World.node?_congr hnodes, World.node?_modify_of_ne _ (fun n => Node.store_id n _ _) (hbelow id), hm]
  have hrefs : (v.initializeNode (d'.context header w').environment.scene t.scene.time).referencesOf
      (d'.context header w').environment.scene = (s.children original).map φ := by
    rw [World.referencesOf, hr]
    exact hchildren
  obtain ⟨hall, hreferences⟩ := hsettled.hasCopies_setUp hcopies' hinj hshown hassembles.orderly.sound.distinct
    hset.trims hset.orderly hrefs
  refine ⟨t.scene, φ, hresult.trans (congrArg Except.ok hscene), ?_, ?_⟩
  · have hend : World.Quiet (v.initializeNode (d'.context header w').environment.scene t.scene.time)
        (d'.read w').world := by
      rw [hworld'.trans hworld]
      exact ⟨[e], rfl, by simpa using he⟩
    have hassembled : t.world.Quiet v := hassembles.journal
    exact ((hquiet.trans hquiet').trans ((hassembled.trans hset.trims.journal).trans hend)).not_skipped d'.file
  · rw [hworld'.trans hworld]
    refine Scene.CopiedAs.enter ?_ e
    refine hsettled.copiedAs hall hinj hreferences (r := r) (fun id _ => ?_) ?_ hroutes hchildren ?_ fun hx3d => ?_
    · rw [hstage.reading.root]
      exact hbelow id
    · rw [hstage.reading.root]
      exact hr
    · rw [hstage.reading.root]
      exact htop
    · rw [hopening hx3d]
      exact ⟨rfl, rfl⟩

theorem eq_ok_of_toOption {ε α : Type} {r : Except ε α} {a : α} (h : r.toOption = some a) : r = .ok a := by
  cases r with
  | ok b => rw [Option.some.inj h]
  | error e => cases h

/-- A document with a shared node, a rotation, fields of a node's own, metadata and a route. -/
def shared : Document where
  text := "#X3D V3.0 utf8\nPROFILE Core\nMETA \"title\" \"shared\"\n" ++
    "DEF A Transform \x7b rotation 0 0 1 1.5 children [ DEF B Box \x7b \x7d USE B ] \x7d\n" ++
    "DEF S Script \x7b SFBool on TRUE SFNode it USE A \x7d\nDEF T TimeSensor \x7b \x7d\n" ++
    "ROUTE T.isActive TO S.on\n"
  file := "shared.x3dv"
  check := .any
  catalog := Catalog.standard
  time := .unset
  now := .unset

/-- The scene of `shared` is copied by its text, which is read next to it. -/
theorem read_text_shared : ∃ s s' φ, (shared.read {}).result = .ok s ∧
    (s.nodes (shared.read {}).world).length = 4 ∧
      ({ shared with text := s.text (shared.read {}).world .x3d }.read (shared.read {}).world).result = .ok s' ∧
        Scene.CopiedAs .x3d φ s (shared.read {}).world s'
          ({ shared with text := s.text (shared.read {}).world .x3d }.read (shared.read {}).world).world := by
  obtain ⟨hheader, hok, hquiet, hnumbers, hscene⟩ : shared.header.toOption = some .x3d ∧
      (shared.read {}).result.toOption.isSome = true ∧
        (∀ e ∈ (shared.read {}).world.journal, e.isQuoting = false) ∧
          (∀ n ∈ (shared.read {}).world.nodes, ¬ n.HidesNodes ∧
            ∀ f ∈ n.allFields, f.IsFinite ∧ f.ReadsBack ∧ f.IsSteady) ∧
            ∀ s ∈ (shared.read {}).result.toOption,
              ((s.namesFor (shared.read {}).world).map (·.2)).Nodup ∧
                (s.nodes (shared.read {}).world).length = 4 := by
    decide +kernel
  obtain ⟨s, hs⟩ := Option.isSome_iff_exists.1 hok
  obtain ⟨hdistinct, hlength⟩ := hscene s hs
  have hheader := eq_ok_of_toOption hheader
  have hread := eq_ok_of_toOption hs
  have hempty := World.Ready.empty
  have hskip : ¬ World.Skipped shared.file {} (shared.read {}).world :=
    World.Quiet.not_skipped ⟨_, (List.append_nil _).symm, hquiet⟩ _
  obtain ⟨s', φ, hread', -, hcopied⟩ := @read_text shared
    { shared with text := s.text (shared.read {}).world .x3d } {} _ .x3d s hempty
    (ready hempty rfl hheader hread) rfl rfl hheader hread hskip hdistinct
    (fun id _ n hn => (hnumbers n (World.mem_nodes_of_node? hn)).1)
    (fun id _ n hn f hf => ((hnumbers n (World.mem_nodes_of_node? hn)).2 f hf).1)
    (fun id _ n hn f hf _ => ((hnumbers n (World.mem_nodes_of_node? hn)).2 f hf).2) rfl
    (fun _ h => by cases h) fun _ => rfl
  exact ⟨s, s', φ, hread, hlength, hread', hcopied⟩

end Document

end SceneGraph
