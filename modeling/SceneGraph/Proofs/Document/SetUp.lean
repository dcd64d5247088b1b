import Mathlib.Data.List.Perm.Subperm
import SceneGraph.Proofs.Document.Editing

/-!
# Setting up what was read

Setting up a node marks everything that is reached from it, and cuts lists of children down: those go
that close a cycle (`World.Trims`). What it marks is closed under references.

* `World.setsUp_initializeUpTo`: by induction on the depth of the recursion, with the nodes in progress
  as an exception.
-/

namespace SceneGraph

open Relation (ReflTransGen)

/-- A list of nodes that may have been cut down. -/
def Field.IsTrimmed (cut : Prop) (f g : Field) : Prop :=
  g = f ∨ cut ∧ f.kind = ⟨.node, .multi⟩ ∧ ∃ kept time, g = .nodes kept time ∧ kept.Sublist f.references

/-- A node some of whose lists may have been cut down. -/
structure Node.IsTrimmed (cut : Prop) (n m : Node) : Prop where
  id : m.id = n.id
  spec : m.spec = n.spec
  behavior : m.behavior = n.behavior
  environment : m.environment = n.environment
  name : m.name = n.name
  routes : m.routes = n.routes
  dynamic : m.dynamic = n.dynamic
  fields : List.Forall₂ (Field.IsTrimmed cut) n.fields m.fields

/-- A warning that starts with a quotation mark, as those about places in documents do. -/
def Entry.isQuoting : Entry → Bool
  | .log .warn text => text.toList.head? == some '"'
  | _ => false

namespace World

/-- A grouping node lists another node. -/
def Lists (w : World) (p c : NodeId) : Prop :=
  ∃ n, w.node? p = some n ∧ n.behavior = .grouping ∧ c ∈ n.nodesIn childrenField

/-- A node lists another one from which lists lead back. -/
def IsCyclic (w : World) (p : NodeId) : Prop := ∃ c, w.Lists p c ∧ ReflTransGen w.Lists c p

/-- From one world to another some of the nodes with `marks` are marked, and lists of nodes that lie on
a cycle of `w₀` are cut down. -/
structure Trims (w₀ : World) (marks : NodeId → Prop) (w w' : World) : Prop where
  nodes : ∀ m ∈ w'.nodes, ∃ n ∈ w.nodes, n.IsTrimmed (w₀.IsCyclic n.id) m ∧
    (m.initialized = n.initialized ∨ m.initialized = true ∧ marks m.id)
  names : ∀ e ∈ w'.registry.names, e ∈ w.registry.names
  lastId : w'.registry.lastId = w.registry.lastId
  journal : ∃ entries, w'.journal = entries ++ w.journal ∧ ∀ e ∈ entries, e.isQuoting = false

end World

variable {cut cut' : Prop} {f g h : Field} {n m k : Node} {w₀ w w' w'' : World}

/-! ### Fields and nodes -/

namespace Field.IsTrimmed

theorem refl (f : Field) : f.IsTrimmed cut f := .inl rfl

theorem trans (hcut : cut' → cut) (hfg : f.IsTrimmed cut g) (hgh : g.IsTrimmed cut' h) :
    f.IsTrimmed cut h := by
  rcases hfg with rfl | ⟨hc, hk, kept, time, rfl, hkept⟩
  · exact hgh.imp_right fun hgh => ⟨hcut hgh.1, hgh.2⟩
  · rcases hgh with rfl | ⟨-, -, kept', time', rfl, hkept'⟩
    · exact .inr ⟨hc, hk, kept, time, rfl, hkept⟩
    · rw [Field.references_nodes] at hkept'
      exact .inr ⟨hc, hk, kept', time', rfl, hkept'.trans hkept⟩

theorem references (h : f.IsTrimmed cut g) : g.references.Sublist f.references := by
  rcases h with rfl | ⟨-, -, kept, time, rfl, hkept⟩
  · exact List.Sublist.refl _
  · rwa [Field.references_nodes]

theorem kind (h : f.IsTrimmed cut g) : g.kind = f.kind := by
  rcases h with rfl | ⟨-, hk, kept, time, rfl, -⟩
  · rfl
  · exact hk.symm

/-- What is left of a draft is one. -/
theorem isDraft {root : NodeId} (h : f.IsTrimmed cut g) (hf : f.IsDraft root) : g.IsDraft root := by
  rcases h with rfl | ⟨-, hk, kept, time, rfl, hkept⟩
  · exact hf
  · refine ⟨fun _ _ => trivial, fun _ => ?_, fun r hr => ?_⟩
    · rw [Field.references_nodes]
      rfl
    · rw [Field.references_nodes] at hr
      exact hf.inner r (hkept.subset hr)

end Field.IsTrimmed

namespace Node.IsTrimmed

theorem of_eq (hid : m.id = n.id) (hspec : m.spec = n.spec) (hb : m.behavior = n.behavior)
    (he : m.environment = n.environment) (hname : m.name = n.name) (hr : m.routes = n.routes)
    (hd : m.dynamic = n.dynamic) (hf : m.fields = n.fields) : n.IsTrimmed cut m :=
  ⟨hid, hspec, hb, he, hname, hr, hd, hf ▸ List.forall₂_same.2 fun f _ => .refl f⟩

theorem refl (n : Node) : n.IsTrimmed cut n := of_eq rfl rfl rfl rfl rfl rfl rfl rfl

theorem trans (hcut : cut' → cut) (hnm : n.IsTrimmed cut m) (hmk : m.IsTrimmed cut' k) :
    n.IsTrimmed cut k where
  id := hmk.id.trans hnm.id
  spec := hmk.spec.trans hnm.spec
  behavior := hmk.behavior.trans hnm.behavior
  environment := hmk.environment.trans hnm.environment
  name := hmk.name.trans hnm.name
  routes := hmk.routes.trans hnm.routes
  dynamic := hmk.dynamic.trans hnm.dynamic
  fields := by
    have hn := hnm.fields
    have hm := hmk.fields
    generalize n.fields = fs, m.fields = gs, k.fields = hs at hn hm
    induction hn generalizing hs with
    | nil => cases hm; exact .nil
    | cons hfg _ ih =>
      cases hm with
      | cons hgh hrest => exact .cons (hfg.trans hcut hgh) (ih _ hrest)

theorem references (h : n.IsTrimmed cut m) : m.references.Sublist n.references := by
  have hf := h.fields
  rw [Node.references, Node.references, allFields, allFields, h.dynamic, List.flatMap_append,
    List.flatMap_append]
  refine List.Sublist.append ?_ (List.Sublist.refl _)
  generalize n.fields = fs, m.fields = gs at hf
  induction hf with
  | nil => exact List.Sublist.refl _
  | cons hfg _ ih => exact List.Sublist.append hfg.references ih

theorem nodesIn (h : n.IsTrimmed cut m) (name : String) : m.nodesIn name ⊆ n.nodesIn name := by
  unfold Node.nodesIn Node.field? Node.dynamicField?
  rw [h.spec, h.dynamic]
  cases n.spec.index? name with
  | none => exact List.Subset.refl _
  | some i =>
    dsimp only
    have hi : Option.Rel (Field.IsTrimmed cut) n.fields[i]? m.fields[i]? := by
      have hf := h.fields
      generalize n.fields = fs, m.fields = gs at hf
      induction hf generalizing i with
      | nil => exact .none
      | cons hfg _ ih =>
        cases i with
        | zero => exact .some hfg
        | succ i => exact ih i
    generalize n.fields[i]? = a, m.fields[i]? = b at hi
    cases hi with
    | none => exact List.Subset.refl _
    | some hfg =>
      dsimp only
      rw [hfg.kind]
      split
      · exact hfg.references.subset
      · exact List.Subset.refl _

end Node.IsTrimmed

/-! ### Steps -/

namespace World

variable {marks : NodeId → Prop}

namespace Trims

theorem refl (w₀ : World) (marks : NodeId → Prop) (w : World) : Trims w₀ marks w w where
  nodes m hm := ⟨m, hm, .refl m, .inl rfl⟩
  names _ he := he
  lastId := rfl
  journal := ⟨[], rfl, by simp⟩

theorem trans (h : Trims w₀ marks w w') (h' : Trims w₀ marks w' w'') : Trims w₀ marks w w'' where
  nodes k hk := by
    obtain ⟨m, hm, hmk, hki⟩ := h'.nodes k hk
    obtain ⟨n, hn, hnm, hmi⟩ := h.nodes m hm
    refine ⟨n, hn, hnm.trans (fun hc => hnm.id ▸ hc) hmk, ?_⟩
    rcases hki with hki | hki
    · rw [hki, hmk.id]
      exact hmi
    · exact .inr hki
  names e he := h.names e (h'.names e he)
  lastId := h'.lastId.trans h.lastId
  journal := by
    obtain ⟨es, hes, hq⟩ := h.journal
    obtain ⟨es', hes', hq'⟩ := h'.journal
    exact ⟨es' ++ es, by rw [hes', hes, List.append_assoc], List.forall_mem_append.2 ⟨hq', hq⟩⟩

theorem weaken {m : NodeId → Prop} (h : Trims w₀ marks w w') (hmarks : ∀ id, marks id → m id) :
    Trims w₀ m w w' :=
  { h with
    nodes := fun m hm => by
      obtain ⟨n, hn, hnm, hi⟩ := h.nodes m hm
      exact ⟨n, hn, hnm, hi.imp_right fun hi => ⟨hi.1, hmarks _ hi.2⟩⟩ }

theorem enter (w : World) {e : Entry} (he : e.isQuoting = false) : Trims w₀ marks w (w.enter e) :=
  { refl w₀ marks w with journal := ⟨[e], rfl, by simpa using he⟩ }

theorem modify (w : World) (id : NodeId) {f : Node → Node}
    (hf : ∀ n ∈ w.nodes, n.id = id → n.IsTrimmed (w₀.IsCyclic n.id) (f n) ∧
      ((f n).initialized = n.initialized ∨ (f n).initialized = true ∧ marks n.id)) :
    Trims w₀ marks w (w.modify id f) :=
  { refl w₀ marks w with
    nodes := fun m hm => by
      obtain ⟨n, hn, rfl⟩ := List.mem_map.1 hm
      refine ⟨n, hn, ?_⟩
      split
      · rename_i hid
        obtain ⟨htrim, hi⟩ := hf n hn hid
        exact ⟨htrim, htrim.id ▸ hi⟩
      · exact ⟨.refl n, .inl rfl⟩ }

theorem foldl {α : Type} {act : World → α → World} (hact : ∀ w a, Trims w₀ marks w (act w a)) (w : World)
    (l : List α) : Trims w₀ marks w (l.foldl act w) := by
  induction l generalizing w with
  | nil => exact refl w₀ marks w
  | cons a rest ih => exact (hact w a).trans (ih (act w a))

theorem reparent (w : World) (c : NodeId) (g : List (NodeId × Nat) → List (NodeId × Nat)) :
    Trims w₀ marks w (w.modify c fun n => { n with parents := g n.parents }) :=
  modify w c fun _ _ _ => ⟨.of_eq rfl rfl rfl rfl rfl rfl rfl rfl, .inl rfl⟩

theorem detach (w : World) (p c : NodeId) : Trims w₀ marks w (w.detach p c) := by
  obtain heq | ⟨a, b, heq⟩ := detach_cases w p c <;> rw [heq]
  · exact refl w₀ marks w
  · exact enter w rfl

theorem destroy (w : World) (n : Node) : Trims w₀ marks w (w.destroy n) := by
  have hleave : Trims w₀ marks w (w.takeLeave n) := by
    obtain heq | heq | heq := takeLeave_cases w n <;> rw [heq]
    · exact refl w₀ marks w
    · exact enter w rfl
    · exact foldl (fun w c => (reparent w c _).trans (detach _ _ _)) w _
  have hreport : Trims w₀ marks (w.takeLeave n) ((w.takeLeave n).reportParents n.id) := by
    obtain heq | ⟨text, heq⟩ := reportParents_cases (w.takeLeave n) n.id <;> rw [heq]
    · exact refl w₀ marks _
    · exact enter _ rfl
  refine (hleave.trans hreport).trans ⟨fun m hm => ?_, fun e he => Registry.mem_of_mem_unregister he, ?_, ?_⟩
  · exact ⟨m, (List.mem_filter.1 hm).1, .refl m, .inl rfl⟩
  · exact Registry.lastId_removeName _ n.id n.name
  · exact ⟨[.step (.destroyed n.id)], rfl, by simp [Entry.isQuoting]⟩

theorem release (ids : List NodeId) (w : World) : Trims w₀ marks w (release ids w) := by
  fun_induction World.release ids w with
  | case1 w => exact refl w₀ marks w
  | case2 w id rest _ ih => exact ih
  | case3 w id rest _ _ ih => exact ih
  | case4 w id rest _ n _ ih => exact (destroy w n).trans ih

theorem dropAll (w : World) (ids : List NodeId) : Trims w₀ marks w (w.dropAll ids) := by
  have h := refl w₀ marks w
  have hheld : Trims w₀ marks w { w with held := ids.foldl List.erase w.held } :=
    ⟨h.nodes, h.names, h.lastId, h.journal⟩
  exact hheld.trans (release ids _)

theorem holdAll (w : World) (ids : List NodeId) : Trims w₀ marks w (w.holdAll ids) :=
  have h := refl w₀ marks w
  ⟨h.nodes, h.names, h.lastId, h.journal⟩

/-- What a node refers to, it referred to before. -/
theorem references (h : Trims w₀ marks w w') (hw : w.liveIds.Nodup) (id : NodeId) :
    w'.referencesOf id ⊆ w.referencesOf id := by
  unfold referencesOf
  cases hm : w'.node? id with
  | none => exact List.nil_subset _
  | some m =>
    obtain ⟨n, hn, hnm, -⟩ := h.nodes m (mem_nodes_of_node? hm)
    have hid : n.id = id := hnm.id.symm.trans (id_of_node? hm)
    rw [← hid, node?_of_mem hw hn]
    exact hnm.references.subset

/-- What a node lists, it listed before. -/
theorem lists (h : Trims w₀ marks w w') (hw : w.liveIds.Nodup) {p c : NodeId} (hp : w'.Lists p c) :
    w.Lists p c := by
  obtain ⟨m, hm, hb, hc⟩ := hp
  obtain ⟨n, hn, hnm, -⟩ := h.nodes m (mem_nodes_of_node? hm)
  have hid : n.id = p := hnm.id.symm.trans (id_of_node? hm)
  exact ⟨n, hid ▸ node?_of_mem hw hn, hnm.behavior ▸ hb, hnm.nodesIn childrenField hc⟩

theorem isCyclic (h : Trims w₀ marks w w') (hw : w.liveIds.Nodup) {p : NodeId} (hp : w'.IsCyclic p) :
    w.IsCyclic p := by
  obtain ⟨c, hpc, hcp⟩ := hp
  exact ⟨c, h.lists hw hpc, ReflTransGen.mono (fun _ _ => h.lists hw) _ _ hcp⟩

end Trims

/-! ### Adopting children -/

/-- The list of children comes first among the fields of a grouping node. -/
theorem Sound.index?_children (hs : Sound Catalog.withScenes w) (hn : n ∈ w.nodes)
    (hb : n.behavior = .grouping) : n.spec.index? childrenField = some 0 := by
  obtain ⟨t, ht, hspec, hbehavior⟩ := hs.typed n hn
  obtain ⟨rest, hrest⟩ := Catalog.regular_withScenes.grouping t ht (hbehavior ▸ hb)
  rw [hspec, Specification.index?, NodeType.layout, hrest]
  rfl

theorem isTrimmed_store (hs : Sound Catalog.withScenes w) (hn : n ∈ w.nodes) (hb : n.behavior = .grouping)
    (hcut : cut) {kept : List NodeId} (hkept : kept.Sublist (n.nodesIn childrenField)) (time : Timestamp) :
    n.IsTrimmed cut (n.store childrenField (.nodes kept time)) := by
  obtain ⟨f, hf, hk⟩ := hs.exists_children Catalog.regular_withScenes hn hb
  have hindex := hs.index?_children hn hb
  rw [Node.nodesIn, hf] at hkept
  dsimp only at hkept
  rw [if_pos hk] at hkept
  rw [Node.field?, hindex] at hf
  rw [Node.store, hindex]
  refine ⟨rfl, rfl, rfl, rfl, rfl, rfl, rfl, ?_⟩
  obtain ⟨g, fs, hfields⟩ : ∃ g fs, n.fields = g :: fs := by
    cases hfields : n.fields with
    | nil => rw [hfields] at hf; cases hf
    | cons g fs => exact ⟨g, fs, rfl⟩
  rw [hfields] at hf
  obtain rfl : g = f := Option.some.inj hf
  change List.Forall₂ _ n.fields (n.fields.set 0 (.nodes kept time))
  rw [hfields]
  exact .cons (.inr ⟨hcut, hk, kept, time, rfl, hkept⟩) (List.forall₂_same.2 fun h _ => .refl h)

/-- The message about a rejected child starts with the name of a type. -/
theorem trims_logRejected (hs : ∀ n ∈ w.nodes, ∃ t ∈ Catalog.withScenes, n.spec = t.layout)
    (id child : NodeId) : Trims w₀ marks w (w.logRejected id child) := by
  have hnames : ∀ t ∈ Catalog.withScenes, ∃ c cs, t.name.toList = c :: cs ∧ c ≠ '"' := by
    have hheads : ∀ t ∈ Catalog.withScenes, (t.name.toList.head?.any (· != '"')) = true := by decide
    intro t ht
    have hhead := hheads t ht
    cases hname : t.name.toList with
    | nil => rw [hname] at hhead; cases hhead
    | cons c cs =>
      rw [hname] at hhead
      exact ⟨c, cs, rfl, by simpa using hhead⟩
  unfold logRejected
  split
  · rename_i n c hn _
    obtain ⟨t, ht, hspec⟩ := hs n (mem_nodes_of_node? hn)
    obtain ⟨a, as, hname, ha⟩ := hnames t ht
    have htype : (toString n.typeName).toList = a :: as := by
      rw [Node.typeName, hspec]
      exact hname
    refine .enter w ?_
    simp only [Entry.isQuoting, String.toList_append, htype, List.cons_append, List.head?_cons]
    simpa using ha
  · exact .refl w₀ marks w

theorem trims_accept (hs : Sound Catalog.withScenes w) (id : NodeId) (proposed : List NodeId) :
    Trims w₀ marks w (w.accept id proposed).2.2 := by
  have hfold : ∀ (l : List NodeId) (v : World), v.nodes = w.nodes →
      Trims w₀ marks v (l.foldl (logRejected · id ·) v) := by
    intro l
    induction l with
    | nil => exact fun v _ => .refl w₀ marks v
    | cons c rest ih =>
      intro v hv
      have hkept : (v.logRejected id c).nodes = w.nodes := by
        rw [← hv]
        obtain heq | ⟨text, heq⟩ := logRejected_cases v id c <;> rw [heq]
        rfl
      refine (trims_logRejected (fun n hn => ?_) id c).trans (ih _ hkept)
      obtain ⟨t, ht, hspec, -⟩ := hs.typed n (hv ▸ hn)
      exact ⟨t, ht, hspec⟩
  exact hfold _ w rfl

/-- A grouping node that adopts its children loses some of them only if it is listed by itself in the
end. -/
theorem trims_adoptChildren (hs : Sound Catalog.withScenes w) (hn : w.node? n.id = some n)
    (hb : n.behavior = .grouping)
    (hcut : (∃ c ∈ w.children n.id, c ∈ w.ancestors n.id) → w₀.IsCyclic n.id) :
    Trims w₀ marks w (w.adoptChildren n.id).2 := by
  have haccept : Trims w₀ marks w (w.accept n.id (w.children n.id)).2.2 :=
    trims_accept hs n.id (w.children n.id)
  obtain ⟨haccepted, hquiet⟩ := accept_spec w n.id (w.children n.id)
  unfold adoptChildren
  dsimp only
  refine Trims.trans ?_ (.foldl (fun w c => .reparent w c _) _ _)
  split
  · rename_i hlength
    refine haccept.trans ?_
    have hs' := hs.reparents hquiet
    have hn' : (w.accept n.id (w.children n.id)).2.2.node? n.id = some n := by
      rw [hquiet.node?, hn]
      rfl
    obtain ⟨f, hf, hk⟩ := hs'.exists_children Catalog.regular_withScenes (mem_nodes_of_node? hn') hb
    rw [storeChildren_eq hn' hf hk]
    refine Trims.trans (.modify _ n.id fun m hm hid => ⟨?_, .inl (Node.store_initialized ..)⟩) (.enter _ rfl)
    obtain rfl : m = n := Option.some.inj ((hid ▸ node?_of_mem hs'.distinct hm).symm.trans hn')
    have hlost : ∃ c ∈ w.children m.id, c ∈ w.ancestors m.id := by
      by_contra hnone
      push Not at hnone
      refine hlength (congrArg List.length ?_)
      rw [haccepted, List.filter_eq_self]
      intro c hc
      simpa using hnone c hc
    refine isTrimmed_store hs' hm hb (hcut hlost) ?_ _
    have hchildren : w.children m.id = m.nodesIn childrenField := by rw [World.children, hn]; rfl
    rw [haccepted, hchildren]
    exact List.filter_sublist
  · exact haccept

theorem Lists.of_claims {p c : NodeId} (h : w.Claims p c) : w.Lists p c := by
  unfold Claims claimed at h
  cases hn : w.node? p with
  | none => rw [hn] at h; cases h
  | some n =>
    rw [hn] at h
    change c ∈ n.claimed at h
    rw [Node.claimed] at h
    split at h
    · exact ⟨n, hn, ‹_ ∧ _›.1, h⟩
    · cases h

theorem isCyclic_of_mem_ancestors (h : Orderly w) {p c : NodeId} (hc : w.Lists p c)
    (hancestor : c ∈ w.ancestors p) : w.IsCyclic p :=
  ⟨c, hc, ReflTransGen.mono (fun _ _ => Lists.of_claims) _ _ (claims_of_mem_ancestors h.counts hancestor)⟩

theorem trims_mark (w₀ w : World) (id : NodeId) : Trims w₀ (· = id) w (w.mark id) :=
  .modify w id (f := fun n => { n with initialized := true }) fun _ _ hid =>
    ⟨.of_eq rfl rfl rfl rfl rfl rfl rfl rfl, .inr ⟨rfl, hid⟩⟩

/-- A node that has been marked adopts its children. -/
theorem trims_runAdopt (h : Orderly w) (hn : w.node? n.id = some n) (hcut : w.IsCyclic n.id → w₀.IsCyclic n.id) :
    Trims w₀ marks (w.mark n.id) ((w.mark n.id).runAdopt n.id) := by
  have hs : Sound Catalog.withScenes ((w.mark n.id).step (.adopting n.id)) := (h.sound.mark n.id).enter _
  have hn' : ((w.mark n.id).step (.adopting n.id)).node? n.id = some { n with initialized := true } :=
    (node?_mark w n.id).trans (by rw [hn]; rfl)
  unfold runAdopt
  rw [node?_mark, hn, Option.map_some]
  dsimp only
  have hemitted := emitted_adopt ((w.mark n.id).step (.adopting n.id)) { n with initialized := true }
  rw [settle, hemitted]
  have hstep : Trims w₀ marks (w.mark n.id) ((w.mark n.id).step (.adopting n.id)) := .enter _ rfl
  refine Trims.trans (hstep.trans ?_) (.release _ _)
  obtain ⟨hb, heq⟩ | ⟨-, heq | heq⟩ :=
    adopt_cases ((w.mark n.id).step (.adopting n.id)) { n with initialized := true } <;> rw [heq]
  · refine trims_adoptChildren (n := { n with initialized := true }) hs hn' hb fun ⟨c, hc, hancestor⟩ => hcut ?_
    have hancestors : ((w.mark n.id).step (.adopting n.id)).ancestors = w.ancestors :=
      ancestors_modify w n.id (f := fun n => { n with initialized := true }) fun _ => ⟨rfl, rfl⟩
    rw [hancestors] at hancestor
    rw [World.children, hn'] at hc
    exact isCyclic_of_mem_ancestors h ⟨n, hn, hb, hc⟩ hancestor
  · exact .refl w₀ _ _
  · exact .enter _ rfl

theorem trims_runSetUp (w : World) (id : NodeId) (time : Timestamp) :
    Trims w₀ marks w (w.runSetUp id time) :=
  runSetUp_induction id time
    (fun v hv => hv.trans (.modify v id fun _ _ _ => ⟨.of_eq rfl rfl rfl rfl rfl rfl rfl rfl, .inl rfl⟩))
    (fun v hv => hv.trans (.enter v rfl)) (fun v _ hv => hv.trans (.enter v rfl))
    (fun v _ hv => hv.trans (.modify v id fun _ _ _ => ⟨.of_eq rfl rfl rfl rfl rfl rfl rfl rfl, .inl rfl⟩))
    (.refl w₀ marks w)

/-! ### The recursion -/

/-- All nodes of an id are marked. -/
def IsMarked (w : World) (id : NodeId) : Prop := ∀ m ∈ w.nodes, m.id = id → m.initialized = true

/-- Nodes from `low` on that are marked and not in progress refer to marked nodes only. -/
def MarksClosed (low : Nat) (grey : List NodeId) (w : World) : Prop :=
  ∀ n ∈ w.nodes, low ≤ n.id.value → n.initialized = true → n.id ∉ grey → ∀ r ∈ n.references, w.IsMarked r

theorem Trims.isMarked (h : Trims w₀ marks w w') {id : NodeId} (hid : w.IsMarked id) : w'.IsMarked id := by
  intro m hm hmid
  obtain ⟨n, hn, hnm, hi⟩ := h.nodes m hm
  exact hi.elim (fun hi => hi.trans (hid n hn (hnm.id.symm.trans hmid))) fun hi => hi.1

/-- Nodes that are marked by the way are in progress. -/
theorem Trims.marksClosed (h : Trims w₀ marks w w') {low : Nat} {grey grey' : List NodeId}
    (hw : w.MarksClosed low grey) (hgrey : grey ⊆ grey') (hmarks : ∀ id, marks id → id ∈ grey') :
    w'.MarksClosed low grey' := by
  intro m hm hlow hi hid r hr
  obtain ⟨n, hn, hnm, hni⟩ := h.nodes m hm
  rw [hnm.id] at hlow
  have hni : n.initialized = true := by
    rcases hni with hni | ⟨-, hmark⟩
    · exact hni.symm.trans hi
    · exact absurd (hmarks _ hmark) hid
  exact h.isMarked (hw n hn hlow hni (fun hg => hid (hgrey (hnm.id ▸ hg))) r (hnm.references.subset hr))

/-- The ids of the nodes that are not marked. -/
def unmarkedIds (w : World) : List NodeId := (w.nodes.filter (!·.initialized)).map (·.id)

theorem length_unmarkedIds (w : World) : w.unmarkedIds.length = w.uninitializedCount := by
  rw [uninitializedCount, List.countP_eq_length_filter, unmarkedIds, List.length_map]

theorem nodup_unmarkedIds (h : w.liveIds.Nodup) : w.unmarkedIds.Nodup :=
  h.sublist (List.filter_sublist.map _)

theorem Trims.unmarkedIds_subset (h : Trims w₀ marks w w') : w'.unmarkedIds ⊆ w.unmarkedIds := by
  intro id hid
  obtain ⟨m, hm, rfl⟩ := List.mem_map.1 hid
  obtain ⟨hm, hmi⟩ := List.mem_filter.1 hm
  obtain ⟨n, hn, hnm, hi⟩ := h.nodes m hm
  rcases hi with hi | ⟨hi, -⟩
  · exact List.mem_map.2 ⟨n, List.mem_filter.2 ⟨hn, hi ▸ hmi⟩, hnm.id.symm⟩
  · rw [hi] at hmi
    cases hmi

theorem Trims.uninitializedCount_le (h : Trims w₀ marks w w') (hdistinct : w'.liveIds.Nodup) :
    w'.uninitializedCount ≤ w.uninitializedCount := by
  rw [← length_unmarkedIds, ← length_unmarkedIds]
  exact (List.subperm_of_subset (nodup_unmarkedIds hdistinct) h.unmarkedIds_subset).length_le

/-- Fewer nodes are not marked if one more is marked. -/
theorem Trims.uninitializedCount_lt (h : Trims w₀ marks w w') (hdistinct : w'.liveIds.Nodup)
    (hn : n ∈ w.nodes) (hi : n.initialized = false) (hmarked : w'.IsMarked n.id) :
    w'.uninitializedCount < w.uninitializedCount := by
  have hnodup : (n.id :: w'.unmarkedIds).Nodup := by
    refine List.nodup_cons.2 ⟨fun hmem => ?_, nodup_unmarkedIds hdistinct⟩
    obtain ⟨m, hm, hid⟩ := List.mem_map.1 hmem
    obtain ⟨hm, hmi⟩ := List.mem_filter.1 hm
    rw [hmarked m hm hid] at hmi
    cases hmi
  have hsubset : n.id :: w'.unmarkedIds ⊆ w.unmarkedIds :=
    List.cons_subset.2 ⟨List.mem_map.2 ⟨n, List.mem_filter.2 ⟨hn, by rw [hi]; rfl⟩, rfl⟩,
      h.unmarkedIds_subset⟩
  rw [← length_unmarkedIds, ← length_unmarkedIds]
  exact (List.subperm_of_subset hnodup hsubset).length_le

/-- What has been set up below a node: lists are cut down, and whatever is marked now and not in progress
refers to marked nodes only. -/
structure SetsUp (w₀ : World) (low : Nat) (grey : List NodeId) (w w' : World) : Prop where
  orderly : Orderly w'
  trims : Trims w₀ (fun _ => True) w w'
  closed : w'.MarksClosed low grey

variable {low depth : Nat} {grey : List NodeId} {time : Timestamp}

/-- Nodes are set up one after the other. -/
theorem setsUp_foldl
    (hact : ∀ w id, Orderly w → Trims w₀ (fun _ => True) w₀ w → w.uninitializedCount ≤ depth →
      w.MarksClosed low grey → SetsUp w₀ low grey w (initializeUpTo time depth w id) ∧
        (initializeUpTo time depth w id).IsMarked id)
    (h : Orderly w) (htrims : Trims w₀ (fun _ => True) w₀ w) (hcount : w.uninitializedCount ≤ depth)
    (hclosed : w.MarksClosed low grey) (ids : List NodeId) :
    SetsUp w₀ low grey w (ids.foldl (initializeUpTo time depth) w) ∧
      ∀ id ∈ ids, (ids.foldl (initializeUpTo time depth) w).IsMarked id := by
  induction ids generalizing w with
  | nil => exact ⟨⟨h, .refl _ _ _, hclosed⟩, by simp⟩
  | cons id rest ih =>
    obtain ⟨hfirst, hmarked⟩ := hact w id h htrims hcount hclosed
    obtain ⟨hrest, hmarks⟩ := ih hfirst.orderly (htrims.trans hfirst.trims)
      ((hfirst.trims.uninitializedCount_le hfirst.orderly.sound.distinct).trans hcount) hfirst.closed
    rw [List.foldl_cons]
    exact ⟨⟨hrest.orderly, hfirst.trims.trans hrest.trims, hrest.closed⟩,
      List.forall_mem_cons.2 ⟨hrest.trims.isMarked hmarked, hmarks⟩⟩

theorem initializeUpTo_of_unmarked (time : Timestamp) (depth : Nat) (hn : w.node? n.id = some n)
    (hi : n.initialized = false) :
    initializeUpTo time (depth + 1) w n.id =
      (((w.mark n.id).runAdopt n.id).forReferences n.id (initializeUpTo time depth)).runSetUp n.id time := by
  rw [initializeUpTo, hn]
  dsimp only
  rw [hi, if_neg Bool.false_ne_true]
  rfl

/-- Nothing is done about a node that is gone or marked. -/
theorem initializeUpTo_of_isMarked (time : Timestamp) (depth : Nat) {id : NodeId} (h : w.IsMarked id) :
    initializeUpTo time depth w id = w := by
  cases depth with
  | zero => rfl
  | succ depth =>
    rw [initializeUpTo]
    split
    · rfl
    · rename_i n hn
      rw [h n (mem_nodes_of_node? hn) (id_of_node? hn), if_pos rfl]

/-- **Setting up marks a closed set of nodes**, by induction on the depth of the recursion: nodes in
progress may still refer to nodes that are not marked. -/
theorem setsUp_initializeUpTo (hw₀ : w₀.liveIds.Nodup) (time : Timestamp) (depth : Nat) (h : Orderly w)
    (htrims : Trims w₀ (fun _ => True) w₀ w) (hcount : w.uninitializedCount ≤ depth)
    (hclosed : w.MarksClosed low grey) (id : NodeId) :
    SetsUp w₀ low grey w (initializeUpTo time depth w id) ∧
      (initializeUpTo time depth w id).IsMarked id := by
  induction depth generalizing w grey id with
  | zero =>
    refine ⟨⟨h, .refl _ _ _, hclosed⟩, fun m hm _ => ?_⟩
    have hnone := List.countP_eq_zero.1 (Nat.le_zero.1 hcount) m hm
    simpa using hnone
  | succ depth ih =>
    have hwhole : Orderly (initializeUpTo time (depth + 1) w id) :=
      h.leads (proceeds_initializeUpTo Catalog.regular_withScenes time (depth + 1) h.sound id).leads
    by_cases hdone : w.IsMarked id
    · rw [initializeUpTo_of_isMarked time _ hdone]
      exact ⟨⟨h, .refl _ _ _, hclosed⟩, hdone⟩
    obtain ⟨n, hmem, rfl, hi⟩ : ∃ n ∈ w.nodes, n.id = id ∧ n.initialized = false := by
      simpa [IsMarked] using hdone
    have hn := h.node?_of_mem hmem
    rw [initializeUpTo_of_unmarked time depth hn hi] at hwhole ⊢
    have hmarked : (w.mark n.id).IsMarked n.id := by
      intro m hm hid
      obtain ⟨k, -, rfl⟩ := List.mem_map.1 hm
      split
      · rfl
      · rename_i hk
        rw [if_neg hk] at hid
        exact absurd hid hk
    have hrun : ∀ marks, Trims w₀ marks (w.mark n.id) ((w.mark n.id).runAdopt n.id) :=
      fun _ => trims_runAdopt h hn (htrims.isCyclic hw₀)
    have hadopt := (trims_mark w₀ w n.id).trans (hrun _)
    have hmarked := (hrun fun _ => False).isMarked hmarked
    have horderly := h.leads (proceeds_runAdopt Catalog.regular_withScenes h.sound hn hi).1.leads
    have hclosed := hadopt.marksClosed hclosed (List.subset_cons_self n.id grey) fun id hid => by simp [hid]
    have hless := hadopt.uninitializedCount_lt horderly.sound.distinct hmem hi hmarked
    replace hadopt := hadopt.weaken (m := fun _ => True) fun _ _ => trivial
    generalize (w.mark n.id).runAdopt n.id = v at hwhole hadopt hmarked horderly hclosed hless ⊢
    -- the nodes that it refers to are held meanwhile, which no node notices
    have hhold : ∀ marks, Trims w₀ marks v (v.holdAll (v.referencesOf n.id)) := fun _ => .holdAll v _
    obtain ⟨hbelow, hmarks⟩ := setsUp_foldl (fun w id h ht hc hm => ih h ht hc hm id)
      (horderly.change (.held v _ (horderly.sound.referencesOf n.id)))
      ((htrims.trans hadopt).trans (hhold _)) (Nat.lt_succ_iff.1 (Nat.lt_of_lt_of_le hless hcount))
      ((hhold fun _ => False).marksClosed hclosed (List.Subset.refl _) fun _ => False.elim)
      (v.referencesOf n.id)
    have hafter : ∀ marks u, Trims w₀ marks u
        ((u.dropAll (v.referencesOf n.id)).runSetUp n.id time) :=
      fun _ u => (Trims.dropAll u _).trans (trims_runSetUp _ _ _)
    have hvtrims : Trims w₀ (fun _ => True) v
        ((v.forReferences n.id (initializeUpTo time depth)).runSetUp n.id time) :=
      ((hhold _).trans hbelow.trims).trans (hafter _ _)
    refine ⟨⟨hwhole, hadopt.trans hvtrims, ?_⟩, hvtrims.isMarked hmarked⟩
    have hgrey := (hafter (fun _ => False) _).marksClosed hbelow.closed (List.Subset.refl _)
      fun _ => False.elim
    intro m hm hlow hmi hmgrey r hr
    by_cases hmid : m.id = n.id
    · -- the node itself: everything that it still refers to has been set up
      have hsub := hvtrims.references horderly.sound.distinct n.id
      refine (hafter (fun _ => False) _).isMarked (hmarks r (hsub ?_))
      have hmn : ((v.forReferences n.id (initializeUpTo time depth)).runSetUp n.id time).node? n.id =
          some m := hmid ▸ hwhole.node?_of_mem hm
      rw [referencesOf, hmn]
      exact hr
    · exact hgrey m hm hlow hmi (fun hmem => (List.mem_cons.1 hmem).elim hmid hmgrey) r hr

/-- A node and everything that it refers to are set up, as long as nothing from `low` on is. -/
theorem setsUp_initializeNode (h : Orderly w)
    (hfresh : ∀ n ∈ w.nodes, low ≤ n.id.value → n.initialized = false) (id : NodeId) (time : Timestamp) :
    SetsUp w low [] w (w.initializeNode id time) ∧ (w.initializeNode id time).IsMarked id :=
  setsUp_initializeUpTo h.sound.distinct time _ h (.refl _ _ _) (Nat.le_refl _)
    (fun n hn hlow hi => by rw [hfresh n hn hlow] at hi; cases hi) id

end World

end SceneGraph
