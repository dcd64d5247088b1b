import SceneGraph.Proofs.Document.Drafting
import SceneGraph.Proofs.Grouping.Acyclic

/-!
# Edits of a scene

While a document is read, the world is changed by `World.Edit`s only: nodes of built-in types are made,
named and filled in, and let go of or emptied again. None of them is set up, and the root and whatever
was there before stay as they are (`World.Drafted`).

* `Drafted.edit`, `Drafted.edits`: edits keep a scene a draft.
* `World.ClosedBelow`, `World.RoutesFit`: what edits of later nodes leave alone.
-/

namespace SceneGraph

open Relation (ReflTransGen)

/-- A route may lead from a field of one node to a field of another: they are of one kind, the first can
be read and the second can be set. -/
structure Node.Feeds (a : Node) (output : String) (b : Node) (input : String) : Prop where
  kinds : ∃ k, a.kind? output = some k ∧ b.kind? input = some k
  readable : (a.access? output).any (·.get) = true
  settable : (b.access? input).any (·.set) = true

namespace Node

/-- A node has gained fields at most. -/
structure Grows (n m : Node) : Prop where
  id : m.id = n.id
  kinds : ∀ name k, n.kind? name = some k → m.kind? name = some k
  rights : ∀ name a, n.access? name = some a → m.access? name = some a

theorem Grows.of_eq {n m : Node} (hid : m.id = n.id) (hs : m.spec = n.spec) (hd : m.dynamic = n.dynamic) :
    Grows n m where
  id := hid
  kinds name k h := by rwa [kind?, dynamicField?, hs, hd]
  rights name a h := by rwa [access?, dynamicField?, hs, hd]

theorem Grows.refl (n : Node) : Grows n n := .of_eq rfl rfl rfl

theorem Feeds.grows {a a' b b' : Node} {output input : String} (h : a.Feeds output b input)
    (ha : Grows a a') (hb : Grows b b') : a'.Feeds output b' input := by
  obtain ⟨⟨k, hk, hk'⟩, hget, hset⟩ := h
  obtain ⟨r, hr, hget⟩ := (Option.any_eq_true _ _).1 hget
  obtain ⟨r', hr', hset⟩ := (Option.any_eq_true _ _).1 hset
  exact ⟨⟨k, ha.kinds _ _ hk, hb.kinds _ _ hk'⟩,
    (Option.any_eq_true _ _).2 ⟨r, ha.rights _ _ hr, hget⟩,
    (Option.any_eq_true _ _).2 ⟨r', hb.rights _ _ hr', hset⟩⟩

theorem Grows.store {n : Node} {name : String} {old value : Field} (hold : n.field? name = some old)
    (hkind : old.kind = value.kind) : Grows n (n.store name value) where
  id := store_id ..
  kinds other k h := by rwa [kind?_store hold hkind]
  rights other a h := by rwa [access?_store]

theorem Grows.extend (n : Node) (name : String) (value : Field) :
    Grows n { n with dynamic := n.dynamic ++ [(name, value)] } := by
  have hdynamic : ∀ {other f}, n.dynamicField? other = some f →
      ((n.dynamic ++ [(name, value)]).find? (·.1 == other)).map (·.2) = some f := by
    intro other f h
    obtain ⟨e, he, rfl⟩ := Option.map_eq_some_iff.1 h
    rw [List.find?_append, he]
    rfl
  refine ⟨rfl, fun other k h => ?_, fun other a h => ?_⟩
  · unfold kind? at h ⊢
    split at h
    · rename_i e he
      rw [he]
      exact h
    · rename_i he
      rw [he]
      obtain ⟨f, hf, rfl⟩ := Option.map_eq_some_iff.1 h
      dsimp only
      rw [dynamicField?, hdynamic hf]
      rfl
  · unfold access? at h ⊢
    split at h
    · rename_i e he
      rw [he]
      exact h
    · rename_i he
      rw [he]
      obtain ⟨f, hf, rfl⟩ := Option.map_eq_some_iff.1 h
      dsimp only
      rw [dynamicField?, hdynamic hf]
      rfl

end Node

namespace World

/-- A sound world whose lists of parents count its claims, which close no cycle. -/
structure Orderly (w : World) : Prop where
  sound : Sound Catalog.withScenes w
  counts : w.CountsAs w.claimed
  acyclic : Acyclic w

/-- What reading a document does to the world at once. Fields are filled in, declared and emptied only
at nodes from `low` on, and emptied only if `empties` is set. -/
inductive Edit (header : Header) (env : Environment) (low : Nat) (empties : Bool) : World → World → Prop
  | noted (w : World) (e : Entry) : Edit header env low empties w (w.enter e)
  | held (w : World) (id : NodeId) (h : w.isLive id = true) : Edit header env low empties w (w.hold id)
  | unheld (w : World) (ids : List NodeId) (hroot : env.scene ∈ ids.foldl List.erase w.held) :
      Edit header env low empties w { w with held := ids.foldl List.erase w.held }
  | learned (w : World) (t : NodeType) (ht : t ∈ Catalog.standard) :
      Edit header env low empties w { w with specifications := w.specifications ++ [t.layout] }
  | created (w : World) (t : NodeType) (ht : t ∈ Catalog.standard) :
      Edit header env low empties w (w.create t.layout t.behavior env).2
  | destroyed (w : World) (n : Node) (hn : w.node? n.id = some n) (hfree : w.isHeld n.id = false)
      (hid : env.scene.value < n.id.value) : Edit header env low empties w (w.destroy n)
  | named (w : World) (n : Node) (name : String) (hn : w.node? n.id = some n)
      (hname : name = "" ∨ IsIdentifier (some header) name) (hid : env.scene.value < n.id.value) :
      Edit header env low empties w (w.setName n.id name)
  | stored (w : World) (n : Node) (name : String) (old value : Field) (hn : w.node? n.id = some n)
      (hold : n.field? name = some old) (hkind : old.kind = value.kind)
      (hlive : ∀ id ∈ value.references, w.isLive id = true) (hvalue : value.IsDraft env.scene)
      (hlow : low ≤ n.id.value) : Edit header env low empties w (w.modify n.id (·.store name value))
  | extended (w : World) (n : Node) (name : String) (k : Kind) (hn : w.node? n.id = some n)
      (hdynamic : n.capabilities.dynamic = true) (hnew : n.hasField name = false)
      (hname : IsIdentifier (some header) name)
      (hkind : (Keyword.kind k).isEnabled (some header) = true) (hlow : low ≤ n.id.value) :
      Edit header env low empties w
        (w.modify n.id fun n => { n with dynamic := n.dynamic ++ [(name, Field.initial k)] })
  | connected (w : World) (a b : Node) (output input : String) (ha : w.node? a.id = some a)
      (hb : w.node? b.id = some b) (hida : env.scene.value < a.id.value)
      (hidb : env.scene.value < b.id.value) (hfeeds : a.Feeds output b input) :
      Edit header env low empties w
        (w.modify a.id fun n => (n.addConnection output ⟨b.id, input⟩).2)
  | emptied (w : World) (n : Node) (hn : w.node? n.id = some n) (hempties : empties = true)
      (hlow : low ≤ n.id.value) : Edit header env low empties w (w.modify n.id Node.forget)

/-- Edits, one after the other. -/
def Edits (header : Header) (env : Environment) (low : Nat) (empties : Bool) : World → World → Prop :=
  ReflTransGen (Edit header env low empties)

/-- A scene that is being read: its root is as it was made, every node made after the root is a draft
that is not set up, and nothing that was there before belongs to the scene. -/
structure Drafted (header : Header) (env : Environment) (w : World) : Prop where
  orderly : Orderly w
  idle : w.cascade = []
  root : w.node? env.scene = some (.fresh env.scene Scene.nodeType.layout .grouping env)
  rootHeld : env.scene ∈ w.held
  drafts : ∀ n ∈ w.nodes, env.scene.value < n.id.value → n.IsDraft header env
  fresh : ∀ n ∈ w.nodes, env.scene.value < n.id.value → n.initialized = false ∧ n.parents = []
  targets : ∀ n ∈ w.nodes, env.scene.value < n.id.value → ∀ c ∈ n.connections,
    env.scene.value < c.2.target.value ∧ c.2.target.value ≤ w.registry.lastId
  strangers : ∀ n ∈ w.nodes, n.id.value < env.scene.value → n.environment.scene.value < env.scene.value
  names : ∀ e ∈ w.registry.names, e.2.value ≤ w.registry.lastId ∧ e.2 ≠ env.scene

variable {header : Header} {env : Environment} {low : Nat} {empties : Bool} {w w' : World}

/-! ### Order -/

namespace Orderly

theorem change (h : Orderly w) (hc : Change Catalog.withScenes w w') : Orderly w' :=
  have hrecounts := h.counts.change Catalog.regular_withScenes h.sound hc
  ⟨h.sound.change Catalog.regular_withScenes hc, hrecounts.counts,
    h.acyclic.reclaims h.sound h.counts hrecounts.reclaims⟩

theorem leads (h : Orderly w) (hl : Leads Catalog.withScenes w w') : Orderly w' := by
  induction hl with
  | refl => exact h
  | tail _ hc ih => exact ih.change hc

/-- The journal does not matter. -/
theorem enter (h : Orderly w) (e : Entry) : Orderly (w.enter e) :=
  ⟨h.sound.enter e, h.counts, h.acyclic⟩

theorem node?_of_mem (h : Orderly w) {n : Node} (hn : n ∈ w.nodes) : w.node? n.id = some n :=
  World.node?_of_mem h.sound.distinct hn

theorem isLive_reference (h : Orderly w) {n : Node} (hn : n ∈ w.nodes) {r : NodeId}
    (hr : r ∈ n.references) : w.isLive r = true := h.sound.references r (references_subset_of_mem hn hr)

theorem issued (h : Orderly w) {n : Node} (hn : n ∈ w.nodes) : n.id.value ≤ w.registry.lastId :=
  h.sound.issued n.id (List.mem_map_of_mem hn)

end Orderly

/-! ### Drafts -/

namespace Drafted

/-- What is left of the nodes is as it was, or a draft. -/
theorem step (h : Drafted header env w) (horderly : Orderly w') (hidle : w'.cascade = [])
    (hroot : w'.node? env.scene = w.node? env.scene) (hheld : env.scene ∈ w'.held)
    (hlast : w.registry.lastId ≤ w'.registry.lastId)
    (hnodes : ∀ n ∈ w'.nodes, n ∈ w.nodes ∨ env.scene.value < n.id.value ∧ n.IsDraft header env ∧
      (n.initialized = false ∧ n.parents = []) ∧ ∀ c ∈ n.connections,
        env.scene.value < c.2.target.value ∧ c.2.target.value ≤ w'.registry.lastId)
    (hnames : ∀ e ∈ w'.registry.names, e.2.value ≤ w'.registry.lastId ∧ e.2 ≠ env.scene) :
    Drafted header env w' where
  orderly := horderly
  idle := hidle
  root := hroot.trans h.root
  rootHeld := hheld
  drafts n hn hid := (hnodes n hn).elim (h.drafts n · hid) fun hn => hn.2.1
  fresh n hn hid := (hnodes n hn).elim (h.fresh n · hid) fun hn => hn.2.2.1
  targets n hn hid := by
    rcases hnodes n hn with hn | hn
    · intro c hc
      have htarget := h.targets n hn hid c hc
      exact ⟨htarget.1, by omega⟩
    · exact hn.2.2.2
  strangers n hn hid := by
    rcases hnodes n hn with hn | hn
    · exact h.strangers n hn hid
    · omega
  names := hnames

/-- Names only leave the lists of nodes alone, so nothing else changes. -/
theorem keepNodes (h : Drafted header env w) (horderly : Orderly w') (hidle : w'.cascade = w.cascade)
    (hnodes : w'.nodes = w.nodes) (hheld : env.scene ∈ w'.held) (hregistry : w'.registry = w.registry) :
    Drafted header env w' :=
  h.step horderly (hidle.trans h.idle) (node?_congr hnodes) hheld (Nat.le_of_eq (by rw [hregistry]))
    (fun n hn => .inl (hnodes ▸ hn)) (hregistry ▸ h.names)

/-- A node after the root may be changed into another draft. -/
theorem mem_modify (h : Drafted header env w) {n : Node} {f : Node → Node} (hn : w.node? n.id = some n)
    (hid : env.scene.value < n.id.value) (hf : ∀ m, (f m).id = m.id) (hdraft : (f n).IsDraft header env)
    (hkept : (f n).initialized = n.initialized ∧ (f n).parents = n.parents)
    (htargets : ∀ c ∈ (f n).connections, c ∈ n.connections ∨
      env.scene.value < c.2.target.value ∧ c.2.target.value ≤ w.registry.lastId) {m : Node}
    (hm : m ∈ (w.modify n.id f).nodes) :
    m ∈ w.nodes ∨ env.scene.value < m.id.value ∧ m.IsDraft header env ∧
      (m.initialized = false ∧ m.parents = []) ∧ ∀ c ∈ m.connections,
        env.scene.value < c.2.target.value ∧ c.2.target.value ≤ w.registry.lastId := by
  have hmem := mem_nodes_of_node? hn
  obtain ⟨k, hk, rfl⟩ := List.mem_map.1 hm
  split
  · rename_i hkid
    obtain rfl : k = n := Option.some.inj ((h.orderly.node?_of_mem hk).symm.trans (hkid ▸ hn))
    refine .inr ⟨(hf k) ▸ hid, hdraft, hkept.1 ▸ hkept.2 ▸ h.fresh k hmem hid, fun c hc => ?_⟩
    exact (htargets c hc).elim (h.targets k hmem hid c) id
  · exact .inl hk

theorem root_modify {id : NodeId} {f : Node → Node}
    (hid : env.scene.value < id.value) (hf : ∀ m, (f m).id = m.id) :
    (w.modify id f).node? env.scene = w.node? env.scene := by
  refine node?_modify_of_ne w hf fun hroot => ?_
  rw [hroot] at hid
  omega

theorem modify (h : Drafted header env w) {n : Node} {f : Node → Node} (hn : w.node? n.id = some n)
    (hid : env.scene.value < n.id.value) (horderly : Orderly (w.modify n.id f)) (hf : ∀ m, (f m).id = m.id)
    (hdraft : (f n).IsDraft header env)
    (hkept : (f n).initialized = n.initialized ∧ (f n).parents = n.parents)
    (htargets : ∀ c ∈ (f n).connections, c ∈ n.connections ∨
      env.scene.value < c.2.target.value ∧ c.2.target.value ≤ w.registry.lastId) :
    Drafted header env (w.modify n.id f) :=
  h.step horderly h.idle (root_modify hid hf) h.rootHeld (Nat.le_refl _)
    (fun _ hm => h.mem_modify hn hid hf hdraft hkept htargets hm) h.names

/-- A node after the root may take another name. -/
theorem setName (h : Drafted header env w) {n : Node} (hn : w.node? n.id = some n) {name : String}
    (hid : env.scene.value < n.id.value) (hname : name = "" ∨ IsIdentifier (some header) name) :
    Drafted header env (w.setName n.id name) := by
  have horderly := h.orderly.change (.named w n.id name)
  have hmem := mem_nodes_of_node? hn
  obtain ⟨heq, -⟩ | ⟨k, hk, -, heq⟩ := setName_cases w n.id name <;> rw [heq] at horderly ⊢
  · exact h
  obtain rfl := Option.some.inj (hn.symm.trans hk)
  have hlast : (w.registry.rename n.id n.name name).lastId = w.registry.lastId :=
    Registry.lastId_rename ..
  refine h.step horderly h.idle (root_modify hid fun _ => rfl) h.rootHeld (Nat.le_of_eq hlast.symm)
    (fun m hm => ?_) fun e he => ?_
  · have hdrafts := h.mem_modify (f := fun n => { n with name }) hn hid (fun _ => rfl)
      ((h.drafts n hmem hid).rename hname) ⟨rfl, rfl⟩ (fun c hc => .inl hc) hm
    simpa only [hlast] using hdrafts
  · change e ∈ (w.registry.rename n.id n.name name).names at he
    change e.2.value ≤ (w.registry.rename n.id n.name name).lastId ∧ e.2 ≠ env.scene
    rw [hlast]
    rcases Registry.mem_or_eq_of_mem_rename he with he | rfl
    · exact h.names e he
    · refine ⟨h.orderly.issued hmem, fun hroot => ?_⟩
      have hroot : n.id = env.scene := hroot
      rw [hroot] at hid
      omega

theorem destroy_eq (h : Drafted header env w) {n : Node} (hn : w.node? n.id = some n)
    (hid : env.scene.value < n.id.value) : w.destroy n = w.remove n := by
  have hmem := mem_nodes_of_node? hn
  obtain ⟨hi, hparents⟩ := h.fresh n hmem hid
  obtain ⟨t, ht, -, hb⟩ := (h.drafts n hmem hid).typed
  have hleave : w.takeLeave n = w := by
    unfold takeLeave
    split
    · rw [leaveChildren, hi]
      rfl
    · rename_i hrecorder
      have hnone : ∀ t ∈ Catalog.standard, ∀ c, t.behavior ≠ .recorder c := by simp [Catalog.standard]
      exact absurd (hb.symm.trans hrecorder) (hnone t ht _)
    · rfl
  rw [destroy, hleave, reportParents, hn]
  dsimp only
  rw [hparents]
  rfl

/-- A node of a built-in type is made. -/
theorem create (h : Drafted header env w) {t : NodeType} (ht : t ∈ Catalog.standard) :
    Drafted header env (w.create t.layout t.behavior env).2 := by
  have horderly : Orderly (w.create t.layout t.behavior env).2 :=
    h.orderly.change (.created w t env (List.mem_cons_of_mem _ ht))
  have hroot : env.scene.value ≤ w.registry.lastId := h.orderly.issued (mem_nodes_of_node? h.root)
  have hlast : (w.create t.layout t.behavior env).2.registry.lastId = w.registry.lastId + 1 := rfl
  refine h.step horderly h.idle ?_ (List.mem_cons_of_mem _ h.rootHeld) (by omega) (fun n hn => ?_)
    fun e he => ?_
  · have hfound := h.root
    rw [node?] at hfound
    refine (List.find?_append ..).trans ?_
    rw [h.root]
    change (w.nodes.find? (·.id == env.scene)).or _ = _
    rw [hfound]
    rfl
  · refine (List.mem_append.1 hn).imp id fun hn => ?_
    rw [List.mem_singleton.1 hn]
    refine ⟨?_, .fresh header env ht _, ⟨rfl, rfl⟩, fun c hc => by cases hc⟩
    change env.scene.value < w.registry.lastId + 1
    omega
  · have hnamed := h.names e he
    exact ⟨by omega, hnamed.2⟩

/-- A node that nothing holds goes. -/
theorem destroy (h : Drafted header env w) {n : Node} (hn : w.node? n.id = some n)
    (hfree : w.isHeld n.id = false) (hid : env.scene.value < n.id.value) :
    Drafted header env (w.destroy n) := by
  have horderly := h.orderly.change (.destroyed w n hn hfree)
  rw [h.destroy_eq hn hid] at horderly ⊢
  have hlast : (w.remove n).registry.lastId = w.registry.lastId :=
    Registry.lastId_removeName w.registry n.id n.name
  refine h.step horderly h.idle ?_ h.rootHeld (Nat.le_of_eq hlast.symm)
    (fun m hm => .inl (List.mem_filter.1 hm).1) fun e he => ?_
  · rw [node?_remove, if_neg]
    intro hroot
    rw [hroot] at hid
    omega
  · rw [hlast]
    exact h.names e (Registry.mem_of_mem_unregister he)

/-- **Every edit keeps a scene a draft.** -/
theorem edit (h : Drafted header env w) (hlow : env.scene.value < low)
    (he : Edit header env low empties w w') : Drafted header env w' := by
  cases he with
  | noted e => exact h.keepNodes (h.orderly.enter e) rfl rfl h.rootHeld rfl
  | held id hlive =>
    refine h.keepNodes (h.orderly.change (.held w [id] fun r hr => ?_)) rfl rfl
      (List.mem_cons_of_mem _ h.rootHeld) rfl
    rwa [List.mem_singleton.1 hr]
  | unheld ids hroot => exact h.keepNodes (h.orderly.change (.unheld w ids)) rfl rfl hroot rfl
  | learned t ht =>
    exact h.keepNodes (h.orderly.change (.learned w t (List.mem_cons_of_mem _ ht))) rfl rfl h.rootHeld rfl
  | created t ht => exact h.create ht
  | destroyed n hn hfree hid => exact h.destroy hn hfree hid
  | named n name hn hname hid => exact h.setName hn hid hname
  | stored n name old value hn hold hkind hlive hvalue hlow' =>
    have hid : env.scene.value < n.id.value := by omega
    have hmem := mem_nodes_of_node? hn
    refine h.modify hn hid (h.orderly.change (.stored w n name old value hn hold hkind hlive ?_))
      (fun m => Node.store_id m _ _) ((h.drafts n hmem hid).store hold hkind hvalue)
      ⟨Node.store_initialized .., Node.store_parents ..⟩ fun c hc => ?_
    -- a draft is not set up yet
    · intro _ hset
      rw [(h.fresh n hmem hid).1] at hset
      cases hset
    · rw [Node.connections, Node.store_routes] at hc
      exact .inl hc
  | extended n name k hn hdynamic hnew hname hkind hlow' =>
    have hid : env.scene.value < n.id.value := by omega
    have hmem := mem_nodes_of_node? hn
    refine h.modify hn hid (h.orderly.change (.extended w n name (.initial k) hn hdynamic hnew ?_))
      (fun _ => rfl) ((h.drafts n hmem hid).extend hnew hname hkind) ⟨rfl, rfl⟩ fun c hc => .inl hc
    simp [Field.references_initial]
  | connected a b output input ha hb hida hidb hfeeds =>
    have hmem := mem_nodes_of_node? ha
    obtain ⟨routes, hroutes⟩ := a.addConnection_eq output ⟨b.id, input⟩
    refine h.modify ha hida (h.orderly.change (.connected w a.id output ⟨b.id, input⟩))
      (fun m => m.addConnection_id _ _) ((h.drafts a hmem hida).connect output _)
      (by rw [hroutes]; exact ⟨rfl, rfl⟩) fun c hc => ?_
    refine (Node.mem_connections_addConnection hc).symm.imp_right fun hc => ?_
    rw [hc]
    exact ⟨hidb, h.orderly.issued (mem_nodes_of_node? hb)⟩
  | emptied n hn hempties hlow' =>
    have hid : env.scene.value < n.id.value := by omega
    have hmem := mem_nodes_of_node? hn
    exact h.modify hn hid (h.orderly.change (.forgotten w n hn (h.fresh n hmem hid).1)) (fun _ => rfl)
      (h.drafts n hmem hid).forget ⟨rfl, rfl⟩ fun c hc => .inl hc

theorem edits (h : Drafted header env w) (hlow : env.scene.value < low)
    (he : Edits header env low empties w w') : Drafted header env w' := by
  induction he with
  | refl => exact h
  | tail _ he ih => exact ih.edit hlow he

end Drafted

/-! ### What edits of later nodes leave alone -/

/-- The nodes made after the root and before `bound` refer only to each other. -/
def ClosedBelow (env : Environment) (bound : Nat) (w : World) : Prop :=
  ∀ n ∈ w.nodes, env.scene.value < n.id.value → n.id.value < bound →
    ∀ r ∈ n.references, r.value < bound

/-- Routes between nodes made after the root and before `bound` lead where they may. -/
def RoutesFit (env : Environment) (bound : Nat) (w : World) : Prop :=
  ∀ a ∈ w.nodes, env.scene.value < a.id.value → a.id.value < bound → ∀ c ∈ a.connections,
    ∀ b ∈ w.nodes, b.id = c.2.target → b.id.value < bound → a.Feeds c.1 b c.2.field

/-- Every node is made before the next one. -/
theorem Drafted.closedBelow_last (h : Drafted header env w) :
    w.ClosedBelow env (w.registry.lastId + 1) := by
  intro n hn _ _ r hr
  obtain ⟨m, hm⟩ := isLive_iff.1 (h.orderly.isLive_reference hn hr)
  have hissued := h.orderly.issued (mem_nodes_of_node? hm)
  rw [id_of_node? hm] at hissued
  omega

theorem mem_modify_iff (h : Orderly w) {n m : Node} {f : Node → Node} (hn : w.node? n.id = some n)
    (hm : m ∈ (w.modify n.id f).nodes) : m = f n ∨ m ∈ w.nodes ∧ m.id ≠ n.id := by
  obtain ⟨k, hk, rfl⟩ := List.mem_map.1 hm
  split
  · rename_i hid
    obtain rfl : k = n := Option.some.inj ((h.node?_of_mem hk).symm.trans (hid ▸ hn))
    exact .inl rfl
  · rename_i hid
    exact .inr ⟨hk, hid⟩

/-- Where a node after an edit comes from: it is new, or it was there and has grown at most, and so have
its routes. -/
theorem Drafted.origin (h : Drafted header env w) (he : Edit header env low empties w w') {m : Node}
    (hm : m ∈ w'.nodes) (hkept : empties = false ∨ m.id.value < low) :
    (m.id.value = w.registry.lastId + 1 ∧ m.references = [] ∧ m.connections = []) ∨
      ∃ n ∈ w.nodes, n.Grows m ∧ (m.id.value < low → m.references = n.references) ∧
        ∀ c ∈ m.connections, c ∈ n.connections ∨
          ∃ b ∈ w.nodes, b.id = c.2.target ∧ n.Feeds c.1 b c.2.field := by
  -- a node that the edit leaves alone
  have hsame : ∀ {m}, m ∈ w.nodes → ∃ n ∈ w.nodes, n.Grows m ∧
      (m.id.value < low → m.references = n.references) ∧
        ∀ c ∈ m.connections, c ∈ n.connections ∨
          ∃ b ∈ w.nodes, b.id = c.2.target ∧ n.Feeds c.1 b c.2.field :=
    fun {m} hm => ⟨m, hm, .refl m, fun _ => rfl, fun _ hc => .inl hc⟩
  cases he with
  | created t ht =>
    rcases List.mem_append.1 hm with hm | hm
    · exact .inr (hsame hm)
    · rw [List.mem_singleton.1 hm]
      -- the first values of fields refer to nobody
      have hnone := Catalog.regular_withScenes.initial t (List.mem_cons_of_mem _ ht)
      refine .inl ⟨rfl, ?_, rfl⟩
      change (t.fields.map FieldSpec.initial ++ []).flatMap Field.references = []
      rw [List.append_nil, List.flatMap_map, List.flatMap_eq_nil_iff]
      exact hnone
  | destroyed n hn hfree hid =>
    rw [h.destroy_eq hn hid] at hm
    exact .inr (hsame (List.mem_filter.1 hm).1)
  | named n name hn hname hid =>
    obtain ⟨heq, -⟩ | ⟨k, -, -, heq⟩ := setName_cases w n.id name <;> rw [heq] at hm
    · exact .inr (hsame hm)
    · rcases mem_modify_iff h.orderly hn hm with rfl | ⟨hm, -⟩
      · exact .inr ⟨n, mem_nodes_of_node? hn, .of_eq rfl rfl rfl, fun _ => rfl, fun _ hc => .inl hc⟩
      · exact .inr (hsame hm)
  | stored n name old value hn hold hkind hlive hvalue hlow =>
    rcases mem_modify_iff h.orderly hn hm with rfl | ⟨hm, -⟩
    · refine .inr ⟨n, mem_nodes_of_node? hn, .store hold hkind, fun hid => ?_, fun c hc => .inl ?_⟩
      · rw [Node.store_id] at hid
        omega
      · rwa [Node.connections, Node.store_routes] at hc
    · exact .inr (hsame hm)
  | extended n name k hn hdynamic hnew hname hkind hlow =>
    rcases mem_modify_iff h.orderly hn hm with rfl | ⟨hm, -⟩
    · refine .inr ⟨n, mem_nodes_of_node? hn, .extend n _ _, fun hid => ?_, fun c hc => .inl hc⟩
      have hid : n.id.value < low := hid
      omega
    · exact .inr (hsame hm)
  | connected a b output input ha hb hida hidb hfeeds =>
    rcases mem_modify_iff h.orderly ha hm with rfl | ⟨hm, -⟩
    · obtain ⟨routes, hroutes⟩ := a.addConnection_eq output ⟨b.id, input⟩
      refine .inr ⟨a, mem_nodes_of_node? ha, ?_, fun _ => ?_, fun c hc => ?_⟩
      · rw [hroutes]
        exact .of_eq rfl rfl rfl
      · rw [hroutes]
        rfl
      · refine (Node.mem_connections_addConnection hc).symm.imp_right fun hc => ?_
        rw [hc]
        exact ⟨b, mem_nodes_of_node? hb, rfl, hfeeds⟩
    · exact .inr (hsame hm)
  | emptied n hn hempties hlow =>
    rcases mem_modify_iff h.orderly hn hm with rfl | ⟨hm, -⟩
    · have hid : (Node.forget n).id = n.id := rfl
      -- only a node from `low` on is emptied, and that is excluded
      rw [hempties, hid] at hkept
      rcases hkept with hkept | hkept
      · cases hkept
      · omega
    · exact .inr (hsame hm)
  | _ => exact .inr (hsame hm)

/-- Edits of later nodes keep the earlier ones among themselves. -/
theorem Drafted.closedBelow (h : Drafted header env w) (he : Edit header env low empties w w')
    {bound : Nat} (hbound : bound ≤ low) (hc : w.ClosedBelow env bound) : w'.ClosedBelow env bound := by
  intro m hm hroot hid r hr
  rcases h.origin he hm (.inr (by omega)) with ⟨-, hnone, -⟩ | ⟨n, hn, hgrows, hsame, -⟩
  · rw [hnone] at hr
    cases hr
  · rw [hsame (by omega)] at hr
    exact hc n hn (hgrows.id ▸ hroot) (hgrows.id ▸ hid) r hr

/-- Routes stay fit as long as no node between which they lead is emptied. -/
theorem Drafted.routesFit (h : Drafted header env w) (he : Edit header env low empties w w')
    {bound : Nat} (hbound : empties = false ∨ bound ≤ low) (hr : w.RoutesFit env bound) :
    w'.RoutesFit env bound := by
  have hkept : ∀ {m : Node}, m.id.value < bound → empties = false ∨ m.id.value < low :=
    fun hm => hbound.imp_right fun hbound => by omega
  intro a ha hroot hid c hc b hb hcb hidb
  rcases h.origin he ha (hkept hid) with ⟨-, -, hnone⟩ | ⟨n, hn, hgrows, -, hconnections⟩
  · rw [hnone] at hc
    cases hc
  have hrootn : env.scene.value < n.id.value := hgrows.id ▸ hroot
  -- the target is not new, because a route leads to a node that was there when it was added
  rcases h.origin he hb (hkept hidb) with ⟨hnew, -⟩ | ⟨k, hk, hgrows', -, -⟩
  · rcases hconnections c hc with hold | ⟨d, hd, hdc, -⟩
    · have htarget := (h.targets n hn hrootn c hold).2
      rw [← hcb] at htarget
      omega
    · have hissued := h.orderly.issued hd
      rw [hdc, ← hcb] at hissued
      omega
  · rcases hconnections c hc with hold | ⟨d, hd, hdc, hfeeds⟩
    · exact (hr n hn hrootn (hgrows.id ▸ hid) c hold k hk (hgrows'.id.symm.trans hcb)
        (hgrows'.id ▸ hidb)).grows hgrows hgrows'
    · obtain rfl : d = k := by
        have hdk : d.id = k.id := hdc.trans (hcb.symm.trans hgrows'.id)
        exact Option.some.inj ((h.orderly.node?_of_mem hd).symm.trans
          (hdk ▸ h.orderly.node?_of_mem hk))
      exact hfeeds.grows hgrows hgrows'

theorem lastId_edit (he : Edit header env low empties w w') : w.registry.lastId ≤ w'.registry.lastId := by
  cases he with
  | created t ht => exact Nat.le_succ _
  | destroyed n hn hfree hid =>
    have h : (w.destroy n).registry.lastId = w.registry.lastId := by
      refine (Registry.lastId_removeName _ n.id n.name).trans ?_
      rw [registry_reportParents, (reparents_takeLeave w n).registry]
    exact Nat.le_of_eq h.symm
  | named n name hn hname hid =>
    obtain ⟨heq, -⟩ | ⟨k, -, -, heq⟩ := setName_cases w n.id name <;> rewrite [heq]
    · exact Nat.le_refl _
    · exact Nat.le_of_eq (Registry.lastId_rename ..).symm
  | _ => exact Nat.le_refl _

theorem lastId_edits (he : Edits header env low empties w w') :
    w.registry.lastId ≤ w'.registry.lastId := by
  induction he with
  | refl => exact Nat.le_refl _
  | tail _ he ih => exact ih.trans (lastId_edit he)

/-- Edits only add to the journal. -/
theorem journal_edit (he : Edit header env low empties w w') : w.journal <:+ w'.journal := by
  cases he with
  | noted e => exact List.suffix_cons _ _
  | created t ht => exact List.suffix_cons _ _
  | destroyed n hn hfree hid =>
    obtain ⟨entries, hjournal, -⟩ := (reparents_takeLeave w n).journal
    have hreport : (w.takeLeave n).journal <:+ ((w.takeLeave n).reportParents n.id).journal := by
      obtain heq | ⟨text, heq⟩ := reportParents_cases (w.takeLeave n) n.id <;> rewrite [heq]
      · exact List.suffix_rfl
      · exact List.suffix_cons _ _
    refine ((hjournal ▸ List.suffix_append entries w.journal).trans hreport).trans ?_
    exact List.suffix_cons _ _
  | named n name hn hname hid =>
    obtain ⟨heq, -⟩ | ⟨k, -, -, heq⟩ := setName_cases w n.id name <;> rewrite [heq] <;> exact List.suffix_rfl
  | _ => exact List.suffix_rfl

theorem journal_edits (he : Edits header env low empties w w') : w.journal <:+ w'.journal := by
  induction he with
  | refl => exact List.suffix_rfl
  | tail _ he ih => exact ih.trans (journal_edit he)

/-! ### Longer edits -/

theorem Edit.weaken (he : Edit header env low false w w') (b : Bool) : Edit header env low b w w' := by
  cases he with
  | noted e => exact .noted _ e
  | held id h => exact .held _ id h
  | unheld ids h => exact .unheld _ ids h
  | learned t ht => exact .learned _ t ht
  | created t ht => exact .created _ t ht
  | destroyed n hn hfree hid => exact .destroyed _ n hn hfree hid
  | named n name hn hname hid => exact .named _ n name hn hname hid
  | stored n name old value hn hold hkind hlive hvalue hlow =>
    exact .stored _ n name old value hn hold hkind hlive hvalue hlow
  | extended n name k hn hdynamic hnew hname hkind hlow =>
    exact .extended _ n name k hn hdynamic hnew hname hkind hlow
  | connected a b output input ha hb hida hidb hfeeds =>
    exact .connected _ a b output input ha hb hida hidb hfeeds
  | emptied n hn hempties hlow => cases hempties

theorem Edits.weaken (he : Edits header env low empties w w') {b : Bool} (hb : empties = true → b = true) :
    Edits header env low b w w' := by
  cases empties with
  | true => exact hb rfl ▸ he
  | false => exact ReflTransGen.mono (fun _ _ he => he.weaken b) _ _ he

/-- Nodes are let go of. -/
theorem edits_release (h : Drafted header env w) (hlow : env.scene.value < low) (empties : Bool)
    (ids : List NodeId) (hids : ∀ id ∈ ids, env.scene.value < id.value) :
    Edits header env low empties w (release ids w) := by
  fun_induction release ids w with
  | case1 w => exact .refl
  | case2 w id rest _ ih => exact ih h fun r hr => hids r (List.mem_cons_of_mem _ hr)
  | case3 w id rest _ _ ih => exact ih h fun r hr => hids r (List.mem_cons_of_mem _ hr)
  | case4 w id rest hfree n hn ih =>
    rw [Bool.or_eq_true, not_or, Bool.not_eq_true] at hfree
    obtain rfl := id_of_node? hn
    have hid := hids n.id List.mem_cons_self
    have he : Edit header env low empties w (w.destroy n) := .destroyed w n hn hfree.1 hid
    refine .head he (ih (h.edit hlow he) fun r hr => ?_)
    rcases List.mem_append.1 hr with hr | hr
    · obtain ⟨f, hf, hr⟩ := List.mem_flatMap.1 hr
      exact ((h.drafts n (mem_nodes_of_node? hn) hid).fields f hf).inner r hr
    · exact hids r (List.mem_cons_of_mem _ hr)

theorem foldl_erase_perm {ids held rest : List NodeId} (h : held.Perm (ids ++ rest)) :
    (ids.foldl List.erase held).Perm rest := by
  induction ids generalizing held with
  | nil => exact h
  | cons id ids ih => exact ih ((h.erase id).trans (by rw [List.cons_append, List.erase_cons_head]))

/-- Handles are given back. -/
theorem edits_dropAll (h : Drafted header env w) (hlow : env.scene.value < low) (empties : Bool)
    {ids rest : List NodeId} (hids : ∀ id ∈ ids, env.scene.value < id.value)
    (hheld : w.held.Perm (ids ++ rest)) (hroot : env.scene ∈ rest) :
    Edits header env low empties w (w.dropAll ids) ∧ (w.dropAll ids).held.Perm rest := by
  have hperm := foldl_erase_perm hheld
  have he : Edit header env low empties w { w with held := ids.foldl List.erase w.held } :=
    .unheld w ids (hperm.mem_iff.2 hroot)
  refine ⟨.head he (edits_release (h.edit hlow he) hlow empties ids hids), ?_⟩
  rw [dropAll, (proceeds_release Catalog.withScenes ids _).held]
  exact hperm

end World

end SceneGraph
