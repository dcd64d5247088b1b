import SceneGraph.Proofs.Document.Settled
import SceneGraph.Proofs.Document.Walking

/-!
# Outlines of scenes

The outline of a scene that was read tells of its top-level nodes, and declares every node of the scene
in the order in which the scene lists it.

* `Scene.Underway`: the state of the walk that makes an outline.
* `Scene.IsSettled.tells_outline`: what the outline tells.
-/

namespace SceneGraph

open Relation (ReflTransGen)

namespace Scene

/-- The nodes that a walk has yet to declare. -/
def remaining (s : Scene) (w : World) (before stack : List NodeId) : List NodeId :=
  preorder w.referencesOf w.liveIds stack (before ++ [s.root])

/-- A walk through a scene has declared the nodes `before`, the last one first, and is about to visit those
of a stack. Every visit to come is a use, and so was one for each node that is declared. -/
structure Underway (s : Scene) (w : World) (before stack : List NodeId) : Prop where
  inner : ∀ x ∈ stack, s.root.value < x.value ∧ w.isLive x = true
  nodes : s.nodes w = before.reverse ++ s.remaining w before stack
  uses : ∀ x, (if x ∈ before then 1 else 0) + stack.count x +
    ((s.remaining w before stack).flatMap w.referencesOf).count x ≤ (s.uses w).count x

variable {header : Header} {env : Environment} {s : Scene} {w : World} {before stack : List NodeId}
  {id : NodeId}

namespace IsSettled

/-- What nodes of a scene refer to was made after its root. -/
theorem inner (h : s.IsSettled header env w) {n : Node} (hn : n ∈ w.nodes)
    (hid : env.scene.value < n.id.value) : ∀ r ∈ n.references, env.scene.value < r.value := by
  intro r hr
  obtain ⟨f, hf, hr⟩ := List.mem_flatMap.1 hr
  exact ((h.drafts n hn hid).fields f hf).inner r hr

theorem references_root (h : s.IsSettled header env w) : w.referencesOf s.root = s.children w := by
  obtain ⟨n, hn, -, hrefs⟩ := h.top
  rw [Scene.children, h.root, World.referencesOf, hn]
  exact hrefs

theorem isLive_child (h : s.IsSettled header env w) {c : NodeId} (hc : c ∈ s.children w) :
    env.scene.value < c.value ∧ w.isLive c = true := by
  rw [Scene.children, h.root] at hc
  refine ⟨h.layered.inner c hc, ?_⟩
  obtain ⟨n, hn, -, hrefs⟩ := h.top
  exact h.orderly.isLive_reference (World.mem_nodes_of_node? hn) (hrefs ▸ hc)

theorem isLive_of_mem_nodes (h : s.IsSettled header env w) (hid : id ∈ s.nodes w) :
    env.scene.value < id.value ∧ w.isLive id = true := by
  obtain ⟨c, hc, hway⟩ := exists_of_mem_preorder hid
  rw [h.references_root] at hc
  clear hid
  induction hway with
  | refl => exact h.isLive_child hc
  | tail hway hstep ih =>
    obtain ⟨n, hn, hr⟩ := World.Refers.exists_node hstep
    have hmem := World.mem_nodes_of_node? hn
    exact ⟨h.inner hmem (World.id_of_node? hn ▸ ih.1) _ hr, h.orderly.isLive_reference hmem hr⟩

theorem root_notMem (h : s.IsSettled header env w) : s.root ∉ s.nodes w := fun hroot => by
  have hinner := (h.isLive_of_mem_nodes hroot).1
  rw [h.root] at hinner
  exact Nat.lt_irrefl _ hinner

theorem nodes_subset (h : s.IsSettled header env w) : s.nodes w ⊆ w.liveIds :=
  fun _ hid => World.mem_liveIds.2 (h.isLive_of_mem_nodes hid).2

end IsSettled

theorem nodup_nodes (s : Scene) (w : World) : (s.nodes w).Nodup := (nodup_preorder _ _ _ _).1

namespace Underway

/-- The walk starts with the top-level nodes. -/
theorem start (h : s.IsSettled header env w) : s.Underway w [] (s.children w) where
  inner x hx := h.root ▸ h.isLive_child hx
  nodes := by
    rw [Scene.nodes, h.references_root]
    rfl
  uses x := by
    have huses : s.uses w = s.children w ++ (s.nodes w).flatMap w.referencesOf := by
      rw [Scene.uses, List.flatMap_cons, h.references_root]
    have hnodes : s.nodes w = s.remaining w [] (s.children w) := by
      rw [Scene.nodes, h.references_root]
      rfl
    rw [huses, List.count_append, hnodes]
    simp

/-- The visits to come are counted. -/
theorem tallied (h : s.Underway w before stack) :
    Tallied w.referencesOf w.liveIds [s.root] (s.nodes w) (s.uses w) before stack := ⟨h.nodes, h.uses⟩

/-- A node that is declared is passed by. It is used twice at least. -/
theorem pass (h : s.Underway w before (id :: stack)) (hid : id ∈ before) :
    s.Underway w before stack ∧ 1 < (s.uses w).count id := by
  obtain ⟨⟨hnodes, huses⟩, hcount⟩ := h.tallied.pass hid
  exact ⟨⟨fun x hx => h.inner x (List.mem_cons_of_mem _ hx), hnodes, huses⟩, hcount⟩

/-- A node that is not declared is entered. -/
theorem enter (hs : s.IsSettled header env w) (h : s.Underway w before (id :: stack)) (hid : id ∉ before) :
    s.Underway w (id :: before) (w.referencesOf id ++ stack) ∧ id ∈ s.nodes w := by
  obtain ⟨hinner, hlive⟩ := h.inner id List.mem_cons_self
  have hroot : id ∉ [s.root] := by
    rintro hroot
    rw [List.mem_singleton.1 hroot] at hinner
    exact Nat.lt_irrefl _ hinner
  obtain ⟨⟨hnodes, huses⟩, hmem⟩ := h.tallied.enter hid hroot (World.mem_liveIds.2 hlive)
  refine ⟨⟨fun x hx => ?_, hnodes, huses⟩, hmem⟩
  rcases List.mem_append.1 hx with hx | hx
  · obtain ⟨n, hn⟩ := World.isLive_iff.1 hlive
    rw [World.referencesOf, hn] at hx
    have hmem := World.mem_nodes_of_node? hn
    have hnid := World.id_of_node? hn
    rw [hs.root] at hinner ⊢
    exact ⟨hs.inner hmem (hnid ▸ hinner) x hx, hs.orderly.isLive_reference hmem hx⟩
  · exact h.inner x (List.mem_cons_of_mem _ hx)

end Underway

end Scene

/-! ### Names -/

theorem NodeNames.name?_filterMap (ids : List NodeId) (f : NodeId → Option String) (id : NodeId) :
    NodeNames.name? (ids.filterMap fun x => (f x).map (x, ·)) id = if id ∈ ids then f id else none := by
  induction ids with
  | nil => rfl
  | cons a rest ih =>
    unfold name? at ih ⊢
    rw [List.filterMap_cons]
    by_cases ha : a = id
    · subst ha
      cases hf : f a with
      | none =>
        simp only [Option.map_none, List.mem_cons_self, if_true]
        rw [ih, hf, ite_self]
      | some name => simp
    · have hmem : id ∈ a :: rest ↔ id ∈ rest := by simp [Ne.symm ha]
      rw [if_congr hmem rfl rfl, ← ih]
      cases f a with
      | none => rfl
      | some name =>
        have hbeq : (a == id) = false := by simpa using ha
        simp only [Option.map_some, List.find?_cons, hbeq]

namespace Scene

variable {s : Scene} {w : World} {id : NodeId}

/-- The ends of the routes that are written. -/
def ends (s : Scene) (w : World) : List NodeId :=
  (s.innerRoutes w).flatMap fun (source, _, route) => [source, route.target]

theorem name?_namesFor (s : Scene) (w : World) (id : NodeId) :
    (s.namesFor w).name? id =
      if id ∈ s.nodes w then (w.node? id).bind (nameFor (s.uses w) (s.ends w)) else none :=
  NodeNames.name?_filterMap (s.nodes w) (fun id => (w.node? id).bind (nameFor (s.uses w) (s.ends w))) id

/-- A node that is used more than once, or stands at an end of a route, has a name. -/
theorem exists_name (hid : id ∈ s.nodes w) {n : Node} (hn : w.node? id = some n)
    (h : 1 < (s.uses w).count id ∨ id ∈ s.ends w) : ∃ name, (s.namesFor w).name? id = some name := by
  rw [name?_namesFor, if_pos hid, hn, Option.bind_some, nameFor]
  split
  · exact ⟨_, rfl⟩
  · rw [if_pos]
    · exact ⟨_, rfl⟩
    · rw [World.id_of_node? hn]
      exact h.imp_right List.contains_iff_mem.2

end Scene

/-! ### What is written refers to everything -/

theorem Field.eq_of_sameValues_node {as bs : List (Option NodeId)}
    (h : sameValues .node as bs = true) : as = bs := by
  induction as generalizing bs with
  | nil =>
    cases bs with
    | nil => rfl
    | cons b bs => cases h
  | cons a as ih =>
    cases bs with
    | nil => cases h
    | cons b bs =>
      rw [sameValues, Bool.and_eq_true] at h
      have ha : (a == b) = true := h.1
      rw [beq_iff_eq.1 ha, ih h.2]

/-- Fields of the same value refer to the same nodes. -/
theorem Field.references_of_sameValue {f g : Field} (h : f.sameValue g = true) :
    f.references = g.references := by
  obtain ⟨⟨s, d⟩, a, time⟩ := f
  obtain ⟨⟨t, e⟩, b, time'⟩ := g
  cases d <;> cases e
  · change (if h : s = t then t.sameValue (h ▸ a) b else false) = true at h
    split at h
    · subst s
      by_cases ht : t = .node
      · subst ht
        have hab : (a == b) = true := h
        obtain rfl := beq_iff_eq.1 hab
        rfl
      · rw [references_eq_nil ht, references_eq_nil ht]
    · cases h
  · cases h
  · cases h
  · change (if h : s = t then sameValues t (h ▸ a) b else false) = true at h
    split at h
    · subst s
      by_cases ht : t = .node
      · subst ht
        obtain rfl := eq_of_sameValues_node h
        rfl
      · rw [references_eq_nil ht, references_eq_nil ht]
    · cases h

namespace Node

/-- A node has the fields of its type, in the order of its layout, and has fields of its own only if its
type allows them. -/
structure IsRegular (n : Node) : Prop where
  names : n.spec.names.Nodup
  initial : ∀ e ∈ n.spec.entries, e.initial.references = []
  kinds : n.fields.map (·.kind) = n.spec.entries.map (·.initial.kind)
  own : n.dynamic ≠ [] → n.capabilities.dynamic = true

theorem IsRegular.length {n : Node} (h : n.IsRegular) : n.fields.length = n.spec.entries.length := by
  have hlength := congrArg List.length h.kinds
  rwa [List.length_map, List.length_map] at hlength

/-- The fields of a node's type. -/
theorem map_field? {n : Node} (h : n.IsRegular) :
    n.spec.entries.map (fun e => n.field? e.name) = n.fields.map some := by
  refine List.ext_getElem (by rw [List.length_map, List.length_map, h.length]) fun i hi hi' => ?_
  rw [List.length_map] at hi hi'
  rw [List.getElem_map, List.getElem_map, field?, Specification.index?_getElem h.names hi]
  exact List.getElem?_eq_getElem hi'

/-- A field of the node's type holds what is not written: it can be set but not read. -/
def HidesNodes (n : Node) : Prop :=
  ∃ e ∈ n.spec.entries, e.access.set = true ∧ e.access.get = false ∧
    ∃ f, n.field? e.name = some f ∧ f.references ≠ []

instance (n : Node) : Decidable n.HidesNodes :=
  decidable_of_iff ((n.spec.entries.any fun e => (e.access.set && !e.access.get) &&
    (n.field? e.name).any (·.references ≠ [])) = true) <| by
      simp [HidesNodes, and_assoc, Option.any_eq_true]

theorem flatMap_filterMap_eq {α β γ : Type} (l : List α) (f : α → Option β) (g : β → List γ) :
    (l.filterMap f).flatMap g = l.flatMap fun a => (f a).elim [] g := by
  induction l with
  | nil => rfl
  | cons a rest ih =>
    rw [List.filterMap_cons, List.flatMap_cons, ← ih]
    cases f a <;> rfl

/-- What a node refers to, field by field. -/
theorem references_eq_fields {n : Node} (h : n.IsRegular) :
    n.references = n.spec.entries.flatMap (fun e => (n.field? e.name).elim [] Field.references) ++
      n.dynamic.flatMap (·.2.references) := by
  have hfields : n.fields.flatMap Field.references =
      (n.fields.map some).flatMap (·.elim [] Field.references) := by
    rw [List.flatMap_map]
    rfl
  rw [references, allFields, List.flatMap_append, hfields, ← map_field? h, List.flatMap_map,
    List.flatMap_map]

/-- The fields of a node's type that documents tell of: those that can be read or cannot be set. -/
def toldOfType (n : Node) : List Field :=
  n.spec.entries.filterMap fun e => if e.access.set && !e.access.get then none else n.field? e.name

/-- A field with its first value, which is not written, refers to nothing. -/
theorem flatMap_writtenFields {n : Node} (h : n.IsRegular) :
    (Outliner.writtenFields n).flatMap (·.2.references) = n.toldOfType.flatMap Field.references := by
  rw [Outliner.writtenFields, toldOfType, flatMap_filterMap_eq, flatMap_filterMap_eq]
  refine List.flatMap_congr fun e he => ?_
  cases hf : n.field? e.name with
  | none => split <;> rfl
  | some f =>
    split
    · rfl
    · dsimp only
      split
      · rename_i hsame
        exact ((Field.references_of_sameValue hsame).trans (h.initial e he)).symm
      · rfl

/-- The written fields refer to all nodes that the node refers to, in the same order. -/
theorem references_eq_written {n : Node} (h : n.IsRegular) (hhides : ¬ n.HidesNodes) :
    n.references = n.written.flatMap (·.value.references) := by
  have htold : n.spec.entries.flatMap (fun e => (n.field? e.name).elim [] Field.references) =
      n.toldOfType.flatMap Field.references := by
    rw [toldOfType, flatMap_filterMap_eq]
    refine List.flatMap_congr fun e he => ?_
    split
    · rename_i hset
      rw [Bool.and_eq_true, Bool.not_eq_true'] at hset
      cases hf : n.field? e.name with
      | none => rfl
      | some f =>
        by_contra hne
        exact hhides ⟨e, he, hset.1, hset.2, f, hf, hne⟩
    · rfl
  rw [references_eq_fields h, htold, ← flatMap_writtenFields h, written, List.flatMap_append, List.flatMap_map,
    List.flatMap_map]

end Node

/-- Nodes are regular if they are made of types whose fields have distinct names. -/
theorem World.Sound.isRegular {types : Catalog} {w : World} (hr : types.Regular)
    (hnames : ∀ t ∈ types, t.layout.names.Nodup) (hs : World.Sound types w) {n : Node} (hn : n ∈ w.nodes) :
    n.IsRegular := by
  obtain ⟨t, ht, hspec, -⟩ := hs.typed n hn
  exact ⟨hspec ▸ hnames t ht, hspec ▸ hr.initial t ht, hs.kinds n hn, hs.own n hn⟩

theorem World.Orderly.isRegular {w : World} (h : w.Orderly) {n : Node} (hn : n ∈ w.nodes) : n.IsRegular :=
  h.sound.isRegular Catalog.regular_withScenes (by decide) hn

/-! ### The walk -/

namespace Scene

variable {header : Header} {env : Environment} {s : Scene} {w : World}

/-- What an outline under some header is made of. -/
def outlineContext (s : Scene) (w : World) (header : Header) : OutlineContext :=
  { header, world := w, names := s.namesFor w }

/-- A header that lets a kind be declared does not leave fields of the kind out. -/
theorem allows_of_isEnabled {own : String × Field}
    (h : (Keyword.kind own.2.kind).isEnabled (some header) = true) : header.allows own = true := by
  have h : (!own.2.kind.type.isExtended || header.isExtended) = true := h
  rwa [Header.allows, Bool.not_and, Bool.not_not]

/-- A walk through a settled scene tells of all fields and leaves nothing out. -/
theorem IsSettled.guides (h : s.IsSettled header env w)
    (hhides : ∀ id ∈ s.nodes w, ∀ n, w.node? id = some n → ¬ n.HidesNodes) :
    Outliner.Guides (s.outlineContext w header) w (fun t stack => t.omitted = [] ∧ s.Underway w t.declared stack)
      (s.nodes w).length where
  bounded t stack hI := hI.2.tallied.length_le
  pass t stack id := by
    rintro ⟨homitted, hu⟩ hid
    obtain ⟨-, hlive⟩ := hu.inner id List.mem_cons_self
    obtain ⟨n, hn⟩ := World.isLive_iff.1 hlive
    obtain ⟨hu', huses⟩ := hu.pass hid
    exact ⟨⟨homitted, hu'⟩, exists_name (hu.tallied.mem hid) hn (.inl huses)⟩
  enter t stack id := by
    rintro ⟨homitted, hu⟩ hid
    obtain ⟨hinner, hlive⟩ := hu.inner id List.mem_cons_self
    obtain ⟨n, hn⟩ := World.isLive_iff.1 hlive
    obtain ⟨hu', hmem⟩ := hu.enter h hid
    have hnode := World.mem_nodes_of_node? hn
    have hallows : ∀ f ∈ n.dynamic, header.allows f = true := by
      rw [h.root, ← World.id_of_node? hn] at hinner
      exact fun f hf => allows_of_isEnabled ((h.drafts n hnode hinner).own f hf).kind
    have hunder : n.under header = n := by
      rw [Node.under, List.filter_eq_self.2 hallows]
    have hrefs : w.referencesOf id = n.written.flatMap (·.value.references) := by
      rw [World.referencesOf, hn]
      exact Node.references_eq_written (h.orderly.isRegular hnode) (hhides id hmem n hn)
    refine ⟨n, hn, hn.trans (congrArg some hunder.symm), fun f hf hfalse => ?_, homitted, ?_⟩
    · exact absurd (hallows f hf) (ne_true_of_eq_false hfalse)
    · rw [outlineContext, hunder, ← hrefs]
      exact hu'

/-- **The outline of a scene tells of its top-level nodes**, declares every node of the scene in the
order in which the scene lists it, and leaves nothing out. -/
theorem IsSettled.tells_outline (h : s.IsSettled header env w)
    (hhides : ∀ id ∈ s.nodes w, ∀ n, w.node? id = some n → ¬ n.HidesNodes) :
    NodeOutline.TellAll w (s.namesFor w) [] (s.outline w header).1 (s.children w) (s.nodes w).reverse ∧
      (s.outline w header).2.omitted = [] := by
  have hlength : (s.nodes w).length + 1 - (w.nodes.length + 1) ≤ ([] : List NodeId).length := by
    have hle := (List.subperm_of_subset (s.nodup_nodes w) h.nodes_subset).length_le
    rw [World.liveIds, List.length_map] at hle
    rw [List.length_nil]
    omega
  have hstart := Underway.start h
  rw [← List.append_nil (s.children w)] at hstart
  obtain ⟨os, ⟨after, omitted⟩, hrun, htells, homitted, hend⟩ :=
    ((h.guides hhides).walks (w.nodes.length + 1)).nodes (t := {}) hlength ⟨rfl, hstart⟩
  have houtline : s.outline w header = (os, ⟨after, omitted⟩) := hrun
  have hafter : s.nodes w = after.reverse := by
    rw [hend.nodes, remaining, preorder, List.append_nil]
  rw [houtline, hafter, List.reverse_reverse]
  exact ⟨htells, homitted⟩

end Scene

end SceneGraph
