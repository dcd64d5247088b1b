import SceneGraph.Proofs.Document.Copies

/-!
# Reading an outline

Reading the outline of a scene makes a copy of every node that the outline tells of, in the order of the
scene, so that the id of a copy is known beforehand (`DocumentContext.copy`).

* `Reader.Copying`: what is known while an outline is read.
* `NodeOutline.Tells.exec_nodeValue`: reading what is told of a node, by induction on how it is told.
-/

namespace SceneGraph

open Reader (exec Open)
open World (Drafted Edits)

theorem subset_of_suffix_reverse {α : Type} {as bs : List α} (h : as <:+ bs.reverse) : as ⊆ bs :=
  fun _ ha => List.mem_reverse.1 (h.subset ha)

theorem length_lt_of_append {α : Type} {as bs : List α} {k : Nat} (h : (as ++ bs).length < k) : bs.length < k :=
  (List.suffix_append as bs).length_le.trans_lt h

theorem length_lt_cons_append {α : Type} (a : α) (as bs : List α) : bs.length < (a :: as ++ bs).length := by
  simp only [List.length_append, List.length_cons]
  omega

/-- The id of the copy of a node if nodes are copied in some order right after the root is made. -/
def DocumentContext.copy (ctx : DocumentContext) (order : List NodeId) (id : NodeId) : NodeId :=
  ⟨ctx.environment.scene.value + 1 + order.idxOf id⟩

variable {ctx : DocumentContext} {header : Header} {env : Environment} {w v : World} {names : NodeNames}
  {order before between after opened : List NodeId} {id : NodeId} {s s' s'' : ReaderState}

theorem DocumentContext.copy_next (horder : order.Nodup) (hsuffix : id :: before <:+ order.reverse) :
    (ctx.copy order id).value = ctx.environment.scene.value + (before.length + 1) := by
  obtain ⟨rest, hrest⟩ := hsuffix
  have horder' : order = before.reverse ++ (id :: rest.reverse) := by
    rw [← List.reverse_reverse order, ← hrest]
    simp
  rw [horder', List.nodup_append] at horder
  have hnew : id ∉ before.reverse := fun hmem => horder.2.2 id hmem id List.mem_cons_self rfl
  rw [copy, horder', List.idxOf_append_of_notMem hnew, List.idxOf_cons_self, List.length_reverse]
  exact Nat.add_right_comm ..

theorem DocumentContext.copy_inj {a b : NodeId} (ha : a ∈ order) (h : ctx.copy order a = ctx.copy order b) :
    a = b := by
  refine (List.idxOf_inj ha).1 ?_
  have hvalue : ctx.environment.scene.value + 1 + order.idxOf a =
      ctx.environment.scene.value + 1 + order.idxOf b := congrArg NodeId.value h
  omega

theorem DocumentContext.lt_copy (ctx : DocumentContext) (order : List NodeId) (id : NodeId) :
    ctx.environment.scene.value < (ctx.copy order id).value :=
  Nat.lt_of_lt_of_le (Nat.lt_succ_self _) (Nat.le_add_right ..)

/-- What is asked of the nodes that are copied and of their names. -/
structure World.IsSource (header : Header) (env : Environment) (w : World) (names : NodeNames)
    (order : List NodeId) : Prop where
  distinct : (names.map (·.2)).Nodup
  words : ∀ e ∈ names, IsIdentifier (some header) e.2
  ordered : order.Nodup
  regular : ∀ id ∈ order, ∀ n, w.node? id = some n → n.IsRegular
  drafts : ∀ id ∈ order, ∀ n, w.node? id = some n → n.IsDraft header env
  reads : ∀ id ∈ order, ∀ n, w.node? id = some n → ∀ f ∈ n.allFields, f.ReadsBack ∧ f.IsSteady

/-- A name means one node. -/
theorem World.IsSource.eq_of_name (h : w.IsSource header env names order) {a b : NodeId} {name : String}
    (ha : names.name? a = some name) (hb : names.name? b = some name) : a = b :=
  congrArg Prod.fst (List.inj_on_of_nodup_map h.distinct (NodeNames.mem_of_name? ha)
    (NodeNames.mem_of_name? hb) rfl)

/-! ### Single changes of the world -/

namespace World

/-- Nothing that happened from one world to another was worth a warning about a place in a document. -/
def Quiet (w w' : World) : Prop :=
  ∃ entries, w'.journal = entries ++ w.journal ∧ ∀ e ∈ entries, e.isQuoting = false

theorem Quiet.refl (w : World) : Quiet w w := ⟨[], rfl, by simp⟩

theorem Quiet.trans {u v w : World} (h : Quiet u v) (h' : Quiet v w) : Quiet u w := by
  obtain ⟨entries, hentries, hquiet⟩ := h
  obtain ⟨more, hmore, hquiet'⟩ := h'
  refine ⟨more ++ entries, by rw [hmore, hentries, List.append_assoc], fun e he => ?_⟩
  exact (List.mem_append.1 he).elim (hquiet' e) (hquiet e)

variable {n : Node} {name : String} {value old : Field}

/-- A node of a built-in type can be made. -/
theorem Drafted.exists_create (h : Drafted header env v) {t : NodeType} (ht : t ∈ Catalog.standard) :
    ∃ specifications,
      v.createOfType Catalog.standard t.name env = .ok (some ⟨v.registry.lastId + 1⟩,
        ({ v with specifications }.create t.layout t.behavior env).2) ∧
      Drafted header env ({ v with specifications }.create t.layout t.behavior env).2 := by
  have htype : Catalog.standard.type? t.name = some t := by
    obtain ⟨u, hu⟩ := Option.isSome_iff_exists.1 (List.find?_isSome (p := (·.name == t.name)).2
      ⟨t, ht, beq_self_eq_true t.name⟩)
    have hnames : (Catalog.standard.map (·.name)).Nodup := by decide
    have hname : u.name = t.name := by simpa using List.find?_some hu
    rw [Catalog.type?, hu, List.inj_on_of_nodup_map hnames (List.mem_of_find?_eq_some hu) ht hname]
  obtain ⟨spec, specifications, hspec⟩ : ∃ spec specifications,
      v.specification t.name t.fields = .ok (spec, { v with specifications }) := by
    unfold specification
    split
    · exact ⟨_, v.specifications, rfl⟩
    · rw [Specification.ofFields, (Document.wellFormed_standard t ht).distinct]
      exact ⟨_, _, rfl⟩
  have hlow := Nat.lt_succ_self env.scene.value
  obtain ⟨rfl, he, -, -⟩ : spec = t.layout ∧
      Edits header env (env.scene.value + 1) false v { v with specifications } ∧ _ ∧ _ :=
    edits_specification h ht hspec false
  refine ⟨specifications, ?_, h.edits hlow (he.tail (.created _ t ht))⟩
  unfold createOfType
  rw [htype]
  dsimp only
  rw [hspec]
  rfl

/-- A node without a name takes one. -/
theorem setName_new (hn : v.node? id = some n) (hnone : n.name = "") (hname : name ≠ "") :
    v.setName id name = { v.modify id ({ · with name }) with
      registry := { v.registry with names := v.registry.names ++ [(name, id)] } } := by
  have hother : n.name ≠ name := fun h => hname (h.symm.trans hnone)
  unfold setName
  rw [hn]
  dsimp only
  rw [if_neg hother, hnone, Registry.rename, Registry.removeName, if_pos rfl, Registry.addName, if_neg hname]

/-- A node that was just made takes its name, if it has one. -/
theorem Drafted.exists_named (h : Drafted header env v) (hn : v.node? id = some n) (hnone : n.name = "")
    (hid : env.scene.value < id.value) {name : Option String}
    (hname : ∀ x ∈ name, IsIdentifier (some header) x) :
    ∃ u, name.elim v (v.setName id) = u ∧ Drafted header env u ∧
      u.registry.lastId = v.registry.lastId ∧
        u.registry.names = v.registry.names ++ name.elim [] (fun x => [(x, id)]) ∧
          u.node? id = some { n with name := name.getD "" } ∧
            (∀ other, other ≠ id → u.node? other = v.node? other) ∧ u.journal = v.journal := by
  cases name with
  | none =>
    refine ⟨v, rfl, h, rfl, (List.append_nil _).symm, hn.trans ?_, fun _ _ => rfl, rfl⟩
    rw [Option.getD_none, ← hnone]
  | some name =>
    have hword := hname name rfl
    have hne : name ≠ "" := by
      rintro rfl
      cases hword.start
    have hmid := id_of_node? hn
    subst hmid
    have he : World.Edit header env (env.scene.value + 1) false v (v.setName n.id name) :=
      .named v n name hn (.inr hword) hid
    refine ⟨v.setName n.id name, rfl, h.edit (Nat.lt_succ_self _) he, ?_⟩
    rw [setName_new hn hnone hne]
    refine ⟨rfl, rfl, ?_, fun other hother => node?_modify_of_ne v (fun _ => rfl) hother, rfl⟩
    refine (node?_modify_self v n.id (f := ({ · with name })) fun _ => rfl).trans ?_
    rw [hn]
    rfl

/-- A field that refers to nothing takes over a value, whose nodes are held by the field from now on. -/
theorem initField_spec (hn : v.node? id = some n) (hold : n.field? name = some old)
    (hkind : old.kind = value.kind) (hrefs : old.references = []) :
    ∃ u, v.initField id name value = (.ok (), u) ∧
      (u.dropAll value.references).nodes = (v.modify id (·.store name value)).nodes ∧
        (u.dropAll value.references).registry = v.registry ∧
          (u.dropAll value.references).journal = .step (.stored id name value) :: v.journal := by
  have hnothing : ∀ u : World, release [] u = u := fun u => by rw [release]
  have hinit : v.initField id name value =
      (.ok (), (v.modify id (·.store name value)).step (.stored id name value)) := by
    rw [initField_eq hn hold hkind, hrefs, hnothing]
  refine ⟨_, hinit, ?_⟩
  -- nothing goes, because the field refers to it
  have hnode : (v.modify id (·.store name value)).node? id = some (n.store name value) :=
    (node?_modify_self v id fun m => Node.store_id m _ _).trans (by rw [hn]; rfl)
  have hfield : (n.store name value).field? name = some value := by
    rw [Node.field?_store, if_pos rfl, hold]
    rfl
  have hsubset : value.references ⊆ (v.modify id (·.store name value)).references :=
    List.Subset.trans (Node.references_subset_of_field? hfield)
      fun r hr => references_subset_of_mem (mem_nodes_of_node? hnode) hr
  generalize hu : (v.modify id (·.store name value)).step (.stored id name value) = u
  have hdrop : u.dropAll value.references = { u with held := value.references.foldl List.erase u.held } :=
    release_of_references (w := { u with held := value.references.foldl List.erase u.held }) (hu ▸ hsubset)
  rw [hdrop, ← hu]
  exact ⟨rfl, rfl, rfl⟩

/-- A node gets a field of its own. -/
theorem addField_eq (hn : v.node? id = some n) (hdynamic : n.capabilities.dynamic = true)
    (hnew : n.hasField name = false) :
    v.addField id name value = (.ok (), v.modify id (·.fillIn ⟨true, name, value⟩)) := by
  unfold addField
  rw [hn]
  dsimp only
  rw [if_neg (by rw [hdynamic]; exact Bool.false_ne_true), if_neg (by rw [hnew]; exact Bool.false_ne_true)]
  rfl

end World

namespace Reader

/-- The nodes `before` have been copied, or are being copied. Their copies are the nodes made since the root,
and go by their names. -/
structure Copying (ctx : DocumentContext) (header : Header) (names : NodeNames) (order before : List NodeId)
    (s : ReaderState) : Prop where
  reading : Open ctx header s
  last : s.world.registry.lastId = ctx.environment.scene.value + before.length
  live : ∀ id ∈ before, s.world.isLive (ctx.copy order id) = true
  listed : ∀ id ∈ before, ∀ name, names.name? id = some name →
    (name, ctx.copy order id) ∈ s.world.registry.names
  names : ∀ e ∈ s.world.registry.names, e.2.value < ctx.environment.scene.value ∨
    ∃ id ∈ before, e.2 = ctx.copy order id ∧ names.name? id = some e.1

/-- The copy of a node has been made and filled in. -/
def IsMade (ctx : DocumentContext) (w : World) (names : NodeNames) (order : List NodeId) (v : World)
    (id : NodeId) : Prop :=
  ∃ n gs, w.node? id = some n ∧ List.Forall₂ (WrittenField.CopiedAs (ctx.copy order)) n.written gs ∧
    v.node? (ctx.copy order id) =
      some ((n.blank ctx.environment (ctx.copy order id) ((names.name? id).getD "")).fill gs)

/-- From one state to another the nodes of `after` that are not among `before` have been copied. Of the
other copies only those of `opened` may have changed. -/
structure Advances (ctx : DocumentContext) (header : Header) (w : World) (names : NodeNames)
    (order before after opened : List NodeId) (s s' : ReaderState) : Prop where
  copying : Copying ctx header names order after s'
  scene : s'.scene = s.scene
  quiet : s.world.Quiet s'.world
  kept : ∀ id ∈ before, id ∉ opened →
    s'.world.node? (ctx.copy order id) = s.world.node? (ctx.copy order id)
  made : ∀ id ∈ after, id ∉ before → IsMade ctx w names order s'.world id

/-- A reader that is handed nothing goes on with what is being read. -/
theorem Reads.open {α : Type} {p : Reader α} {taken : α → List NodeId} {Q : α → Prop} {a : α}
    (h : Reads ctx header (ctx.environment.scene.value + 1) [] p taken Q) (ho : Open ctx header s)
    (hrun : exec p s = (.ok a, s')) : Open ctx header s' := by
  have hroot := ho.drafted.orderly.issued (World.mem_nodes_of_node? ho.drafted.root)
  have hends := h s s.world.held ho (Nat.succ_le_succ hroot) (List.Perm.refl _) ho.drafted.rootHeld
  rw [hrun] at hends
  exact hends.1.open (Nat.lt_succ_self _) ho

theorem Open.behind {ts : List Token} (ho : Open ctx header s) (h : Behind ts s s') : Open ctx header s' :=
  ⟨h.world ▸ ho.drafted, h.scene ▸ ho.root, h.scene ▸ ho.tidy,
    fun t ht => ho.valid t (h.tokens ▸ List.mem_append_right ts ht)⟩

namespace Copying

/-- Only the names and the lives of nodes matter. -/
theorem congr (h : Copying ctx header names order before s) (ho : Open ctx header s')
    (hregistry : s'.world.registry = s.world.registry) (hlive : s'.world.liveIds = s.world.liveIds) :
    Copying ctx header names order before s' where
  reading := ho
  last := hregistry ▸ h.last
  live id hid := by
    rw [World.isLive_congr hlive]
    exact h.live id hid
  listed := hregistry ▸ h.listed
  names := hregistry ▸ h.names

theorem behind {ts : List Token} (h : Copying ctx header names order before s) (hs : Behind ts s s') :
    Copying ctx header names order before s' :=
  h.congr (h.reading.behind hs) (by rw [hs.world]) (by rw [hs.world])

/-- A name means the copy of its node. -/
theorem find? (hsource : w.IsSource header env names order) (h : Copying ctx header names order before s)
    (hid : id ∈ before) {name : String} (hname : names.name? id = some name) :
    s.world.node? (ctx.copy order id) = s.world.findInScene? name ctx.environment.scene ∧
      s.scene.find? s.world name = some (ctx.copy order id) := by
  obtain ⟨m, hm⟩ := World.isLive_iff.1 (h.live id hid)
  have hinner := ctx.lt_copy order id
  rw [← World.id_of_node? hm] at hinner
  have henvironment := (h.reading.drafted.drafts m (World.mem_nodes_of_node? hm) hinner).environment
  have hnamed : m ∈ s.world.named name := by
    refine List.mem_filterMap.2 ⟨ctx.copy order id, List.mem_map.2 ⟨(name, ctx.copy order id), ?_, rfl⟩, hm⟩
    exact List.mem_filter.2 ⟨h.listed id hid name hname, beq_self_eq_true name⟩
  obtain ⟨k, hk⟩ : ∃ k, s.world.findInScene? name ctx.environment.scene = some k := by
    refine Option.isSome_iff_exists.1 (List.find?_isSome.2 ⟨m, hnamed, ?_⟩)
    rw [henvironment]
    exact beq_self_eq_true _
  -- whatever else goes by the name is no node of the scene
  have hkid : k.id = ctx.copy order id := by
    obtain ⟨kid, hlisted, hknode⟩ := List.mem_filterMap.1 (List.mem_of_find?_eq_some hk)
    obtain ⟨e, he, rfl⟩ := List.mem_map.1 hlisted
    obtain ⟨he, hename⟩ := List.mem_filter.1 he
    have hename : e.1 = name := beq_iff_eq.1 hename
    have hinner := (h.reading.drafted.of_findInScene? hk).2
    rcases h.names e he with hold | ⟨x, -, hcopy, hx⟩
    · rw [World.id_of_node? hknode] at hinner
      omega
    · rw [hename] at hx
      rw [World.id_of_node? hknode, hcopy, hsource.eq_of_name hx hname]
  have hknode := (h.reading.drafted.of_findInScene? hk).1
  rw [hkid] at hknode
  refine ⟨hknode.trans hk.symm, ?_⟩
  rw [Scene.find?, h.reading.root, hk]
  exact congrArg some hkid

end Copying

namespace Advances

theorem refl (h : Copying ctx header names order before s) (opened : List NodeId) :
    Advances ctx header w names order before before opened s s where
  copying := h
  scene := rfl
  quiet := .refl s.world
  kept _ _ _ := rfl
  made _ hid hnew := absurd hid hnew

theorem trans (hopened : opened ⊆ before) (hsubset : before ⊆ between)
    (h : Advances ctx header w names order before between opened s s')
    (h' : Advances ctx header w names order between after opened s' s'') :
    Advances ctx header w names order before after opened s s'' where
  copying := h'.copying
  scene := h'.scene.trans h.scene
  quiet := h.quiet.trans h'.quiet
  kept id hid hclosed := (h'.kept id (hsubset hid) hclosed).trans (h.kept id hid hclosed)
  made id hid hnew := by
    by_cases hbetween : id ∈ between
    · obtain ⟨n, gs, hn, hgs, hmade⟩ := h.made id hbetween hnew
      exact ⟨n, gs, hn, hgs, (h'.kept id hbetween fun hopen => hnew (hopened hopen)).trans hmade⟩
    · exact h'.made id hid hbetween

/-- Copies that stay as they are may count as changed. -/
theorem widen (h : Advances ctx header w names order before after [] s s') (opened : List NodeId) :
    Advances ctx header w names order before after opened s s' :=
  { h with kept := fun id hid _ => h.kept id hid (by simp) }

/-- A copy is made, and stays open until it is filled in. -/
theorem make (hnew : id ∉ before) (hscene : s'.scene = s.scene) (hquiet : s.world.Quiet s'.world)
    (hkept : ∀ x ∈ before, s'.world.node? (ctx.copy order x) = s.world.node? (ctx.copy order x))
    (h : Advances ctx header w names order (id :: before) after [id] s' s'')
    (hmade : IsMade ctx w names order s''.world id) :
    Advances ctx header w names order before after [] s s'' where
  copying := h.copying
  scene := h.scene.trans hscene
  quiet := hquiet.trans h.quiet
  kept x hx _ := by
    have hclosed : x ∉ [id] := fun hopen => hnew (List.mem_singleton.1 hopen ▸ hx)
    exact (h.kept x (List.mem_cons_of_mem _ hx) hclosed).trans (hkept x hx)
  made x hx hxnew := by
    by_cases hxid : x = id
    · exact hxid ▸ hmade
    · exact h.made x hx fun hmem => (List.mem_cons.1 hmem).elim hxid hxnew

/-- Tokens are taken before. -/
theorem of_behind {ts : List Token} (hs : Behind ts s s')
    (h : Advances ctx header w names order before after opened s' s'') :
    Advances ctx header w names order before after opened s s'' where
  copying := h.copying
  scene := h.scene.trans hs.scene
  quiet := hs.world ▸ h.quiet
  kept := hs.world ▸ h.kept
  made := h.made

theorem behind {ts : List Token} (h : Copying ctx header names order before s) (hs : Behind ts s s') :
    Advances ctx header w names order before before opened s s' :=
  .of_behind hs (.refl (h.behind hs) opened)

end Advances

/-! ### Fields -/

/-- A copy that is open is changed. -/
theorem Advances.modify {s₁ : ReaderState} {f : Node → Node}
    (h : Advances ctx header w names order before after [id] s s₁) (hid : id ∈ before) (hsubset : before ⊆ after)
    (hafter : after ⊆ order) (hf : ∀ m, (f m).id = m.id) (ho : Open ctx header s')
    (hnodes : s'.world.nodes = (s₁.world.modify (ctx.copy order id) f).nodes)
    (hregistry : s'.world.registry = s₁.world.registry) (hscene : s'.scene = s₁.scene)
    (hquiet : s₁.world.Quiet s'.world) : Advances ctx header w names order before after [id] s s' := by
  have hother : ∀ x ∈ after, x ≠ id →
      s'.world.node? (ctx.copy order x) = s₁.world.node? (ctx.copy order x) := by
    intro x hx hne
    rw [World.node?_congr hnodes]
    exact World.node?_modify_of_ne _ hf fun hcopy => hne (ctx.copy_inj (hafter hx) hcopy)
  have hlive : s'.world.liveIds = s₁.world.liveIds :=
    (congrArg (List.map Node.id) hnodes).trans (World.liveIds_modify s₁.world _ hf)
  refine ⟨h.copying.congr ho hregistry hlive, hscene.trans h.scene, h.quiet.trans hquiet,
    fun x hx hclosed => ?_, fun x hx hnew => ?_⟩
  · refine (hother x (hsubset hx) fun hxid => hclosed ?_).trans (h.kept x hx hclosed)
    exact List.mem_singleton.2 hxid
  · obtain ⟨n, gs, hn, hgs, hmade⟩ := h.made x hx hnew
    refine ⟨n, gs, hn, hgs, (hother x hx ?_).trans hmade⟩
    rintro rfl
    exact hnew hid

theorem exec_use (hsource : w.IsSource header env names order)
    (hc : Copying ctx header names order before s) (hid : id ∈ before) {name : String}
    (hname : names.name? id = some name) {rest : List Token} (hs : s.tokens = [.identifier name] ++ rest) :
    ∃ s', exec (use ctx) s = (.ok (some (ctx.copy order id)), s') ∧ s'.tokens = rest ∧
      Advances ctx header w names order before before [] s s' := by
  obtain ⟨s₁, hrun₁, hbehind⟩ := Takes.identifier ctx "a node name after USE" name s rest hs
  have hc₁ := hc.behind hbehind
  have hfind := (hc₁.find? hsource hid hname).2
  have hrun : exec (use ctx) s =
      (.ok (some (ctx.copy order id)), { s₁ with world := s₁.world.hold (ctx.copy order id) }) := by
    rw [use, exec_bind_ok hrun₁, exec_bind_ok (exec_get s₁), hfind]
    rfl
  have ho := Reads.open (Reads.use (Nat.lt_succ_self _)) hc.reading hrun
  exact ⟨_, hrun, hbehind.rest hs, .of_behind hbehind ⟨hc₁.congr ho rfl rfl, rfl, ⟨[], rfl, by simp⟩,
    fun _ _ _ => rfl, fun _ hmem hnew => absurd hmem hnew⟩⟩

section Entries

variable {declaration : Reader (Option NodeId)} {m : Node} {name : String} {k : Kind} {old g : Field}
  {f : WrittenField} {fs : List WrittenField}

/-- A field takes over what is read for it. -/
theorem exec_fieldValue (hdeclaration : Reads.OfNode ctx header (ctx.environment.scene.value + 1) declaration)
    (hc : Copying ctx header names order before s) (hid : id ∈ before) (hsubset : before ⊆ after)
    (hafter : after ⊆ order) (hm : s.world.node? (ctx.copy order id) = some m)
    (hold : m.field? name = some old) (hrefs : old.references = []) {s₁ : ReaderState}
    (hcontent : exec (content ctx (nodeValue ctx declaration) old.kind) s = (.ok g, s₁))
    (hkind : g.kind = old.kind) (hadvances : Advances ctx header w names order before after [] s s₁) :
    ∃ s', exec (fieldValue ctx declaration (ctx.copy order id) name) s = (.ok (), s') ∧
      s'.tokens = s₁.tokens ∧ s'.world.node? (ctx.copy order id) = some (m.store name g) ∧
        Advances ctx header w names order before after [id] s s' := by
  have hregular := hc.reading.drafted.orderly.isRegular (World.mem_nodes_of_node? hm)
  have hknown : ((s.world.node? (ctx.copy order id)).bind (·.kind? name)) = some old.kind := by
    rw [hm, Option.bind_some, hregular.kind?_eq, hold]
    rfl
  have hm₁ : s₁.world.node? (ctx.copy order id) = some m := (hadvances.kept id hid (by simp)).trans hm
  obtain ⟨u, hinit, hnodes, hregistry, hjournal⟩ := World.initField_spec hm₁ hold hkind.symm hrefs
  have hrun : exec (fieldValue ctx declaration (ctx.copy order id) name) s =
      (.ok (), { s₁ with world := u.dropAll g.references }) := by
    rw [fieldValue, exec_bind_ok (exec_position ctx s), exec_bind_ok (exec_get s), hknown]
    dsimp only
    rw [exec_bind_ok hcontent, exec_bind_ok (exec_get s₁), hinit]
    dsimp only
    rw [exec_bind_ok (exec_set s₁ _)]
    rfl
  have ho := Reads.open (Reads.fieldValue (Nat.lt_succ_self _) hdeclaration (ctx.lt_copy order id) name)
    hc.reading hrun
  refine ⟨_, hrun, rfl, ?_, (hadvances.widen [id]).modify hid hsubset hafter (fun m => Node.store_id m _ _) ho
    hnodes hregistry rfl ⟨[_], hjournal, by simp [Entry.isQuoting]⟩⟩
  rw [World.node?_congr hnodes, World.node?_modify_self _ _ fun m => Node.store_id m _ _, hm₁]
  rfl

/-- The content of a field is read at some place, and copies are made by the way. -/
def ReadsContent (ctx : DocumentContext) (header : Header) (w : World) (names : NodeNames)
    (order before after : List NodeId) (declaration : Reader (Option NodeId)) (f : Field)
    (tokens rest : List Token) : Prop :=
  ∀ s, Copying ctx header names order before s → s.tokens = tokens → ∃ g s',
    exec (content ctx (nodeValue ctx declaration) f.kind) s = (.ok g, s') ∧ f.CopiedAs (ctx.copy order) g ∧
      s'.tokens = rest ∧ Advances ctx header w names order before after [] s s'

/-- An entry for a field that the type of the node has. -/
theorem exec_bodyEntry_given (hdeclaration : Reads.OfNode ctx header (ctx.environment.scene.value + 1) declaration)
    (hc : Copying ctx header names order before s) (hid : id ∈ before) (hsubset : before ⊆ after)
    (hafter : after ⊆ order) (hm : s.world.node? (ctx.copy order id) = some m)
    (hawaits : m.Awaits (f :: fs)) (hown : f.own = false) {tokens rest : List Token}
    (hs : s.tokens = [.identifier f.name] ++ tokens)
    (hcontent : ReadsContent ctx header w names order before after declaration f.value tokens rest) :
    ∃ g s', exec (bodyEntry ctx declaration (ctx.copy order id)) s = (.ok none, s') ∧
      f.value.CopiedAs (ctx.copy order) g ∧ s'.tokens = rest ∧
        s'.world.node? (ctx.copy order id) = some (m.store f.name g) ∧
          Advances ctx header w names order before after [id] s s' := by
  obtain ⟨-, old, hold, hkind, hrefs⟩ := hawaits.given f List.mem_cons_self hown
  obtain ⟨s₁, hpop, hbehind⟩ := exec_pop ctx hs
  have hm₁ : s₁.world.node? (ctx.copy order id) = some m := by rw [hbehind.world, hm]
  obtain ⟨g, s₂, hrun₂, hg, ht₂, hadvances⟩ := hcontent s₁ (hc.behind hbehind) (hbehind.rest hs)
  rw [← hkind] at hrun₂
  obtain ⟨s', hrun', ht', hm', hadvances'⟩ := exec_fieldValue hdeclaration (hc.behind hbehind) hid hsubset
    hafter hm₁ hold hrefs hrun₂ (hg.kind.trans hkind.symm) hadvances
  refine ⟨g, s', ?_, hg, ht'.trans ht₂, hm', .of_behind hbehind hadvances'⟩
  rw [bodyEntry, exec_bind_ok (exec_position ctx s), exec_bind_ok (exec_peek? s), hs]
  dsimp only [List.cons_append, List.head?_cons]
  rw [exec_bind_ok hpop, exec_bind_ok (exec_get s₁), hm₁]
  dsimp only
  rw [hawaits.hasField List.mem_cons_self hown]
  exact exec_bind_ok hrun' _

/-- A field of a node's own is declared with its first value. -/
theorem exec_declareField (hc : Copying ctx header names order before s) (hid : id ∈ before)
    (horder : before ⊆ order) (hm : s.world.node? (ctx.copy order id) = some m)
    (hdynamic : m.capabilities.dynamic = true) (hnew : m.hasField name = false)
    (hname : IsIdentifier (some header) name)
    (hkind : (Keyword.kind k).isEnabled (some header) = true) :
    ∃ s' : ReaderState, (∀ p, exec (declareField (ctx.copy order id) name k p) s = (.ok (), s')) ∧
      s'.tokens = s.tokens ∧ s'.world.node? (ctx.copy order id) = some (m.fillIn ⟨true, name, .initial k⟩) ∧
        Advances ctx header w names order before before [id] s s' := by
  obtain ⟨s', hrun, htokens, hscene, hworld⟩ : ∃ s' : ReaderState,
      (∀ p, exec (declareField (ctx.copy order id) name k p) s = (.ok (), s')) ∧ s'.tokens = s.tokens ∧
        s'.scene = s.scene ∧
          s'.world = s.world.modify (ctx.copy order id) (·.fillIn ⟨true, name, .initial k⟩) := by
    refine ⟨{ s with world := s.world.modify (ctx.copy order id) _ }, fun p => ?_, rfl, rfl, rfl⟩
    rw [declareField, exec_bind_ok (exec_get s), World.addField_eq hm hdynamic hnew]
    rfl
  have ho := Reads.open (Reads.declareField (ctx.lt_copy order id) hname hkind .start) hc.reading (hrun .start)
  refine ⟨s', hrun, htokens, ?_, ?_⟩
  · rw [hworld, World.node?_modify_self s.world _ fun _ => Node.fillIn_id .., hm]
    rfl
  · have hquiet : s.world.Quiet s'.world := ⟨[], by rw [hworld]; rfl, by simp⟩
    exact (Advances.refl hc [id]).modify hid (List.Subset.refl _) horder (fun _ => Node.fillIn_id ..) ho
      (congrArg World.nodes hworld) (by rw [hworld]; rfl) hscene hquiet

/-- An entry for a field of the node's own: the field is declared, and then it is given its value. -/
theorem exec_bodyEntry_own (hdeclaration : Reads.OfNode ctx header (ctx.environment.scene.value + 1) declaration)
    (hc : Copying ctx header names order before s) (hid : id ∈ before) (hsubset : before ⊆ after)
    (hafter : after ⊆ order) (hm : s.world.node? (ctx.copy order id) = some m)
    (hawaits : m.Awaits (f :: fs)) (hlegible : f.IsLegible (some header)) (hown : f.own = true)
    {tokens rest : List Token}
    (hs : s.tokens = [.keyword (.kind f.value.kind)] ++ ([.identifier f.name] ++ tokens))
    (hcontent : ReadsContent ctx header w names order before after declaration f.value tokens rest) :
    ∃ g s', exec (bodyEntry ctx declaration (ctx.copy order id)) s = (.ok none, s') ∧
      f.value.CopiedAs (ctx.copy order) g ∧ s'.tokens = rest ∧
        s'.world.node? (ctx.copy order id) = some (m.fillIn ⟨true, f.name, g⟩) ∧
          Advances ctx header w names order before after [id] s s' := by
  obtain ⟨hdynamic, hnew⟩ := hawaits.new f List.mem_cons_self hown
  obtain ⟨s₁, hpop, hbehind₁⟩ := exec_pop ctx hs
  obtain ⟨s₂, hname, hbehind₂⟩ := Takes.identifier ctx "a dynamic field name" f.name s₁ tokens
    (hbehind₁.rest hs)
  have hm₂ : s₂.world.node? (ctx.copy order id) = some m := by rw [hbehind₂.world, hbehind₁.world, hm]
  obtain ⟨s₃, hdeclare, ht₃, hm₃, hdeclared⟩ := exec_declareField (w := w) ((hc.behind hbehind₁).behind hbehind₂)
    hid (List.Subset.trans hsubset hafter) hm₂ hdynamic hnew hlegible.name (hlegible.kind hown)
  -- from here on it is a field like any other
  have hold : (m.fillIn ⟨true, f.name, .initial f.value.kind⟩).field? f.name = some (.initial f.value.kind) := by
    rw [← hown, Node.field?_fillIn hawaits, if_pos rfl]
  obtain ⟨g, s₄, hrun₄, hg, ht₄, hadvances⟩ := hcontent s₃ hdeclared.copying
    (ht₃.trans (hbehind₂.rest (hbehind₁.rest hs)))
  have hkind := Field.kind_initial f.value.kind
  rw [← hkind] at hrun₄
  obtain ⟨s', hrun', ht', hm', hadvances'⟩ := exec_fieldValue hdeclaration hdeclared.copying hid hsubset
    hafter hm₃ hold (Field.references_initial _) hrun₄ (hg.kind.trans hkind.symm) hadvances
  refine ⟨g, s', ?_, hg, ht'.trans ht₄, ?_, ?_⟩
  · rw [bodyEntry, exec_bind_ok (exec_position ctx s), exec_bind_ok (exec_peek? s), hs]
    dsimp only [List.cons_append, List.head?_cons]
    rw [exec_bind_ok hpop, exec_bind_ok hname, exec_bind_ok (hdeclare _)]
    exact exec_bind_ok hrun' _
  · rw [hm', ← hown, Node.store_fillIn hawaits hown]
  · have hopened : [id] ⊆ before := fun x hx => List.mem_singleton.1 hx ▸ hid
    exact .of_behind hbehind₁ (.of_behind hbehind₂ (hdeclared.trans hopened (List.Subset.refl _) hadvances'))

/-- **An entry of a body** fills in a field. -/
theorem exec_bodyEntry (hdeclaration : Reads.OfNode ctx header (ctx.environment.scene.value + 1) declaration)
    (hc : Copying ctx header names order before s) (hid : id ∈ before) (hsubset : before ⊆ after)
    (hafter : after ⊆ order) (hm : s.world.node? (ctx.copy order id) = some m)
    (hawaits : m.Awaits (f :: fs)) (hlegible : f.IsLegible (some header)) {tokens rest : List Token}
    (hs : s.tokens = f.labelTokens ++ tokens)
    (hcontent : ReadsContent ctx header w names order before after declaration f.value tokens rest) :
    ∃ g s', exec (bodyEntry ctx declaration (ctx.copy order id)) s = (.ok none, s') ∧
      f.value.CopiedAs (ctx.copy order) g ∧ s'.tokens = rest ∧
        s'.world.node? (ctx.copy order id) = some (m.fillIn ⟨f.own, f.name, g⟩) ∧
          Advances ctx header w names order before after [id] s s' := by
  rw [WrittenField.labelTokens] at hs
  cases hown : f.own with
  | false =>
    rw [hown] at hs
    exact exec_bodyEntry_given hdeclaration hc hid hsubset hafter hm hawaits hown hs hcontent
  | true =>
    rw [hown] at hs
    exact exec_bodyEntry_own hdeclaration hc hid hsubset hafter hm hawaits hlegible hown hs hcontent

end Entries

/-! ### Nodes that are made -/

namespace Copying

/-- The next id is the id of the next copy, which is not there yet. -/
theorem next (hsource : w.IsSource header env names order) (hc : Copying ctx header names order before s)
    (hsuffix : id :: before <:+ order.reverse) :
    (⟨s.world.registry.lastId + 1⟩ : NodeId) = ctx.copy order id ∧
      s.world.node? (ctx.copy order id) = none := by
  have hnext := ctx.copy_next hsource.ordered hsuffix
  refine ⟨NodeId.eq_of_value (by rw [hnext, ← Nat.add_assoc, ← hc.last]), ?_⟩
  cases hm : s.world.node? (ctx.copy order id) with
  | none => rfl
  | some m =>
    have hissued := hc.reading.drafted.orderly.issued (World.mem_nodes_of_node? hm)
    rw [World.id_of_node? hm, hnext, hc.last] at hissued
    omega

/-- One copy more is there, and goes by its name. -/
theorem push (hc : Copying ctx header names order before s) (ho : Open ctx header s')
    (hlast : s'.world.registry.lastId = s.world.registry.lastId + 1)
    (hnames : s'.world.registry.names =
      s.world.registry.names ++ (names.name? id).elim [] fun name => [(name, ctx.copy order id)])
    (hmade : s'.world.isLive (ctx.copy order id) = true)
    (hkept : ∀ x ∈ before, s'.world.node? (ctx.copy order x) = s.world.node? (ctx.copy order x)) :
    Copying ctx header names order (id :: before) s' where
  reading := ho
  last := by
    rw [hlast, hc.last]
    rfl
  live := by
    refine List.forall_mem_cons.2 ⟨hmade, fun x hx => ?_⟩
    rw [World.isLive_iff, hkept x hx, ← World.isLive_iff]
    exact hc.live x hx
  listed := by
    rw [hnames]
    refine List.forall_mem_cons.2 ⟨fun name hname => ?_, fun x hx name hname => ?_⟩
    · rw [hname]
      exact List.mem_append_right _ List.mem_cons_self
    · exact List.mem_append_left _ (hc.listed x hx name hname)
  names := by
    intro e he
    rw [hnames] at he
    rcases List.mem_append.1 he with he | he
    · refine (hc.names e he).imp_right fun ⟨x, hx, hex, hname⟩ => ?_
      exact ⟨x, List.mem_cons_of_mem _ hx, hex, hname⟩
    · cases hname : names.name? id with
      | none =>
        rw [hname] at he
        cases he
      | some name =>
        rw [hname] at he
        rw [List.mem_singleton.1 he]
        exact .inr ⟨id, List.mem_cons_self, rfl, hname⟩

/-- **The next node is made**, and named if it has a name. -/
theorem make (hsource : w.IsSource header env names order) (hcatalog : ctx.catalog = Catalog.standard)
    (hc : Copying ctx header names order before s) (hsuffix : id :: before <:+ order.reverse) {n : Node}
    (hn : w.node? id = some n) :
    ∃ v, (s.world.step (.asked n.typeName)).createOfType ctx.catalog n.typeName ctx.environment =
        .ok (some (ctx.copy order id), v) ∧
      ∀ s₁ : ReaderState, s₁.world = (names.name? id).elim v (v.setName (ctx.copy order id)) →
        s₁.scene = s.scene → s₁.tokens <:+ s.tokens →
          s₁.world.node? (ctx.copy order id) =
              some (n.blank ctx.environment (ctx.copy order id) ((names.name? id).getD "")) ∧
            Copying ctx header names order (id :: before) s₁ ∧
              (∀ x ∈ before, s₁.world.node? (ctx.copy order x) = s.world.node? (ctx.copy order x)) ∧
                s.world.Quiet s₁.world := by
  obtain ⟨t, ht, hspec, hbehavior⟩ :=
    (hsource.drafts id (subset_of_suffix_reverse hsuffix List.mem_cons_self) n hn).typed
  have htype : n.typeName = t.name := congrArg Specification.typeName hspec
  have hasked : World.Edit header ctx.environment (ctx.environment.scene.value + 1) false s.world
      (s.world.step (.asked n.typeName)) := .noted s.world _
  have hdrafted := hc.reading.drafted.edit (Nat.lt_succ_self _) hasked
  obtain ⟨specifications, hcreate, hcreated⟩ := hdrafted.exists_create ht
  obtain ⟨hcopy, hnone⟩ := hc.next hsource hsuffix
  -- the node that is made is blank, and all others stay
  generalize hv : ({ s.world.step (.asked n.typeName) with specifications }.create t.layout t.behavior
    ctx.environment).2 = v at hcreate hcreated
  have hnode : ∀ other, v.node? other = (s.world.node? other).or (if ctx.copy order id = other then
      some (.fresh (ctx.copy order id) n.spec n.behavior ctx.environment) else none) := by
    intro other
    rw [← hv, ← hcopy, hspec, hbehavior]
    exact World.node?_addNode _ _ _ _ _ _
  have hregistry : v.registry.lastId = s.world.registry.lastId + 1 ∧
      v.registry.names = s.world.registry.names := by
    rw [← hv]
    exact ⟨rfl, rfl⟩
  have hfresh := hnode (ctx.copy order id)
  rw [hnone, if_pos rfl, Option.none_or] at hfresh
  -- so is it when it has its name
  have hwords : ∀ x ∈ names.name? id, IsIdentifier (some header) x :=
    fun x hx => hsource.words _ (NodeNames.mem_of_name? hx)
  obtain ⟨u, hu, hdrafted', hlast, hnames, hmade, hothers, hjournal⟩ :=
    hcreated.exists_named hfresh rfl (ctx.lt_copy order id) hwords
  have hkept : ∀ x ∈ before, u.node? (ctx.copy order x) = s.world.node? (ctx.copy order x) := by
    intro x hx
    obtain ⟨m, hm⟩ := World.isLive_iff.1 (hc.live x hx)
    have hne : ctx.copy order x ≠ ctx.copy order id := fun h => by rw [h, hnone] at hm; cases hm
    rw [hothers _ hne, hnode, if_neg (Ne.symm hne), Option.or_none]
  rw [← htype, ← hcatalog] at hcreate
  refine ⟨v, hcopy ▸ hcreate, fun s₁ hw hscene ht₁ => ?_⟩
  obtain rfl : s₁.world = u := hw.trans hu
  have ho : Open ctx header s₁ := ⟨hdrafted', hscene ▸ hc.reading.root, hscene ▸ hc.reading.tidy,
    fun t ht => hc.reading.valid t (ht₁.subset ht)⟩
  refine ⟨hmade, hc.push ho ?_ ?_ (World.isLive_of_node? hmade) hkept, hkept, ?_⟩
  · rw [hlast, hregistry.1]
  · rw [hnames, hregistry.2]
  · refine ⟨[.step (.created (ctx.copy order id)), .step (.asked n.typeName)], ?_, by simp [Entry.isQuoting]⟩
    rw [hjournal, ← hv, ← hcopy]
    rfl

end Copying

/-- What is left of a body is read, and fills in what a copy still awaits. -/
def ReadsEntries (ctx : DocumentContext) (header : Header) (w : World) (names : NodeNames)
    (order before after : List NodeId) (declaration : Reader (Option NodeId)) (id : NodeId)
    (fs : List WrittenField) (tokens rest : List Token) : Prop :=
  ∀ s m k, Copying ctx header names order before s → s.world.node? (ctx.copy order id) = some m →
    m.Awaits fs → s.tokens = tokens → tokens.length < k →
      ∃ gs s', exec (untilSome ctx (bodyEntry ctx declaration (ctx.copy order id)) k) s = (.ok (), s') ∧
        s'.tokens = rest ∧ List.Forall₂ (WrittenField.CopiedAs (ctx.copy order)) fs gs ∧
          s'.world.node? (ctx.copy order id) = some (m.fill gs) ∧
            Advances ctx header w names order before after [id] s s'

namespace ReadsEntries

variable {declaration : Reader (Option NodeId)} {f : WrittenField} {fs : List WrittenField}
  {tokens more rest : List Token}

/-- The closing brace ends a body. -/
theorem nil (rest : List Token) : ReadsEntries ctx header w names order before before declaration id []
    (.symbol .nodeEnd :: rest) rest := by
  intro s m k hc hm _ hs hk
  obtain ⟨k, rfl⟩ := Nat.exists_eq_add_one.2 (Nat.zero_lt_of_lt hk)
  obtain ⟨s', hpop, hbehind⟩ := exec_pop ctx hs
  refine ⟨[], s', ?_, hbehind.rest hs, .nil, by rw [hbehind.world, hm]; rfl, .behind hc hbehind⟩
  have hentry : exec (bodyEntry ctx declaration (ctx.copy order id)) s = (.ok (some ()), s') := by
    rw [bodyEntry, exec_bind_ok (exec_position ctx s), exec_bind_ok (exec_peek? s), hs]
    dsimp only [List.head?_cons]
    rw [exec_bind_ok hpop]
    rfl
  rw [untilSome, exec_bind_ok hentry]
  rfl

/-- One entry, and then the others. -/
theorem cons (hdeclaration : Reads.OfNode ctx header (ctx.environment.scene.value + 1) declaration)
    (hid : id ∈ before) (hsubset : before ⊆ between) (hbetween : between ⊆ order)
    (hf : f.IsLegible (some header))
    (hcontent : ReadsContent ctx header w names order before between declaration f.value tokens more)
    (hshorter : more.length ≤ tokens.length)
    (hmore : ReadsEntries ctx header w names order between after declaration id fs more rest) :
    ReadsEntries ctx header w names order before after declaration id (f :: fs) (f.labelTokens ++ tokens)
      rest := by
  intro s m k hc hm hawaits hs hk
  obtain ⟨k, rfl⟩ := Nat.exists_eq_add_one.2 (Nat.zero_lt_of_lt hk)
  obtain ⟨g, s₁, hentry, hg, ht₁, hm₁, hadvances⟩ :=
    exec_bodyEntry hdeclaration hc hid hsubset hbetween hm hawaits hf hs hcontent
  have hlength : more.length < k := by
    rw [WrittenField.labelTokens] at hk
    simp only [List.length_append, List.length_singleton] at hk
    omega
  obtain ⟨gs, s', hrun, ht', hgs, hm', hadvances'⟩ :=
    hmore s₁ _ k hadvances.copying hm₁ (hawaits.fillIn g) ht₁ hlength
  refine ⟨⟨f.own, f.name, g⟩ :: gs, s', ?_, ht', .cons ⟨rfl, rfl, hg⟩ hgs, hm',
    hadvances.trans (fun x hx => List.mem_singleton.1 hx ▸ hid) hsubset hadvances'⟩
  rw [untilSome, exec_bind_ok hentry]
  exact hrun

end ReadsEntries

section Declarations

variable {depth : Nat} {n : Node} {entries rest : List Token}

/-- The body of a declaration is read, and fills the copy of a node in. -/
def ReadsBody (ctx : DocumentContext) (header : Header) (w : World) (names : NodeNames)
    (order before after : List NodeId) (declaration : Reader (Option NodeId)) (id : NodeId) (n : Node)
    (tokens rest : List Token) : Prop :=
  ∀ s, Copying ctx header names order before s →
    s.world.node? (ctx.copy order id) =
      some (n.blank ctx.environment (ctx.copy order id) ((names.name? id).getD "")) →
    s.tokens = tokens → ∃ gs s', exec (body ctx declaration (ctx.copy order id)) s = (.ok (), s') ∧
      s'.tokens = rest ∧ List.Forall₂ (WrittenField.CopiedAs (ctx.copy order)) n.written gs ∧
        s'.world.node? (ctx.copy order id) = some
          ((n.blank ctx.environment (ctx.copy order id) ((names.name? id).getD "")).fill gs) ∧
          Advances ctx header w names order before after [id] s s'

theorem laysOut_standard (hcatalog : ctx.catalog = Catalog.standard) : LaysOut ctx :=
  fun t ht => (Document.wellFormed_standard t (hcatalog ▸ ht)).distinct

/-- From its type on. -/
theorem exec_afterName_copy (hsource : w.IsSource header env names order)
    (hcatalog : ctx.catalog = Catalog.standard) (hc : Copying ctx header names order before s)
    (hsuffix : id :: before <:+ order.reverse) (hn : w.node? id = some n)
    {declaration : Reader (Option NodeId)}
    (hbody : ReadsBody ctx header w names order (id :: before) after declaration id n
      (entries ++ .symbol .nodeEnd :: rest) rest)
    (hs : s.tokens = [.identifier n.typeName] ++ ([.symbol .nodeBegin] ++
      (entries ++ .symbol .nodeEnd :: rest))) :
    ∃ s', exec (afterName ctx declaration (names.name? id)) s = (.ok (some (ctx.copy order id)), s') ∧
      s'.tokens = rest ∧ Advances ctx header w names order before after [] s s' := by
  have hlayouts := laysOut_standard hcatalog
  obtain ⟨s₁, htype, hbehind₁⟩ := Takes.identifier ctx "a node type" n.typeName s _ hs
  have ht₁ := hbehind₁.rest hs
  obtain ⟨o, s₂, hrequest, ht₂, hscene₂, hcreate⟩ := exec_request hlayouts n.typeName s₁
  -- the node is made, named, and filled in by what the body says
  obtain ⟨v, hmake, hnamed⟩ := (hc.behind hbehind₁).make hsource hcatalog hsuffix hn
  obtain ⟨rfl, hv⟩ := Prod.mk.inj (Except.ok.inj (hcreate.symm.trans hmake))
  generalize hs₃ : ({ s₂ with
    world := (names.name? id).elim s₂.world (s₂.world.setName (ctx.copy order id)) } : ReaderState) = s₃
  have ht₃ : s₃.tokens = s₁.tokens := by
    rw [← hs₃]
    exact ht₂
  obtain ⟨hmade, hc₃, hkept, hquiet⟩ := hnamed s₃ (by rw [← hs₃, hv]) (by rw [← hs₃, hscene₂])
    (ht₃ ▸ List.suffix_rfl)
  obtain ⟨s₄, hbrace, hbehind₄⟩ := Takes.symbol ctx .nodeBegin s₃ _ (ht₃.trans ht₁)
  obtain ⟨gs, s', hrun, ht', hgs, hfilled, hadvances⟩ := hbody s₄ (hc₃.behind hbehind₄)
    (by rw [hbehind₄.world, hmade]) (hbehind₄.rest (ht₃.trans ht₁))
  have hnew : id ∉ before :=
    (List.nodup_cons.1 ((List.nodup_reverse.2 hsource.ordered).sublist hsuffix.sublist)).1
  have hscene₃ : s₃.scene = s₁.scene := by
    rw [← hs₃]
    exact hscene₂
  refine ⟨s', ?_, ht', .of_behind hbehind₁ (.make hnew hscene₃ hquiet hkept (.of_behind hbehind₄ hadvances)
    ⟨n, gs, hn, hgs, hfilled⟩)⟩
  · have hrest : exec (do
        onFailure (symbol ctx .nodeBegin) (·.drop (ctx.copy order id))
        closeBody ctx (ctx.copy order id) n.typeName s₁.last
          (← attempt (body ctx declaration (ctx.copy order id)))) s₃ =
        (.ok (some (ctx.copy order id)), s') := by
      have hopen : exec (onFailure (symbol ctx .nodeBegin) (·.drop (ctx.copy order id))) s₃ = (.ok (), s₄) := by
        rw [exec_onFailure, hbrace]
      rw [exec_bind_ok hopen, exec_bind_ok (exec_attempt _ s₄), hrun]
      rfl
    rw [afterName_eq, exec_bind_ok htype, exec_bind_ok (exec_last s₁), afterType, exec_bind_ok hrequest]
    subst hs₃
    -- a node without a name is not renamed
    revert hrest
    cases names.name? id with
    | none => exact fun h => h
    | some name => exact fun h => h

/-- **A declaration** makes the copy of a node. -/
theorem exec_declaration_copy (hsource : w.IsSource header env names order)
    (hcatalog : ctx.catalog = Catalog.standard) (hgoes : ∀ asked, ctx.control.isCancelled asked = false)
    (hc : Copying ctx header names order before s) (hsuffix : id :: before <:+ order.reverse)
    (hn : w.node? id = some n)
    (hbody : ReadsBody ctx header w names order (id :: before) after (declarationUpTo ctx depth) id n
      (entries ++ .symbol .nodeEnd :: rest) rest)
    (hs : s.tokens = StatementText.declarationTokens (names.name? id) n.typeName entries ++ rest) :
    ∃ s', exec (declarationUpTo ctx (depth + 1)) s = (.ok (some (ctx.copy order id)), s') ∧
      s'.tokens = rest ∧ Advances ctx header w names order before after [] s s' := by
  rw [declarationUpTo_succ, exec_bind_ok (exec_get s), hgoes, if_neg Bool.false_ne_true]
  cases hname : names.name? id with
  | none =>
    have ht : s.tokens = [.identifier n.typeName] ++ ([.symbol .nodeBegin] ++
        (entries ++ .symbol .nodeEnd :: rest)) := by
      rw [hs, hname, StatementText.declarationTokens]
      simp
    rw [exec_bind_ok (exec_optionalKeyword_false ht rfl), if_neg Bool.false_ne_true,
      exec_bind_ok (exec_optionalKeyword_false ht rfl)]
    exact hname ▸ exec_afterName_copy hsource hcatalog hc hsuffix hn hbody ht
  | some name =>
    have ht : s.tokens = [.keyword .define] ++ ([.identifier name] ++ ([.identifier n.typeName] ++
        ([.symbol .nodeBegin] ++ (entries ++ .symbol .nodeEnd :: rest)))) := by
      rw [hs, hname, StatementText.declarationTokens]
      simp
    obtain ⟨s₁, hrun₁, hbehind₁⟩ := Takes.optionalKeyword ctx .define s _ ht
    obtain ⟨s₂, hrun₂, hbehind₂⟩ :=
      ((Takes.identifier ctx "a node name after DEF" name).map some) s₁ _ (hbehind₁.rest ht)
    obtain ⟨s', hrun', ht', hadvances⟩ := exec_afterName_copy hsource hcatalog
      ((hc.behind hbehind₁).behind hbehind₂) hsuffix hn hbody (hbehind₂.rest (hbehind₁.rest ht))
    refine ⟨s', ?_, ht', .of_behind hbehind₁ (.of_behind hbehind₂ hadvances)⟩
    rw [exec_bind_ok (exec_optionalKeyword_false ht rfl), if_neg Bool.false_ne_true, exec_bind_ok hrun₁]
    dsimp only
    rw [if_pos rfl, exec_bind_ok hrun₂, ← hname]
    exact hrun'

end Declarations

end Reader

/-! ### Outlines -/

/-- A field can be written and read back. -/
structure WrittenField.IsCopyable (header : Header) (f : WrittenField) : Prop where
  legible : f.IsLegible (some header)
  steady : f.value.IsSteady
  clamped : f.value.IsClamped
  gapless : f.value.kind = ⟨.node, .multi⟩ → f.value = .nodes f.value.references f.value.timestamp

theorem World.IsSource.isCopyable (h : w.IsSource header env names order) (hid : id ∈ order) {n : Node}
    (hn : w.node? id = some n) : ∀ f ∈ n.written, f.IsCopyable header := by
  intro f hf
  have hdraft := h.drafts id hid n hn
  have hreads := h.reads id hid n hn
  have hfield := Node.mem_allFields_of_mem_written hf
  exact ⟨(hdraft.isLegible fun g hg => (hreads g hg).1).fields f hf, (hreads _ hfield).2,
    (hdraft.fields _ hfield).clamped, (hdraft.fields _ hfield).gapless⟩

/-- An outline starts with a word. -/
theorem NodeOutline.exists_tokens (header : Option Header) (o : NodeOutline) :
    ∃ t ts, o.tokens header = t :: ts ∧ ∀ c, t.isSymbol c = false := by
  cases o with
  | declare id name typeName entries => cases name <;> exact ⟨_, _, rfl, fun _ => rfl⟩
  | _ => exact ⟨_, _, rfl, fun _ => rfl⟩

theorem Reader.ofNode_declarationUpTo (hcatalog : ctx.catalog = Catalog.standard) (depth : Nat) :
    Reads.OfNode ctx header (ctx.environment.scene.value + 1) (declarationUpTo ctx depth) :=
  (Reads.declarationUpTo (Nat.lt_succ_self _) hcatalog depth).imp fun _ ho r hr => ho r hr

section Outlines

open Reader

variable (hsource : w.IsSource header env names order) (hcatalog : ctx.catalog = Catalog.standard)
  (hgoes : ∀ asked, ctx.control.isCancelled asked = false)
include hsource hcatalog hgoes

-- some cases only hand the hypotheses on
set_option linter.unusedSectionVars false

mutual

/-- **What is told of a node is read as its copy**, by induction on how it is told. -/
theorem NodeOutline.Tells.exec_nodeValue {before after : List NodeId} {o : NodeOutline}
    {target : Option NodeId} (h : o.Tells w names before target after) (hafter : after <:+ order.reverse)
    {s : ReaderState} (hc : Copying ctx header names order before s) {rest : List Token}
    (hs : s.tokens = o.tokens (some header) ++ rest) {depth : Nat} (hdepth : s.tokens.length < depth) :
    ∃ s', exec (nodeValue ctx (declarationUpTo ctx depth)) s = (.ok (target.map (ctx.copy order)), s') ∧
      s'.tokens = rest ∧ Advances ctx header w names order before after [] s s' :=
  match h with
  | .null _ => by
    obtain ⟨depth, rfl⟩ := Nat.exists_eq_add_one.2 (Nat.zero_lt_of_lt hdepth)
    have hs : s.tokens = [.keyword .null] ++ rest := hs
    obtain ⟨s', hrun, hbehind⟩ := Takes.optionalKeyword ctx .null s rest hs
    refine ⟨s', ?_, hbehind.rest hs, .behind hc hbehind⟩
    rw [nodeValue, exec_bind_ok (exec_optionalKeyword_false hs rfl), if_neg Bool.false_ne_true,
      declarationUpTo_succ, exec_bind_ok (exec_get s), hgoes, if_neg Bool.false_ne_true, exec_bind_ok hrun]
    rfl
  | .use name hid hname => by
    have hs : s.tokens = [.keyword .use] ++ ([.identifier name] ++ rest) := hs
    obtain ⟨s₁, hrun, hbehind⟩ := Takes.optionalKeyword ctx .use s _ hs
    obtain ⟨s', hrun', ht', hadvances⟩ := exec_use hsource (hc.behind hbehind) hid hname (hbehind.rest hs)
    refine ⟨s', ?_, ht', .of_behind hbehind hadvances⟩
    rw [nodeValue, exec_bind_ok hrun, if_pos rfl]
    exact hrun'
  | .declare id n es hnew hn hentries => by
    obtain ⟨depth, rfl⟩ := Nat.exists_eq_add_one.2 (Nat.zero_lt_of_lt hdepth)
    have hmem : id ∈ order := subset_of_suffix_reverse hafter (hentries.suffix.subset List.mem_cons_self)
    have hs : s.tokens = StatementText.declarationTokens (names.name? id) n.typeName
        (EntryOutline.allTokens (some header) es) ++ rest := hs
    -- the body is shorter than the whole, so there is depth left for it
    have hlength : (EntryOutline.allTokens (some header) es ++ .symbol .nodeEnd :: rest).length < depth := by
      have hlonger := congrArg List.length hs
      simp only [StatementText.declarationTokens, List.length_append, List.length_cons] at hlonger ⊢
      omega
    have hreads := hentries.readsEntries hafter List.mem_cons_self (hsource.isCopyable hmem hn) hlength
    have hbody : ReadsBody ctx header w names order (id :: before) after (declarationUpTo ctx depth) id n
        (EntryOutline.allTokens (some header) es ++ .symbol .nodeEnd :: rest) rest := by
      intro s₁ hc₁ hm ht₁
      have hk := s₁.length_tokens_lt
      rw [body, loop, exec_bind_ok (exec_get s₁)]
      exact hreads s₁ _ _ hc₁ hm (Node.awaits_blank (hsource.regular id hmem n hn)
        (hsource.drafts id hmem n hn) _ _ _) ht₁ (ht₁ ▸ hk)
    obtain ⟨s', hrun, ht', hadvances⟩ := exec_declaration_copy hsource hcatalog hgoes hc
      (hentries.suffix.trans hafter) hn hbody hs
    refine ⟨s', ?_, ht', hadvances⟩
    obtain ⟨t, ts, hfirst, huse⟩ : ∃ t ts, s.tokens = t :: ts ∧ t.isKeyword .use = false := by
      rw [hs]
      cases names.name? id <;> exact ⟨_, _, rfl, rfl⟩
    rw [nodeValue, exec_bind_ok (exec_optionalKeyword_false hfirst huse), if_neg Bool.false_ne_true]
    exact hrun

/-- The entries of a body fill in the copy that is open. -/
theorem EntryOutline.TellAll.readsEntries {before after : List NodeId} {es : List EntryOutline}
    {fs : List WrittenField} (h : EntryOutline.TellAll w names before es fs after)
    (hafter : after <:+ order.reverse) {id : NodeId} (hid : id ∈ before)
    (hfs : ∀ f ∈ fs, f.IsCopyable header) {rest : List Token} {depth : Nat}
    (hdepth : (EntryOutline.allTokens (some header) es ++ .symbol .nodeEnd :: rest).length < depth) :
    ReadsEntries ctx header w names order before after (declarationUpTo ctx depth) id fs
      (EntryOutline.allTokens (some header) es ++ .symbol .nodeEnd :: rest) rest :=
  match h with
  | .nil _ => .nil rest
  | .value f ht hrest => by
    obtain ⟨hf, hfs⟩ := List.forall_mem_cons.1 hfs
    rw [EntryOutline.allTokens, EntryOutline.tokens, hf.legible.tokensOf_label_nil, List.append_assoc,
      List.append_assoc] at hdepth ⊢
    have hmore := hrest.readsEntries hafter hid hfs (length_lt_of_append (length_lt_of_append hdepth))
    refine .cons (ofNode_declarationUpTo hcatalog depth) hid (List.Subset.refl _)
      (subset_of_suffix_reverse (hrest.suffix.trans hafter)) hf.legible (fun s hc hs => ?_)
      (List.suffix_append _ _).length_le hmore
    obtain ⟨g, htakes, -, hsame⟩ :=
      Field.exists_takes_content ht (hf.legible.value ht) hf.steady hf.clamped
    obtain ⟨s', hrun, hbehind⟩ := htakes s _ hs
    exact ⟨g, s', hrun, .of_sameValue (Field.references_eq_nil ht) hsame, hbehind.rest hs, .behind hc hbehind⟩
  | .node f o es ht hnode hrest => by
    obtain ⟨hf, hfs⟩ := List.forall_mem_cons.1 hfs
    rw [EntryOutline.allTokens, EntryOutline.tokens, hf.legible.tokensOf_label_nil, List.append_assoc,
      List.append_assoc] at hdepth ⊢
    have hdepth := length_lt_of_append hdepth
    have hmore := hrest.readsEntries hafter (hnode.suffix.subset hid) hfs (length_lt_of_append hdepth)
    refine .cons (ofNode_declarationUpTo hcatalog depth) hid hnode.suffix.subset
      (subset_of_suffix_reverse (hrest.suffix.trans hafter)) hf.legible (fun s hc hs => ?_)
      (List.suffix_append _ _).length_le hmore
    obtain ⟨s', hrun, ht', hadvances⟩ :=
      -- the node is read into the copy that the order of the scene has for it
      hnode.exec_nodeValue (hrest.suffix.trans hafter) hc hs (hs ▸ hdepth)
    refine ⟨_, s', ?_, .single_node ht ctx.time, ht', hadvances⟩
    rw [ht]
    exact exec_bind_ok hrun _
  | .nodes f os ht hnodes hrest => by
    obtain ⟨hf, hfs⟩ := List.forall_mem_cons.1 hfs
    rw [EntryOutline.allTokens, EntryOutline.tokens, hf.legible.tokensOf_label_nil, List.append_assoc,
      List.append_assoc, List.cons_append, List.append_assoc, List.singleton_append] at hdepth ⊢
    have hdepth := Nat.lt_of_succ_lt (length_lt_of_append hdepth)
    have hmore := hrest.readsEntries hafter (hnodes.suffix.subset hid) hfs
      (Nat.lt_of_succ_lt (length_lt_of_append hdepth))
    refine .cons (ofNode_declarationUpTo hcatalog depth) hid hnodes.suffix.subset
      (subset_of_suffix_reverse (hrest.suffix.trans hafter)) hf.legible (fun s hc hs => ?_) ?_ hmore
    · obtain ⟨s₁, hbegin, hbehind⟩ := Takes.optionalSymbol ctx .listBegin s _ hs
      have ht₁ : s₁.tokens = NodeOutline.allTokens (some header) os ++ .symbol .listEnd ::
          (EntryOutline.allTokens (some header) _ ++ .symbol .nodeEnd :: rest) := hbehind.rest hs
      obtain ⟨s', hrun, ht', hadvances⟩ := hnodes.exec_nodeItems (hrest.suffix.trans hafter)
        (hc.behind hbehind) ht₁ (ht₁ ▸ hdepth) s₁.length_tokens_lt []
      -- the list is that of the copies, one for each node that the field refers to
      have hlist : exec (nodeList ctx (nodeValue ctx (declarationUpTo ctx depth))) s =
          (.ok (f.value.references.map (ctx.copy order)), s') := by
        rw [nodeList, exec_bind_ok hbegin, if_pos rfl, exec_bind_ok (exec_get s₁)]
        exact hrun
      refine ⟨.nodes (f.value.references.map (ctx.copy order)) ctx.time, s', ?_, ?_, ht',
        .of_behind hbehind hadvances⟩
      · rw [ht]
        exact exec_bind_ok hlist _
      · rw [hf.gapless ht, Field.references_nodes]
        exact .nodes ctx.time
    · simp only [List.length_append, List.length_cons]
      omega

/-- The nodes of a list are read one by one. -/
theorem NodeOutline.TellAll.exec_nodeItems {before after : List NodeId} {os : List NodeOutline}
    {ids : List NodeId} (h : NodeOutline.TellAll w names before os ids after)
    (hafter : after <:+ order.reverse) {s : ReaderState} (hc : Copying ctx header names order before s)
    {rest : List Token} (hs : s.tokens = NodeOutline.allTokens (some header) os ++ .symbol .listEnd :: rest)
    {depth : Nat} (hdepth : s.tokens.length < depth) {k : Nat} (hk : s.tokens.length < k)
    (given : List NodeId) :
    ∃ s', exec (nodeItems ctx (nodeValue ctx (declarationUpTo ctx depth)) k given) s =
        (.ok (given ++ ids.map (ctx.copy order)), s') ∧ s'.tokens = rest ∧
      Advances ctx header w names order before after [] s s' :=
  match h with
  | .nil _ => by
    obtain ⟨k, rfl⟩ := Nat.exists_eq_add_one.2 (Nat.zero_lt_of_lt hk)
    obtain ⟨s', hrun, hbehind⟩ := Takes.optionalSymbol ctx .listEnd s rest hs
    refine ⟨s', ?_, hbehind.rest hs, .behind hc hbehind⟩
    rw [nodeItems, exec_bind_ok hrun, if_pos rfl, List.map_nil, List.append_nil]
    rfl
  | @NodeOutline.TellAll.cons _ _ _ _ _ o id os ids hnode hrest => by
    obtain ⟨k, rfl⟩ := Nat.exists_eq_add_one.2 (Nat.zero_lt_of_lt hk)
    obtain ⟨t, ts, ho, ht⟩ := o.exists_tokens (some header)
    rw [NodeOutline.allTokens, List.append_assoc] at hs
    obtain ⟨s₁, hrun₁, ht₁, hadvances₁⟩ := hnode.exec_nodeValue (hrest.suffix.trans hafter) hc hs hdepth
    have hshorter : s₁.tokens.length < s.tokens.length := by
      rw [hs, ho, ht₁]
      exact length_lt_cons_append t ts _
    obtain ⟨s', hrun', ht', hadvances'⟩ := hrest.exec_nodeItems hafter hadvances₁.copying ht₁
      (hshorter.trans hdepth) (k := k) (by omega) (given ++ [ctx.copy order id])
    refine ⟨s', ?_, ht', hadvances₁.trans (List.nil_subset _) hnode.suffix.subset hadvances'⟩
    have hfront : s.tokens = t :: (ts ++ (NodeOutline.allTokens (some header) os ++ .symbol .listEnd :: rest)) := by
      rw [hs, ho, List.cons_append]
    have hnext : exec (onFailure (nodeValue ctx (declarationUpTo ctx depth)) (·.dropAll given)) s =
        (.ok (some (ctx.copy order id)), s₁) := by
      rw [exec_onFailure, hrun₁]
      rfl
    rw [nodeItems, exec_bind_ok (exec_optionalSymbol_false hfront (ht _)), if_neg Bool.false_ne_true,
      exec_bind_ok hnext, Option.toList_some, hrun', List.map_cons, List.append_assoc, List.singleton_append]

end

end Outlines

end SceneGraph
