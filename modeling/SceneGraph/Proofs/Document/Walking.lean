import SceneGraph.Proofs.Document.Telling

/-!
# How outlines are made

An outline is made by a walk: it has declared some nodes, and others are still to be visited. What a walk keeps
is stated once for each of its steps (`Outliner.Guides`): a node that is declared is passed by and has a name, and
one that is not is entered, which puts what its written fields refer to in front of what is still to be visited.
What the outline tells follows from these steps alone.

* `Node.under`: a node with those of its own fields that a header allows.
* `Outliner.Guides.walks`: a node is told wherever a walk visits it.
-/

namespace SceneGraph

/-- A field of a node's own can be written under a header. -/
def Header.allows (header : Header) (own : String × Field) : Bool :=
  !(own.2.kind.type.isExtended && !header.isExtended)

namespace Node

/-- A node with those of its own fields that a header allows. -/
def under (n : Node) (header : Header) : Node :=
  { n with dynamic := n.dynamic.filter header.allows }

/-- The fields of a node's type do not depend on its own ones. -/
theorem field?_under (n : Node) (header : Header) {e : FieldSpec} (he : e ∈ n.spec.entries) :
    (n.under header).field? e.name = n.field? e.name := by
  have hspec : (n.under header).spec = n.spec := rfl
  unfold field?
  rw [hspec]
  cases hindex : n.spec.index? e.name with
  | some i => rfl
  | none =>
    have hnone := List.findIdx?_eq_none_iff.1 hindex e he
    simp at hnone

/-- Under a header a node is written with its allowed fields. -/
theorem written_under (n : Node) (header : Header) : (n.under header).written =
    (Outliner.writtenFields n).map (fun f => ⟨false, f.1, f.2⟩) ++
      (n.dynamic.filter header.allows).map fun f => ⟨true, f.1, f.2⟩ := by
  have hfields : Outliner.writtenFields (n.under header) = Outliner.writtenFields n :=
    List.filterMap_congr fun e he => by rw [n.field?_under header he]
  rw [written, hfields]
  rfl

end Node

/-- It is noted that a field of a node's own is left out. -/
def OutlineState.leaveOut (t : OutlineState) (n : Node) (own : String × Field) : OutlineState :=
  { t with omitted := ⟨n.typeName, n.id, own.1⟩ :: t.omitted }

/-- Entries may be told one list after the other. -/
theorem EntryOutline.TellAll.append {w : World} {names : NodeNames} {before between after : List NodeId}
    {es es' : List EntryOutline} {fs fs' : List WrittenField}
    (h : EntryOutline.TellAll w names before es fs between)
    (h' : EntryOutline.TellAll w names between es' fs' after) :
    EntryOutline.TellAll w names before (es ++ es') (fs ++ fs') after :=
  match h with
  | .nil _ => h'
  | .value f ht hrest => .value f ht (hrest.append h')
  | .node f o _ ht hnode hrest => .node f o _ ht hnode (hrest.append h')
  | .nodes f os ht hnodes hrest => .nodes f os ht hnodes (hrest.append h')

namespace Outliner

/-! ### Runs -/

section Runs

variable {α β : Type} {p : Outliner α} {a : α} {t t' : OutlineState}

/-- A step goes on where another one ended. -/
theorem run_bind (h : p.run t = (a, t')) (q : α → Outliner β) : (p >>= q).run t = (q a).run t' := by
  rw [StateT.run_bind, h]
  rfl

theorem run_map (h : p.run t = (a, t')) (f : α → β) : (f <$> p).run t = (f a, t') := by
  rw [StateT.run_map, h]
  rfl

theorem run_get (t : OutlineState) : (get : Outliner OutlineState).run t = (t, t) := rfl

theorem run_modify (f : OutlineState → OutlineState) (t : OutlineState) :
    (modify f : Outliner PUnit).run t = (⟨⟩, f t) := rfl

variable {ctx : OutlineContext} {depth : Nat} {id : NodeId} {n : Node} {es : List EntryOutline}

/-- A node that is declared is used by its name. -/
theorem run_nodeUpTo_use (depth : Nat) (h : id ∈ t.declared) :
    (nodeUpTo ctx (depth + 1) id).run t = ((ctx.names.name? id).elim .null .use, t) := by
  rw [nodeUpTo, run_bind (run_get t), if_pos (List.contains_iff_mem.2 h)]
  rfl

/-- A node that is not declared is declared with its entries. -/
theorem run_nodeUpTo_declare (h : id ∉ t.declared) (hn : ctx.world.node? id = some n)
    (hentries : (entries ctx (nodeUpTo ctx depth) n).run { t with declared := id :: t.declared } = (es, t')) :
    (nodeUpTo ctx (depth + 1) id).run t = (.declare id (ctx.names.name? id) n.typeName es, t') := by
  rw [nodeUpTo, run_bind (run_get t), if_neg fun hc => h (List.contains_iff_mem.1 hc), hn]
  exact (run_bind (run_modify _ t) _).trans (run_bind hentries _)

variable {act : NodeId → Outliner NodeOutline} {own : String × Field}

/-- A field of a node's own that the header does not allow is left out, which is noted. -/
theorem run_ownEntry_omit (h : ctx.header.allows own = false) :
    (ownEntry ctx act n own).run t = (none, t.leaveOut n own) := by
  rw [ownEntry, if_pos (by rwa [Header.allows, Bool.not_eq_false'] at h)]
  rfl

theorem ownEntry_of_allows (h : ctx.header.allows own = true) :
    ownEntry ctx act n own = some <$> entry act (WrittenField.mk true own.1 own.2).label own.2 :=
  if_neg (by rwa [Header.allows, Bool.not_eq_true', ← Bool.not_eq_true] at h)

end Runs

/-! ### Walks -/

variable {ctx : OutlineContext} {w : World} {names : NodeNames} {I : OutlineState → List NodeId → Prop}
  {low bound : Nat} {act : NodeId → Outliner NodeOutline} {t : OutlineState} {stack : List NodeId}

/-- From `low` declared nodes on, a step tells of every node that a walk visits. What the walk keeps is told from
its state and the nodes that are still to be visited. -/
def Walks (w : World) (names : NodeNames) (I : OutlineState → List NodeId → Prop) (low : Nat)
    (act : NodeId → Outliner NodeOutline) : Prop :=
  ∀ t stack id, low ≤ t.declared.length → I t (id :: stack) →
    ∃ o t', (act id).run t = (o, t') ∧ o.Tells w names t.declared (some id) t'.declared ∧ I t' stack

namespace Walks

theorem nodes (h : Walks w names I low act) {ids : List NodeId} (hlow : low ≤ t.declared.length)
    (hI : I t (ids ++ stack)) :
    ∃ os t', (ids.mapM act).run t = (os, t') ∧
      NodeOutline.TellAll w names t.declared os ids t'.declared ∧ I t' stack := by
  induction ids generalizing t with
  | nil => exact ⟨[], t, rfl, .nil t.declared, hI⟩
  | cons id ids ih =>
    obtain ⟨o, between, hrun, htells, hI'⟩ := h t (ids ++ stack) id hlow hI
    obtain ⟨os, after, hruns, htellall, hI''⟩ := ih (hlow.trans htells.suffix.length_le) hI'
    refine ⟨o :: os, after, ?_, .cons htells htellall, hI''⟩
    rw [List.mapM_cons, run_bind hrun, run_bind hruns]
    rfl

/-- The content of a field is told. -/
theorem entry (h : Walks w names I low act) (f : WrittenField) (hlow : low ≤ t.declared.length)
    (hI : I t (f.value.references ++ stack)) :
    ∃ e t', (Outliner.entry act f.label f.value).run t = (e, t') ∧
      EntryOutline.TellAll w names t.declared [e] [f] t'.declared ∧ I t' stack := by
  by_cases hsingle : f.value.kind = ⟨.node, .single⟩
  · have hentry : Outliner.entry act f.label f.value =
        f.value.references.head?.elim (pure (.node f.label .null)) fun id => .node f.label <$> act id := by
      obtain ⟨own, name, ⟨⟨t, d⟩, v, time⟩⟩ := f
      obtain ⟨rfl, rfl⟩ := Kind.mk.inj hsingle
      cases v <;> rfl
    rw [hentry]
    cases hrefs : f.value.references with
    | nil =>
      rw [hrefs] at hI
      refine ⟨.node f.label .null, t, rfl, .node f .null [] hsingle ?_ (.nil t.declared), hI⟩
      rw [hrefs]
      exact .null t.declared
    | cons id rest =>
      -- a single value refers to one node at most
      have hrest : rest = [] := by
        obtain ⟨own, name, ⟨⟨t, d⟩, v, time⟩⟩ := f
        obtain ⟨rfl, rfl⟩ := Kind.mk.inj hsingle
        cases v with
        | none => cases hrefs
        | some v => exact (List.cons.inj hrefs).2.symm
      subst hrest
      rw [hrefs] at hI
      obtain ⟨o, after, hrun, htells, hI'⟩ := h t stack id hlow hI
      refine ⟨.node f.label o, after, ?_, .node f o [] hsingle ?_ (.nil after.declared), hI'⟩
      · exact run_map hrun _
      · rw [hrefs]
        exact htells
  · by_cases hmulti : f.value.kind = ⟨.node, .multi⟩
    · have hentry : Outliner.entry act f.label f.value =
          .nodes f.label <$> f.value.references.mapM act := by
        obtain ⟨own, name, ⟨⟨t, d⟩, v, time⟩⟩ := f
        obtain ⟨rfl, rfl⟩ := Kind.mk.inj hmulti
        rfl
      obtain ⟨os, after, hrun, htells, hI'⟩ := h.nodes hlow hI
      refine ⟨.nodes f.label os, after, ?_, .nodes f os hmulti htells (.nil after.declared), hI'⟩
      rw [hentry]
      exact run_map hrun _
    · have htype : f.value.kind.type ≠ .node := by
        intro ht
        obtain ⟨own, name, ⟨⟨t, d⟩, v, time⟩⟩ := f
        obtain rfl : t = .node := ht
        cases d
        · exact hsingle rfl
        · exact hmulti rfl
      have hentry : Outliner.entry act f.label f.value = pure (.value f.label f.value) := by
        obtain ⟨own, name, ⟨⟨t, d⟩, v, time⟩⟩ := f
        cases t <;> first | rfl | exact absurd rfl htype
      rw [Field.references_eq_nil htype] at hI
      refine ⟨.value f.label f.value, t, ?_, .value f htype (.nil t.declared), hI⟩
      rw [hentry]
      rfl

/-- The fields of a node's type are told one after the other. -/
theorem fields (h : Walks w names I low act) (fs : List (String × Field)) (hlow : low ≤ t.declared.length)
    (hI : I t (fs.flatMap (·.2.references) ++ stack)) :
    ∃ es t', (fs.mapM fun f => Outliner.entry act f.1 f.2).run t = (es, t') ∧
      EntryOutline.TellAll w names t.declared es (fs.map fun f => ⟨false, f.1, f.2⟩) t'.declared ∧ I t' stack := by
  induction fs generalizing t with
  | nil => exact ⟨[], t, rfl, .nil t.declared, hI⟩
  | cons f fs ih =>
    rw [List.flatMap_cons, List.append_assoc] at hI
    obtain ⟨e, between, hrun, htells, hI'⟩ := h.entry ⟨false, f.1, f.2⟩ hlow hI
    obtain ⟨es, after, hruns, htellall, hI''⟩ := ih (hlow.trans htells.suffix.length_le) hI'
    refine ⟨e :: es, after, ?_, htells.append htellall, hI''⟩
    have hrun : (Outliner.entry act f.1 f.2).run t = (e, between) := hrun
    rw [List.mapM_cons, run_bind hrun, run_bind hruns]
    rfl

/-- So are a node's own fields, apart from those that the header does not allow. -/
theorem own (h : Walks w names I low act) (n : Node) (fs : List (String × Field))
    (hskip : ∀ f ∈ fs, ctx.header.allows f = false → ∀ t stack, I t stack → I (t.leaveOut n f) stack)
    (hlow : low ≤ t.declared.length)
    (hI : I t ((fs.filter ctx.header.allows).flatMap (·.2.references) ++ stack)) :
    ∃ es t', (fs.mapM (ownEntry ctx act n)).run t = (es, t') ∧
      EntryOutline.TellAll w names t.declared (es.filterMap id)
        ((fs.filter ctx.header.allows).map fun f => ⟨true, f.1, f.2⟩) t'.declared ∧ I t' stack := by
  induction fs generalizing t with
  | nil => exact ⟨[], t, rfl, .nil t.declared, hI⟩
  | cons f fs ih =>
    obtain ⟨hskip₀, hskip⟩ := List.forall_mem_cons.1 hskip
    cases hallows : ctx.header.allows f with
    | false =>
      rw [List.filter_cons_of_neg (ne_true_of_eq_false hallows)] at hI ⊢
      obtain ⟨es, after, hruns, htellall, hI'⟩ := ih hskip (t := t.leaveOut n f) hlow (hskip₀ hallows t _ hI)
      refine ⟨none :: es, after, ?_, htellall, hI'⟩
      rw [List.mapM_cons, run_bind (run_ownEntry_omit hallows), run_bind hruns]
      rfl
    | true =>
      rw [List.filter_cons_of_pos hallows] at hI ⊢
      rw [List.flatMap_cons, List.append_assoc] at hI
      obtain ⟨e, between, hrun, htells, hI'⟩ := h.entry ⟨true, f.1, f.2⟩ hlow hI
      obtain ⟨es, after, hruns, htellall, hI''⟩ := ih hskip (hlow.trans htells.suffix.length_le) hI'
      refine ⟨some e :: es, after, ?_, htells.append htellall, hI''⟩
      rw [List.mapM_cons, ownEntry_of_allows hallows, run_bind (run_map hrun some), run_bind hruns]
      rfl

end Walks

/-- What a walk keeps at each of its steps, and how many nodes it declares at most. The walk is made through the world
of the context, and the outline tells of `w`. -/
structure Guides (ctx : OutlineContext) (w : World) (I : OutlineState → List NodeId → Prop) (bound : Nat) : Prop where
  bounded : ∀ t stack, I t stack → t.declared.length ≤ bound
  pass : ∀ t stack id, I t (id :: stack) → id ∈ t.declared →
    I t stack ∧ ∃ name, ctx.names.name? id = some name
  enter : ∀ t stack id, I t (id :: stack) → id ∉ t.declared →
    ∃ n, ctx.world.node? id = some n ∧ w.node? id = some (n.under ctx.header) ∧
      (∀ f ∈ n.dynamic, ctx.header.allows f = false → ∀ t stack, I t stack → I (t.leaveOut n f) stack) ∧
      I { t with declared := id :: t.declared } ((n.under ctx.header).written.flatMap (·.value.references) ++ stack)

/-- **A node is told wherever a walk visits it**, by induction on how deep declarations may nest. The depth suffices,
because every level declares one more node. -/
theorem Guides.walks (h : Guides ctx w I bound) (depth : Nat) :
    Walks w ctx.names I (bound + 1 - depth) (nodeUpTo ctx depth) := by
  induction depth with
  | zero =>
    intro t stack x hlow hI
    have hlength := h.bounded t _ hI
    omega
  | succ depth ih =>
    intro t stack x hlow hI
    by_cases hid : x ∈ t.declared
    · obtain ⟨hI', name, hname⟩ := h.pass t stack x hI hid
      refine ⟨.use name, t, ?_, .use name hid hname, hI'⟩
      rw [run_nodeUpTo_use depth hid, hname]
      rfl
    · obtain ⟨n, hn, hm, hskip, hI'⟩ := h.enter t stack x hI hid
      have hlow' : bound + 1 - depth ≤ (x :: t.declared).length := by
        rw [List.length_cons]
        omega
      rw [n.written_under, List.flatMap_append, List.flatMap_map, List.flatMap_map, List.append_assoc] at hI'
      obtain ⟨fixed, between, hfixed, htells, hI₂⟩ :=
        ih.fields (t := { t with declared := x :: t.declared }) (writtenFields n) hlow' hI'
      obtain ⟨own, after, hrun, htells', hI₃⟩ :=
        ih.own n n.dynamic hskip (hlow'.trans htells.suffix.length_le) hI₂
      have hentries : (entries ctx (nodeUpTo ctx depth) n).run { t with declared := x :: t.declared } =
          (fixed ++ own.filterMap id, after) := by
        rw [entries, run_bind hfixed, run_bind hrun]
        rfl
      refine ⟨.declare x (ctx.names.name? x) n.typeName _, after, run_nodeUpTo_declare hid hn hentries,
        .declare x (n.under ctx.header) _ hid hm ?_, hI₃⟩
      rw [n.written_under]
      exact htells.append htells'

end Outliner

end SceneGraph
