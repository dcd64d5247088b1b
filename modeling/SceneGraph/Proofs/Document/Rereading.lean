import SceneGraph.Proofs.Document.Copying

/-!
# Reading the text of a scene

The statements of the text of a scene are read one by one: what is said about the document as a whole, the
top-level nodes, and the routes. In the end there is a copy of every node, with copies of its routes
(`Reader.IsRouted`).

* `Reader.Goes`: some statements are read, whatever follows.
* `Reader.exec_statements_of_text`: what reading all statements does.
-/

namespace SceneGraph

open World (Layered ClosedBelow)

variable {header : Header} {env : Environment} {w : World} {names : NodeNames}

/-! ### Lists of routes -/

namespace Node

variable {n : Node} {field : String} {route : Route} {before : List (String × List Route)}
  {rs rs' : List Route}

/-- A node with some more routes. -/
def connectAll (n : Node) (cs : List (String × Route)) : Node :=
  cs.foldl (fun n c => (n.addConnection c.1 c.2).2) n

theorem connectAll_append (n : Node) (cs ds : List (String × Route)) :
    n.connectAll (cs ++ ds) = (n.connectAll cs).connectAll ds := List.foldl_append

/-- Only the routes change. -/
theorem connectAll_eq (n : Node) (cs : List (String × Route)) : ∃ routes, n.connectAll cs = { n with routes } := by
  induction cs generalizing n with
  | nil => exact ⟨n.routes, rfl⟩
  | cons c cs ih =>
    obtain ⟨routes, hroutes⟩ := n.addConnection_eq c.1 c.2
    obtain ⟨more, hmore⟩ := ih (n.addConnection c.1 c.2).2
    refine ⟨more, hmore.trans ?_⟩
    rw [hroutes]

/-- The first route of a field. -/
theorem routes_addConnection_new (hnew : ∀ e ∈ n.routes, e.1 ≠ field) :
    (n.addConnection field route).2.routes = n.routes ++ [(field, [route])] := by
  unfold addConnection
  rw [if_neg]
  rw [List.any_eq_true]
  rintro ⟨e, he, hfield⟩
  exact hnew e he (beq_iff_eq.1 hfield)

/-- One more route of the field that came last. -/
theorem routes_addConnection_last (hroutes : n.routes = before ++ [(field, rs)])
    (hother : ∀ e ∈ before, e.1 ≠ field) (hnew : route ∉ rs) :
    (n.addConnection field route).2.routes = before ++ [(field, rs ++ [route])] := by
  have hfind : before.find? (·.1 == field) = none :=
    List.find?_eq_none.2 fun e he hfield => hother e he (beq_iff_eq.1 hfield)
  have hfrom : n.routesFrom field = rs := by
    rw [routesFrom, hroutes, List.find?_append, hfind]
    simp
  have hkept : before.map (fun e => if e.1 == field then (e.1, e.2 ++ [route]) else e) = before :=
    (List.map_congr_left fun e he => if_neg fun hfield => hother e he (beq_iff_eq.1 hfield)).trans (List.map_id _)
  unfold addConnection
  rw [if_pos (by simp [hroutes]), hfrom, if_neg (by simpa using hnew), hroutes, List.map_append]
  refine congrArg₂ (· ++ ·) hkept ?_
  simp

/-- More routes of the field that came last. -/
theorem routes_connectAll_last (hroutes : n.routes = before ++ [(field, rs)])
    (hother : ∀ e ∈ before, e.1 ≠ field) (hnodup : (rs ++ rs').Nodup) :
    (n.connectAll (rs'.map (field, ·))).routes = before ++ [(field, rs ++ rs')] := by
  induction rs' generalizing n rs with
  | nil => rw [List.append_nil]; exact hroutes
  | cons route rs' ih =>
    have hnew : route ∉ rs := fun hmem =>
      (List.nodup_append.1 hnodup).2.2 route hmem route List.mem_cons_self rfl
    rw [List.append_cons rs] at hnodup ⊢
    exact ih (routes_addConnection_last hroutes hother hnew) hnodup

/-- All routes of a new field. -/
theorem connections_connectAll_field (hnew : ∀ e ∈ n.routes, e.1 ≠ field) (hnodup : rs.Nodup) :
    (n.connectAll (rs.map (field, ·))).connections = n.connections ++ rs.map (field, ·) ∧
      ∀ e ∈ (n.connectAll (rs.map (field, ·))).routes, e ∈ n.routes ∨ e.1 = field := by
  cases rs with
  | nil => exact ⟨(List.append_nil _).symm, fun e he => .inl he⟩
  | cons route rs =>
    have hroutes : (n.connectAll ((route :: rs).map (field, ·))).routes = n.routes ++ [(field, route :: rs)] :=
      routes_connectAll_last (routes_addConnection_new hnew) hnew hnodup
    rw [connections, hroutes]
    refine ⟨by simp [connections], fun e he => ?_⟩
    exact (List.mem_append.1 he).imp_right fun he => congrArg Prod.fst (List.mem_singleton.1 he)

/-- **Routes are added field by field**: then they are listed as they were added. -/
theorem connections_connectAll {groups : List (String × List Route)} (hgroups : (groups.map (·.1)).Nodup)
    (hnodup : ∀ e ∈ groups, e.2.Nodup) (hnew : ∀ e ∈ groups, ∀ d ∈ n.routes, d.1 ≠ e.1) :
    (n.connectAll (groups.flatMap fun e => e.2.map (e.1, ·))).connections =
      n.connections ++ groups.flatMap fun e => e.2.map (e.1, ·) := by
  induction groups generalizing n with
  | nil => exact (List.append_nil _).symm
  | cons group groups ih =>
    obtain ⟨hother, hgroups⟩ := List.nodup_cons.1 hgroups
    obtain ⟨hfirst, hnodup⟩ := List.forall_mem_cons.1 hnodup
    obtain ⟨hnewfirst, hnew⟩ := List.forall_mem_cons.1 hnew
    obtain ⟨hconnections, hroutes⟩ := connections_connectAll_field hnewfirst hfirst
    rw [List.flatMap_cons, connectAll_append, ih hgroups hnodup, hconnections, List.append_assoc]
    intro e he d hd
    rcases hroutes d hd with hd | hd
    · exact hnew e he d hd
    · rw [hd]
      exact fun heq => hother (List.mem_map.2 ⟨e, he, heq.symm⟩)

/-- Some routes of a node, each turned into another one, are listed by a node that gets them in their order. -/
theorem connections_connectAll_map {m : Node} (hn : n.HasTidyRoutes) (hm : m.routes = []) (p : Route → Bool)
    {f : Route → Route} (hf : ∀ a b, p a = true → f a = f b → a = b) :
    (m.connectAll ((n.connections.filter (p ·.2)).map fun c => (c.1, f c.2))).connections =
      (n.connections.filter (p ·.2)).map fun c => (c.1, f c.2) := by
  have hgroups : (n.connections.filter (p ·.2)).map (fun c => (c.1, f c.2)) =
      (n.routes.map fun e => (e.1, (e.2.filter p).map f)).flatMap fun e => e.2.map (e.1, ·) := by
    rw [connections, List.filter_flatMap, List.map_flatMap, List.flatMap_map]
    refine List.flatMap_congr fun e _ => ?_
    rw [List.filter_map, List.map_map, List.map_map]
    rfl
  rw [hgroups, connections_connectAll, connections, hm]
  · rfl
  · rw [List.map_map]
    exact hn.distinct
  · rw [List.forall_mem_map]
    intro e he
    exact ((hn.lists e he).2.filter p).map_on fun a ha b _ hab => hf a b (List.mem_filter.1 ha).2 hab
  · simp [hm]

end Node

/-! ### Statements, one after the other -/

namespace StatementText

/-- What a statement says about the document as a whole. -/
def describe (s : Scene) : StatementText → Scene
  | .profile name => { s with profile := some name }
  | .metadata key value => s.insertMetadata key value
  | _ => s

/-- The statement is about the document as a whole. -/
def IsOpening : StatementText → Prop
  | .profile _ | .metadata _ _ => True
  | _ => False

end StatementText

namespace Scene

variable {s : Scene}

theorem isOpening_of_mem : ∀ text ∈ s.openingTexts header, text.IsOpening := by
  unfold openingTexts
  intro text htext
  split at htext
  · rcases List.mem_append.1 htext with htext | htext
    · cases hp : s.profile with
      | none =>
        rw [hp] at htext
        cases htext
      | some p =>
        rw [hp] at htext
        rw [List.mem_singleton.1 htext]
        trivial
    · obtain ⟨e, -, rfl⟩ := List.mem_map.1 htext
      trivial
  · cases htext

/-- Entries of the metadata with new keys are added one after the other. -/
theorem foldl_metadata (s : Scene) {entries : List (String × String)}
    (h : ((s.metadata ++ entries).map (·.1)).Nodup) :
    (entries.map fun (k, v) => StatementText.metadata k v).foldl StatementText.describe s =
      { s with metadata := s.metadata ++ entries } := by
  induction entries generalizing s with
  | nil =>
    rw [List.append_nil]
    rfl
  | cons e entries ih =>
    have hnew : s.metadata.any (·.1 == e.1) = false := by
      rw [List.any_eq_false]
      intro d hd heq
      rw [List.map_append, List.nodup_append] at h
      exact h.2.2 d.1 (List.mem_map_of_mem hd) e.1 List.mem_cons_self (beq_iff_eq.1 heq)
    have hfirst : StatementText.describe s (.metadata e.1 e.2) = { s with metadata := s.metadata ++ [e] } := by
      rw [StatementText.describe, insertMetadata, if_neg (by rw [hnew]; exact Bool.false_ne_true)]
    rw [List.append_cons] at h ⊢
    rw [List.map_cons, List.foldl_cons]
    dsimp only
    rw [hfirst]
    exact ih _ h

/-- The statements about a document as a whole say of an empty scene what they say of their own. -/
theorem foldl_openingTexts (hx3d : header.isX3d = true) (hkeys : (s.metadata.map (·.1)).Nodup) {u : Scene}
    (hprofile : u.profile = none) (hmetadata : u.metadata = []) :
    (s.openingTexts header).foldl StatementText.describe u =
      { u with profile := s.profile, metadata := s.metadata } := by
  rw [openingTexts, if_pos hx3d, List.foldl_append]
  cases hp : s.profile with
  | none =>
    refine (foldl_metadata u (by rwa [hmetadata])).trans ?_
    rw [hmetadata, ← hprofile]
    rfl
  | some p =>
    refine (foldl_metadata { u with profile := some p } (by rwa [hmetadata])).trans ?_
    rw [hmetadata]
    rfl

end Scene

namespace Reader

variable {ctx : DocumentContext} {s s' s'' : ReaderState} {order before after ids ids' : List NodeId}
  {rest : List Token}

/-- Some statements are read on the way from one state to another, and answer with some nodes. -/
def Goes (ctx : DocumentContext) (s : ReaderState) (ids : List NodeId) (s' : ReaderState) : Prop :=
  ∀ n, s.tokens.length < n → ∃ k, s'.tokens.length < k ∧
    ∀ before, exec (statements ctx n before) s = exec (statements ctx k (before ++ ids)) s'

namespace Goes

theorem refl (s : ReaderState) : Goes ctx s [] s := fun n hn =>
  ⟨n, hn, fun before => by rw [List.append_nil]⟩

theorem trans (h : Goes ctx s ids s') (h' : Goes ctx s' ids' s'') : Goes ctx s (ids ++ ids') s'' := by
  intro n hn
  obtain ⟨k, hk, hrun⟩ := h n hn
  obtain ⟨j, hj, hrun'⟩ := h' k hk
  exact ⟨j, hj, fun before => by rw [hrun, hrun', List.append_assoc]⟩

/-- The text ends. -/
theorem finish (h : Goes ctx s ids s') (hs : s'.tokens = []) :
    exec (statements ctx (s.lexemes.length + 1) []) s = (.ok ids, s') := by
  obtain ⟨k, hk, hrun⟩ := h (s.lexemes.length + 1) s.length_tokens_lt
  obtain ⟨k, rfl⟩ := Nat.exists_eq_add_one.2 (Nat.zero_lt_of_lt hk)
  rw [hrun, statements, exec_bind_ok (exec_peek? s'), hs]
  rfl

end Goes

/-- One statement. The host is told about it first. -/
theorem exists_goes (ctx : DocumentContext) {t : Token} (hs : s.tokens = t :: rest) :
    ∃ s₁, Behind [] s s₁ ∧ ∀ answer s', exec (statement ctx) s₁ = (.ok answer, s') →
      s'.tokens.length < s.tokens.length → Goes ctx s answer.toList s' := by
  obtain ⟨progress, hprogress⟩ := exec_publishProgress ctx s
  refine ⟨{ s with progress }, ⟨rfl, rfl, rfl⟩, fun answer s' hread hshorter n hn => ?_⟩
  obtain ⟨n, rfl⟩ := Nat.exists_eq_add_one.2 (Nat.zero_lt_of_lt hn)
  refine ⟨n, by omega, fun before => ?_⟩
  rw [statements, exec_bind_ok (exec_peek? s), hs]
  dsimp only [List.head?_cons]
  rw [exec_bind_ok hprogress, exec_bind_ok (exec_get _), exec_bind_ok (exec_attempt _ _), hread]

/-- **What is said about the document as a whole** only changes the scene. -/
theorem goes_opening (hcatalog : ctx.catalog = Catalog.standard)
    (hgoes : ∀ asked, ctx.control.isCancelled asked = false) {texts : List StatementText}
    (htexts : ∀ text ∈ texts, text.IsOpening) (hc : Copying ctx header names order before s)
    (hs : s.tokens = texts.flatMap (·.tokens) ++ rest) :
    ∃ s', Goes ctx s [] s' ∧ s'.tokens = rest ∧ s'.world = s.world ∧
      s'.scene = texts.foldl StatementText.describe s.scene ∧ Copying ctx header names order before s' := by
  induction texts generalizing s with
  | nil => exact ⟨s, .refl s, hs, rfl, rfl, hc⟩
  | cons text texts ih =>
    obtain ⟨htext, htexts⟩ := List.forall_mem_cons.1 htexts
    rw [List.flatMap_cons, List.append_assoc] at hs
    obtain ⟨t, ts, htokens⟩ := text.exists_tokens
    obtain ⟨s₁, hbehind, hstatement⟩ := exists_goes ctx (t := t) (by rw [hs, htokens]; rfl)
    have hc₁ := hc.behind hbehind
    have hcomplete : text.IsComplete := by cases text <;> trivial
    obtain ⟨answer, s₂, hread, ht₂, hdoes⟩ :=
      exec_statement (laysOut_standard hcatalog) hgoes hcomplete (hbehind.rest hs)
    have hshorter : s₂.tokens.length < s.tokens.length := by
      rw [hs, htokens, ht₂]
      exact length_lt_cons_append t ts _
    have ho₂ := Reads.open (Reads.statement (Nat.lt_succ_self _) hcatalog) hc₁.reading hread
    obtain ⟨rfl, hworld, hscene⟩ : answer = none ∧ s₂.world = s₁.world ∧ s₂.scene = text.describe s₁.scene := by
      cases hdoes with
      | metadata hworld hscene => exact ⟨rfl, hworld, hscene⟩
      | profile hworld hscene => exact ⟨rfl, hworld, hscene⟩
      | route => cases htext
      | declaration => cases htext
    obtain ⟨s', hmore, ht', hworld', hscene', hc'⟩ :=
      ih htexts (hc₁.congr ho₂ (by rw [hworld]) (by rw [hworld])) ht₂
    refine ⟨s', (hstatement none s₂ hread hshorter).trans hmore, ht', ?_, ?_, hc'⟩
    · rw [hworld', hworld, hbehind.world]
    · rw [hscene', hscene, hbehind.scene]
      rfl

end Reader

/-! ### Top-level nodes -/

/-- An outline that declares its node. -/
def NodeOutline.IsDeclaration : NodeOutline → Prop
  | .declare _ _ _ _ => True
  | _ => False

section Closed

variable {P : NodeId → Prop} (hclosed : ∀ id, P id → ∀ n, w.node? id = some n → ∀ r ∈ n.references, P r)
include hclosed

-- some cases only hand the hypothesis on
set_option linter.unusedSectionVars false

mutual

/-- What is declared on the way is reached from what is told of, by induction on how it is told. -/
theorem NodeOutline.Tells.forall_after {before after : List NodeId} {o : NodeOutline}
    {target : Option NodeId} (h : o.Tells w names before target after) (htarget : ∀ id ∈ target, P id)
    (hbefore : ∀ id ∈ before, P id) : ∀ id ∈ after, P id :=
  match h with
  | .null _ => hbefore
  | .use _ _ _ => hbefore
  | .declare id n _ _ hn hentries => by
    have hid := htarget id rfl
    refine hentries.forall_after (fun f hf r hr => ?_) (List.forall_mem_cons.2 ⟨hid, hbefore⟩)
    exact hclosed id hid n hn r (List.mem_flatMap.2 ⟨_, Node.mem_allFields_of_mem_written hf, hr⟩)

theorem EntryOutline.TellAll.forall_after {before after : List NodeId} {es : List EntryOutline}
    {fs : List WrittenField} (h : EntryOutline.TellAll w names before es fs after)
    (hfs : ∀ f ∈ fs, ∀ r ∈ f.value.references, P r) (hbefore : ∀ id ∈ before, P id) : ∀ id ∈ after, P id :=
  match h with
  | .nil _ => hbefore
  | .value _ _ hrest => hrest.forall_after (List.forall_mem_cons.1 hfs).2 hbefore
  | .node _ _ _ _ hnode hrest => by
    obtain ⟨hf, hfs⟩ := List.forall_mem_cons.1 hfs
    exact hrest.forall_after hfs (hnode.forall_after (fun r hr => hf r (List.mem_of_mem_head? hr)) hbefore)
  | .nodes _ _ _ hnodes hrest => by
    obtain ⟨hf, hfs⟩ := List.forall_mem_cons.1 hfs
    exact hrest.forall_after hfs (hnodes.forall_after hf hbefore)

theorem NodeOutline.TellAll.forall_after {before after : List NodeId} {os : List NodeOutline}
    {ids : List NodeId} (h : NodeOutline.TellAll w names before os ids after) (hids : ∀ id ∈ ids, P id)
    (hbefore : ∀ id ∈ before, P id) : ∀ id ∈ after, P id :=
  match h with
  | .nil _ => hbefore
  | .cons hnode hrest => by
    obtain ⟨hid, hids⟩ := List.forall_mem_cons.1 hids
    exact hrest.forall_after hids (hnode.forall_after (fun r hr => Option.some.inj hr ▸ hid) hbefore)

end

end Closed

/-- Top-level nodes that are layered are declared where they are told: none of them was declared before. -/
theorem NodeOutline.TellAll.isDeclaration
    (hinner : ∀ n ∈ w.nodes, env.scene.value < n.id.value → ∀ r ∈ n.references, env.scene.value < r.value)
    {before after : List NodeId} {os : List NodeOutline} {ids : List NodeId}
    (h : NodeOutline.TellAll w names before os ids after) (hlayered : w.Layered env ids)
    (hbefore : ∀ c ∈ ids, ∀ id ∈ before, env.scene.value < id.value ∧ id.value < c.value) :
    ∀ o ∈ os, o.IsDeclaration :=
  match h with
  | .nil _ => by simp
  | @NodeOutline.TellAll.cons _ _ _ _ _ o c _ ids hnode hrest => by
    obtain ⟨hfirst, hbefore⟩ := List.forall_mem_cons.1 hbefore
    obtain ⟨hless, hordered⟩ := List.pairwise_cons.1 hlayered.ordered
    obtain ⟨hcinner, hidsinner⟩ := List.forall_mem_cons.1 hlayered.inner
    obtain ⟨-, hclosed⟩ := List.forall_mem_cons.1 hlayered.closed
    refine List.forall_mem_cons.2 ⟨?_, hrest.isDeclaration hinner ⟨hidsinner, hordered, hclosed⟩
      fun d hd => hnode.forall_after (fun id hid n hn r hr => ?_) ?_ (hbefore d hd)⟩
    · cases hnode with
      | use name hid => exact absurd (hfirst c hid).2 (Nat.lt_irrefl _)
      | declare => trivial
    · have hmem := World.mem_nodes_of_node? hn
      rw [← World.id_of_node? hn] at hid
      exact ⟨hinner n hmem hid.1 r hr, hclosed d hd n hmem hid.1 hid.2 r hr⟩
    · exact fun id hid => Option.some.inj hid ▸ ⟨hcinner, hless d hd⟩

/-- A declaration starts with its keyword or with a type. -/
theorem NodeOutline.IsDeclaration.exists_tokens {o : NodeOutline} (h : o.IsDeclaration) (header : Option Header) :
    ∃ t ts, o.tokens header = t :: ts ∧ ∀ k, k ≠ .define → t.isKeyword k = false := by
  cases o with
  | declare id name typeName entries =>
    cases name with
    | none => exact ⟨_, _, rfl, fun _ _ => rfl⟩
    | some name => exact ⟨_, _, rfl, fun k hk => by simpa [Token.isKeyword] using hk⟩
  | _ => cases h

namespace Reader

variable {ctx : DocumentContext} {s s' : ReaderState} {order before after ids : List NodeId}
  {rest : List Token}

/-- A declaration at the top is read like one in a field. -/
theorem exec_statement_declaration {t : Token} (hs : s.tokens = t :: rest)
    (ht : ∀ k, k ≠ .define → t.isKeyword k = false) :
    exec (statement ctx) s = exec (nodeValue ctx (declarationUpTo ctx (s.lexemes.length + 1))) s := by
  rw [statement, exec_bind_ok (exec_optionalKeyword_false hs (ht .route (by decide))),
    if_neg Bool.false_ne_true, exec_bind_ok (exec_optionalKeyword_false hs (ht .metadata (by decide))),
    if_neg Bool.false_ne_true, exec_bind_ok (exec_optionalKeyword_false hs (ht .profile (by decide))),
    if_neg Bool.false_ne_true, declaration, exec_bind_ok (exec_get s), nodeValue,
    exec_bind_ok (exec_optionalKeyword_false hs (ht .use (by decide))), if_neg Bool.false_ne_true]

/-- **The outlines of the top-level nodes are read as copies.** -/
theorem goes_outlines (hsource : w.IsSource header env names order) (hcatalog : ctx.catalog = Catalog.standard)
    (hgoes : ∀ asked, ctx.control.isCancelled asked = false) {before after : List NodeId}
    {os : List NodeOutline} {ids : List NodeId} (h : NodeOutline.TellAll w names before os ids after)
    (hafter : after <:+ order.reverse) (hos : ∀ o ∈ os, o.IsDeclaration) {s : ReaderState}
    (hc : Copying ctx header names order before s)
    (hs : s.tokens = NodeOutline.allTokens (some header) os ++ rest) :
    ∃ s', Goes ctx s (ids.map (ctx.copy order)) s' ∧ s'.tokens = rest ∧
      Advances ctx header w names order before after [] s s' :=
  match h with
  | .nil _ => ⟨s, .refl s, hs, .refl hc []⟩
  | @NodeOutline.TellAll.cons _ _ _ _ _ o id os ids hnode hrest => by
    obtain ⟨ho, hos⟩ := List.forall_mem_cons.1 hos
    obtain ⟨t, ts, htokens, ht⟩ := ho.exists_tokens (some header)
    rw [NodeOutline.allTokens, List.append_assoc] at hs
    have hfront : s.tokens = t :: (ts ++ (NodeOutline.allTokens (some header) os ++ rest)) := by
      rw [hs, htokens, List.cons_append]
    obtain ⟨s₁, hbehind, hstatement⟩ := exists_goes ctx hfront
    have ht₁ := hbehind.rest hs
    obtain ⟨s₂, hrun, ht₂, hadvances⟩ := hnode.exec_nodeValue hsource hcatalog hgoes
      (hrest.suffix.trans hafter) (hc.behind hbehind) ht₁ s₁.length_tokens_lt
    obtain ⟨s', hmore, ht', hadvances'⟩ :=
      goes_outlines hsource hcatalog hgoes hrest hafter hos hadvances.copying ht₂
    rw [← exec_statement_declaration (hbehind.tokens.symm.trans hfront) ht] at hrun
    refine ⟨s', (hstatement _ s₂ hrun ?_).trans hmore, ht',
      .of_behind hbehind (hadvances.trans (List.nil_subset _) hnode.suffix.subset hadvances')⟩
    rw [hs, htokens, ht₂]
    exact length_lt_cons_append t ts _

end Reader

/-! ### Routes -/

theorem Node.hasField_of_kind? {n : Node} {name : String} {k : Kind} (h : n.kind? name = some k) :
    n.hasField name = true := by
  rw [kind?] at h
  rw [hasField, Specification.hasField]
  cases hentry : n.spec.entry? name with
  | some e => rfl
  | none =>
    rw [hentry] at h
    obtain ⟨f, hf, -⟩ := Option.map_eq_some_iff.1 h
    rw [hf]
    rfl

/-- A route between fields that fit means what it says. -/
theorem World.resolveRoute_of_feeds {v : World} {scene : NodeId} {t : RouteText} {a b : Node}
    (ha : v.findInScene? t.source scene = some a) (hb : v.findInScene? t.target scene = some b)
    (h : a.Feeds t.output b t.input) : v.resolveRoute scene t = .ok (a, t.output, b, t.input) := by
  obtain ⟨k, hk, hk'⟩ := h.kinds
  have houtput : a.plainFieldName t.output = t.output := by
    rw [Node.plainFieldName, if_pos (Node.hasField_of_kind? hk)]
  have hinput : b.plainFieldName t.input = t.input := by
    rw [Node.plainFieldName, if_pos (Node.hasField_of_kind? hk')]
  unfold resolveRoute
  rw [ha]
  dsimp only
  rw [houtput, hk]
  dsimp only
  rw [hb]
  dsimp only
  rw [hinput, hk']
  dsimp only
  rw [if_neg (not_not.2 rfl), h.readable, h.settable]
  rfl

theorem Scene.fields_of_routeText? {r : NodeId × String × Route} {t : RouteText}
    (h : routeText? names r = some t) : t.output = r.2.1 ∧ t.input = r.2.2.field := by
  obtain ⟨source, -, h⟩ := Option.bind_eq_some_iff.1 h
  obtain ⟨target, -, rfl⟩ := Option.map_eq_some_iff.1 h
  exact ⟨rfl, rfl⟩

namespace Reader

variable {ctx : DocumentContext} {s s' : ReaderState} {order before : List NodeId} {id : NodeId}
  {rest : List Token} {r : NodeId × String × Route} {rs : List (NodeId × String × Route)}

/-- The copy of a route, and the field that it leaves. -/
def copyRoute (ctx : DocumentContext) (order : List NodeId) (r : NodeId × String × Route) : String × Route :=
  (r.2.1, ⟨ctx.copy order r.2.2.target, r.2.2.field⟩)

/-- The copy of a node has been made, and some routes were added to it. -/
def IsRouted (ctx : DocumentContext) (w : World) (names : NodeNames) (order : List NodeId) (v : World)
    (id : NodeId) (cs : List (String × Route)) : Prop :=
  ∃ n m, w.node? id = some n ∧ v.node? (ctx.copy order id) = some (m.connectAll cs) ∧
    n.CopiedAs (ctx.copy order) m ∧ m.name = (names.name? id).getD "" ∧ m.routes = []

/-- A route is written: it leads between nodes that have been copied and have names, and from a field to
one that it feeds. -/
structure IsWritten (w : World) (names : NodeNames) (before : List NodeId) (r : NodeId × String × Route) :
    Prop where
  source : r.1 ∈ before
  target : r.2.2.target ∈ before
  named : ∃ t, Scene.routeText? names r = some t
  feeds : ∃ a b, w.node? r.1 = some a ∧ w.node? r.2.2.target = some b ∧ a.Feeds r.2.1 b r.2.2.field

theorem IsMade.isRouted (hsource : w.IsSource header env names order) {v : World} (hid : id ∈ order)
    (h : IsMade ctx w names order v id) : IsRouted ctx w names order v id [] := by
  obtain ⟨n, gs, hn, hgs, hm⟩ := h
  obtain ⟨-, -, -, hname, hroutes, -⟩ := (n.blank ctx.environment (ctx.copy order id)
    ((names.name? id).getD "")).fill_same gs
  exact ⟨n, _, hn, hm, Node.copiedAs_fill (hsource.regular id hid n hn) (hsource.drafts id hid n hn) _ _ _ hgs,
    hname, hroutes⟩

/-- The copy with its routes is a copy. -/
theorem IsRouted.exists_node {v : World} {cs : List (String × Route)}
    (h : IsRouted ctx w names order v id cs) :
    ∃ n m, w.node? id = some n ∧ v.node? (ctx.copy order id) = some m ∧ n.CopiedAs (ctx.copy order) m := by
  obtain ⟨n, m, hn, hm, hcopied, -⟩ := h
  obtain ⟨routes, hroutes⟩ := m.connectAll_eq cs
  rw [hroutes] at hm
  exact ⟨n, _, hn, hm, hcopied.congr rfl rfl rfl rfl⟩

/-- A route that fits is added. -/
theorem exec_installRoute_of_feeds (ctx : DocumentContext) (p : Position) {t : RouteText} {a b : Node}
    (ha : s.world.findInScene? t.source s.scene.root = some a)
    (hb : s.world.findInScene? t.target s.scene.root = some b) (h : a.Feeds t.output b t.input)
    (hlive : s.world.node? a.id = some a) :
    ∃ s', exec (installRoute ctx p t) s = (.ok (), s') ∧ s'.scene = s.scene ∧
      s'.world.nodes = (s.world.modify a.id fun n => (n.addConnection t.output ⟨b.id, t.input⟩).2).nodes ∧
        s'.world.registry = s.world.registry ∧ s.world.Quiet s'.world := by
  rw [installRoute, exec_bind_ok (exec_get s), World.resolveRoute_of_feeds ha hb h]
  dsimp only
  unfold World.addConnection
  rw [hlive]
  dsimp only
  rw [exec_bind_ok (exec_set s _)]
  split
  · exact ⟨_, rfl, rfl, rfl, rfl, [], rfl, by simp⟩
  · exact ⟨_, exec_act _ _, rfl, rfl, rfl, [_], rfl, by simp [Entry.isQuoting]⟩

/-- The names in a route that was written mean the copies of its ends. -/
theorem IsWritten.exists_ends (hsource : w.IsSource header env names order) (hr : IsWritten w names before r)
    (hc : Copying ctx header names order before s) {cs : NodeId → List (String × Route)}
    (hrouted : ∀ id ∈ before, IsRouted ctx w names order s.world id (cs id)) {t : RouteText}
    (ht : Scene.routeText? names r = some t) :
    ∃ a b, s.world.node? (ctx.copy order r.1) = some a ∧
      s.world.node? (ctx.copy order r.2.2.target) = some b ∧
        s.world.findInScene? t.source s.scene.root = some a ∧
          s.world.findInScene? t.target s.scene.root = some b ∧ a.Feeds t.output b t.input := by
  obtain ⟨source, hsourcename, ht⟩ := Option.bind_eq_some_iff.1 ht
  obtain ⟨target, htargetname, rfl⟩ := Option.map_eq_some_iff.1 ht
  obtain ⟨a₀, b₀, ha₀, hb₀, hfeeds⟩ := hr.feeds
  obtain ⟨n, a, hn, ha, hacopied⟩ := (hrouted r.1 hr.source).exists_node
  obtain ⟨m, b, hm, hb, hbcopied⟩ := (hrouted r.2.2.target hr.target).exists_node
  obtain rfl := Option.some.inj (ha₀.symm.trans hn)
  obtain rfl := Option.some.inj (hb₀.symm.trans hm)
  have hafind := (hc.find? hsource hr.source hsourcename).1
  have hbfind := (hc.find? hsource hr.target htargetname).1
  rw [ha, ← hc.reading.root] at hafind
  rw [hb, ← hc.reading.root] at hbfind
  exact ⟨a, b, ha, hb, hafind.symm, hbfind.symm, hacopied.feeds hbcopied hfeeds⟩

/-- The copy of a route is added to the copy of the node that it leaves. -/
theorem IsRouted.connect {v v' : World} {cs : List (String × Route)} (hr : r.1 ∈ order)
    (hnodes : v'.nodes = (v.modify (ctx.copy order r.1) fun n =>
      (n.addConnection r.2.1 ⟨ctx.copy order r.2.2.target, r.2.2.field⟩).2).nodes)
    (h : IsRouted ctx w names order v id cs) :
    IsRouted ctx w names order v' id (cs ++ ([r].filter (·.1 == id)).map (copyRoute ctx order)) := by
  obtain ⟨n, m, hn, hm, hrest⟩ := h
  refine ⟨n, m, hn, ?_, hrest⟩
  have hsame := fun k : Node => k.addConnection_id r.2.1 ⟨ctx.copy order r.2.2.target, r.2.2.field⟩
  rw [World.node?_congr hnodes, List.filter_singleton]
  by_cases hid : r.1 = id
  · subst hid
    rw [World.node?_modify_self _ _ hsame, hm, beq_self_eq_true, Node.connectAll_append]
    rfl
  · have hne : ctx.copy order id ≠ ctx.copy order r.1 := fun heq => hid (ctx.copy_inj hr heq.symm)
    rw [World.node?_modify_of_ne _ hsame hne, hm, beq_false_of_ne hid]
    simp

/-- **A route that was written is read as its copy.** -/
theorem goes_route (hsource : w.IsSource header env names order) (hcatalog : ctx.catalog = Catalog.standard)
    (hgoes : ∀ asked, ctx.control.isCancelled asked = false) (hbefore : before ⊆ order)
    (hr : IsWritten w names before r) (hc : Copying ctx header names order before s)
    {cs : NodeId → List (String × Route)}
    (hrouted : ∀ id ∈ before, IsRouted ctx w names order s.world id (cs id)) {t : RouteText}
    (ht : Scene.routeText? names r = some t) (hs : s.tokens = (StatementText.route t).tokens ++ rest) :
    ∃ s', Goes ctx s [] s' ∧ s'.tokens = rest ∧ s'.scene = s.scene ∧
      Copying ctx header names order before s' ∧ s.world.Quiet s'.world ∧
          ∀ id ∈ before, IsRouted ctx w names order s'.world id
            (cs id ++ ([r].filter (·.1 == id)).map (copyRoute ctx order)) := by
  obtain ⟨s₁, hbehind, hstatement⟩ := exists_goes ctx (t := .keyword .route) hs
  have hc₁ := hc.behind hbehind
  have hrouted₁ : ∀ id ∈ before, IsRouted ctx w names order s₁.world id (cs id) := hbehind.world ▸ hrouted
  have hcomplete : (StatementText.route t).IsComplete := trivial
  obtain ⟨answer, s', hread, ht', hdoes⟩ :=
    exec_statement (laysOut_standard hcatalog) hgoes hcomplete (hbehind.rest hs)
  have ho' := Reads.open (Reads.statement (Nat.lt_succ_self _) hcatalog) hc₁.reading hread
  cases hdoes with
  | @route _ _ s₂ _ p hworld hscene hinstall =>
    obtain ⟨a, b, ha, hb, hafind, hbfind, hfeeds⟩ := hr.exists_ends hsource hc₁ hrouted₁ ht
    rw [← hworld, ← hscene] at hafind hbfind
    obtain ⟨s₃, hinstall', hscene', hnodes, hregistry, hquiet⟩ := exec_installRoute_of_feeds ctx p hafind hbfind
      hfeeds (by rw [hworld, World.id_of_node? ha, ha])
    obtain rfl : s' = s₃ := congrArg Prod.snd (hinstall.symm.trans hinstall')
    obtain ⟨houtput, hinput⟩ := Scene.fields_of_routeText? ht
    rw [hworld, World.id_of_node? ha, World.id_of_node? hb, houtput, hinput] at hnodes
    have hlive : s'.world.liveIds = s₁.world.liveIds :=
      (congrArg (List.map Node.id) hnodes).trans (World.liveIds_modify s₁.world _ fun n => n.addConnection_id _ _)
    refine ⟨s', hstatement none s' hread ?_, ht', ?_, hc₁.congr ho' (by rw [hregistry, hworld]) hlive, ?_,
      fun id hid => (hrouted₁ id hid).connect (hbefore hr.source) hnodes⟩
    · rw [hs, ht']
      exact length_lt_cons_append _ _ _
    · rw [hscene', hscene, hbehind.scene]
    · rwa [hworld, hbehind.world] at hquiet

/-- **The routes are read**, by induction on their number. -/
theorem goes_routes (hsource : w.IsSource header env names order) (hcatalog : ctx.catalog = Catalog.standard)
    (hgoes : ∀ asked, ctx.control.isCancelled asked = false) (hbefore : before ⊆ order)
    (hrs : ∀ r ∈ rs, IsWritten w names before r) (hc : Copying ctx header names order before s)
    {cs : NodeId → List (String × Route)}
    (hrouted : ∀ id ∈ before, IsRouted ctx w names order s.world id (cs id))
    (hs : s.tokens = (rs.filterMap (Scene.routeText? names)).flatMap (fun t => (StatementText.route t).tokens) ++
      rest) :
    ∃ s', Goes ctx s [] s' ∧ s'.tokens = rest ∧ s'.scene = s.scene ∧
      Copying ctx header names order before s' ∧ s.world.Quiet s'.world ∧
          ∀ id ∈ before, IsRouted ctx w names order s'.world id
            (cs id ++ (rs.filter (·.1 == id)).map (copyRoute ctx order)) := by
  induction rs generalizing s cs with
  | nil =>
    refine ⟨s, .refl s, hs, rfl, hc, .refl s.world, fun id hid => ?_⟩
    rw [List.filter_nil, List.map_nil, List.append_nil]
    exact hrouted id hid
  | cons r rs ih =>
    obtain ⟨hr, hrs⟩ := List.forall_mem_cons.1 hrs
    obtain ⟨t, ht⟩ := hr.named
    rw [List.filterMap_cons_some ht, List.flatMap_cons, List.append_assoc] at hs
    obtain ⟨s₁, hfirst, ht₁, hscene₁, hc₁, hquiet, hrouted₁⟩ :=
      goes_route hsource hcatalog hgoes hbefore hr hc hrouted ht hs
    obtain ⟨s', hmore, ht', hscene', hc', hquiet', hrouted'⟩ := ih hrs hc₁ hrouted₁ ht₁
    refine ⟨s', hfirst.trans hmore, ht', hscene'.trans hscene₁, hc', hquiet.trans hquiet', fun id hid => ?_⟩
    have hall := hrouted' id hid
    rwa [List.append_assoc, ← List.map_append, ← List.filter_append, List.singleton_append] at hall

end Reader

/-! ### The whole text -/

namespace Scene

variable {s : Scene} {id : NodeId}

/-- Where lists are given to keys, all that a key has is its list. -/
theorem filter_flatMap_of_nodup {α : Type} {ids : List NodeId} (h : ids.Nodup) (g : NodeId → List α) :
    (ids.flatMap fun x => (g x).map (x, ·)).filter (·.1 == id) =
      if id ∈ ids then (g id).map (id, ·) else [] := by
  induction ids with
  | nil => rfl
  | cons x ids ih =>
    obtain ⟨hx, hids⟩ := List.nodup_cons.1 h
    rw [List.flatMap_cons, List.filter_append, ih hids, List.filter_map]
    by_cases hxid : x = id
    · subst hxid
      simp [Function.comp_def, hx]
    · simp [Function.comp_def, hxid, Ne.symm hxid]

/-- The routes of a scene that lead to one of its nodes. -/
def routesWithin (s : Scene) (w : World) : List (NodeId × String × Route) :=
  (s.routes w).filter fun r => (s.nodes w).contains r.2.2.target

/-- What is asked of a scene to be written and read again: its names are different, no field that can be set
but not read holds a node, and its numbers are read back. -/
structure IsWritable (header : Header) (env : Environment) (s : Scene) (w : World) : Prop where
  settled : s.IsSettled header env w
  distinct : ((s.namesFor w).map (·.2)).Nodup
  shown : ∀ id ∈ s.nodes w, ∀ n, w.node? id = some n → ¬ n.HidesNodes
  reads : ∀ id ∈ s.nodes w, ∀ n, w.node? id = some n → ∀ f ∈ n.allFields, f.ReadsBack ∧ f.IsSteady

namespace IsWritable

theorem isSource (h : s.IsWritable header env w) : w.IsSource header env (s.namesFor w) (s.nodes w) where
  distinct := h.distinct
  words := h.settled.isIdentifier_namesFor
  ordered := s.nodup_nodes w
  regular id _ n hn := h.settled.orderly.isRegular (World.mem_nodes_of_node? hn)
  drafts id hid n hn := by
    obtain ⟨m, hm, hdraft⟩ := h.settled.exists_draft hid
    exact Option.some.inj (hn.symm.trans hm) ▸ hdraft
  reads := h.reads

end IsWritable

namespace IsSettled

/-- A route that leads to a node of the scene is written. -/
theorem isWritten (h : s.IsSettled header env w) {r : NodeId × String × Route} (hr : r ∈ s.routesWithin w) :
    r ∈ s.innerRoutes w ∧ Reader.IsWritten w (s.namesFor w) (s.nodes w) r := by
  obtain ⟨hr, htarget⟩ := List.mem_filter.1 hr
  have htarget := List.contains_iff_mem.1 htarget
  obtain ⟨a, b, ha, hb, hsource, hfeeds⟩ := h.exists_feeds hr htarget
  have hroot : ∀ {id}, id ∈ s.nodes w → id ≠ s.root := fun hid heq => h.root_notMem (heq ▸ hid)
  have hinner : r ∈ s.innerRoutes w := List.mem_filter.2 ⟨hr, by simp [hroot hsource, hroot htarget]⟩
  have hends : ∀ id ∈ [r.1, r.2.2.target], id ∈ s.ends w := fun id hid => List.mem_flatMap.2 ⟨r, hinner, hid⟩
  obtain ⟨source, hsourcename⟩ := exists_name hsource ha (.inr (hends _ (by simp)))
  obtain ⟨target, htargetname⟩ := exists_name htarget hb (.inr (hends _ (by simp)))
  exact ⟨hinner, hsource, htarget, ⟨⟨source, r.2.1, target, r.2.2.field⟩, by
    rw [routeText?, hsourcename, htargetname]
    rfl⟩, a, b, ha, hb, hfeeds⟩

/-- The routes that lead to nodes of the scene are those that are written. -/
theorem routeTexts_eq (h : s.IsSettled header env w) :
    s.routeTexts w = (s.routesWithin w).filterMap (routeText? (s.namesFor w)) := by
  rw [routeTexts, innerRoutes, routesWithin, List.filterMap_filter, List.filterMap_filter]
  refine List.filterMap_congr fun r hr => ?_
  by_cases htarget : r.2.2.target ∈ s.nodes w
  · have hwithin : r ∈ s.routesWithin w := List.mem_filter.2 ⟨hr, List.contains_iff_mem.2 htarget⟩
    rw [if_pos (List.contains_iff_mem.2 htarget), if_pos (List.mem_filter.1 (h.isWritten hwithin).1).2]
  · have hnone : routeText? (s.namesFor w) r = none := by
      refine Option.eq_none_iff_forall_not_mem.2 fun t ht => htarget ?_
      obtain ⟨source, -, ht⟩ := Option.bind_eq_some_iff.1 ht
      obtain ⟨target, hname, -⟩ := Option.map_eq_some_iff.1 ht
      exact mem_nodes_of_name? hname
    rw [hnone, ite_self, ite_self]

/-- The routes within a scene that leave one of its nodes. -/
theorem filter_routesWithin (h : s.IsSettled header env w) (hid : id ∈ s.nodes w) {n : Node}
    (hn : w.node? id = some n) :
    (s.routesWithin w).filter (·.1 == id) =
      (n.connections.filter fun c => (s.nodes w).contains c.2.target).map (id, ·) := by
  have hnodup : (s.root :: s.nodes w).Nodup := List.nodup_cons.2 ⟨h.root_notMem, s.nodup_nodes w⟩
  rw [routesWithin, List.filter_filter, List.filter_congr (fun r _ => Bool.and_comm _ _), ← List.filter_filter,
    Scene.routes, filter_flatMap_of_nodup hnodup, if_pos (List.mem_cons_of_mem _ hid), hn, List.filter_map]
  rfl

end IsSettled

end Scene

/-- A copy of a node of a scene, with its name in the text of the scene and copies of its routes to nodes of
the scene. -/
structure Scene.Copied (φ : NodeId → NodeId) (s : Scene) (w : World) (n m : Node) : Prop where
  copied : n.CopiedAs φ m
  name : m.name = ((s.namesFor w).name? n.id).getD ""
  connections : m.connections =
    (n.connections.filter fun c => (s.nodes w).contains c.2.target).map fun c => (c.1, ⟨φ c.2.target, c.2.field⟩)

/-- A world holds copies of all nodes of a scene. -/
def Scene.HasCopies (φ : NodeId → NodeId) (s : Scene) (w v : World) : Prop :=
  ∀ id ∈ s.nodes w, ∃ n m, w.node? id = some n ∧ v.node? (φ id) = some m ∧ s.Copied φ w n m

namespace Reader

variable {ctx : DocumentContext} {s : Scene} {id : NodeId} {t₀ : ReaderState}

theorem IsRouted.exists_copied (h : s.IsSettled header env w) (hid : id ∈ s.nodes w) {v : World}
    (hrouted : IsRouted ctx w (s.namesFor w) (s.nodes w) v id
      (((s.routesWithin w).filter (·.1 == id)).map (copyRoute ctx (s.nodes w)))) :
    ∃ n m, w.node? id = some n ∧ v.node? (ctx.copy (s.nodes w) id) = some m ∧
      s.Copied (ctx.copy (s.nodes w)) w n m := by
  obtain ⟨n, m, hn, hm, hcopied, hname, hnone⟩ := hrouted
  obtain ⟨n', hn', hdraft⟩ := h.exists_draft hid
  obtain rfl := Option.some.inj (hn.symm.trans hn')
  rw [h.filter_routesWithin hid hn, List.map_map] at hm
  obtain ⟨routes, hroutes⟩ := m.connectAll_eq ((n.connections.filter fun c =>
    (s.nodes w).contains c.2.target).map (copyRoute ctx (s.nodes w) ∘ (id, ·)))
  refine ⟨n, _, hn, hm, ?_, ?_, ?_⟩
  · rw [hroutes]
    exact hcopied.congr rfl rfl rfl rfl
  · rw [hroutes, World.id_of_node? hn]
    exact hname
  · refine Node.connections_connectAll_map hdraft.routes hnone (fun r => (s.nodes w).contains r.target)
      (f := fun r => ⟨ctx.copy (s.nodes w) r.target, r.field⟩) fun a b ha hab => ?_
    obtain ⟨htarget, hfield⟩ := Route.mk.inj hab
    obtain ⟨target, field⟩ := a
    obtain ⟨target', field'⟩ := b
    obtain rfl : target = target' := ctx.copy_inj (List.contains_iff_mem.1 ha) htarget
    obtain rfl : field = field' := hfield
    rfl

/-- **The text of a scene is read**: there is a copy of every node, the copies of the top-level nodes are
the answers, and nothing is worth a warning. -/
theorem exec_statements_of_text (h : s.IsWritable header env w) (hcatalog : ctx.catalog = Catalog.standard)
    (hgoes : ∀ asked, ctx.control.isCancelled asked = false)
    (hc : Copying ctx header (s.namesFor w) (s.nodes w) [] t₀)
    (htokens : t₀.tokens = tokensOf (some header) (s.afterHeader w header).toList)
    (hprofile : t₀.scene.profile = none) (hmetadata : t₀.scene.metadata = []) :
    ∃ t, exec (statements ctx (t₀.lexemes.length + 1) []) t₀ =
        (.ok ((s.children w).map (ctx.copy (s.nodes w))), t) ∧
      (header.isX3d = true → t.scene = { t₀.scene with profile := s.profile, metadata := s.metadata }) ∧
        t₀.world.Quiet t.world ∧ Copying ctx header (s.namesFor w) (s.nodes w) (s.nodes w).reverse t ∧
          s.HasCopies (ctx.copy (s.nodes w)) w t.world := by
  have hsource := h.isSource
  obtain ⟨htells, -⟩ := h.settled.tells_outline h.shown
  rw [h.settled.tokens_text h.shown fun id hid n hn f hf => (h.reads id hid n hn f hf).1,
    h.settled.routeTexts_eq] at htokens
  have hlayered : w.Layered env (s.children w) := by
    rw [Scene.children, h.settled.root]
    exact h.settled.layered
  have hdeclared := htells.isDeclaration (fun n hn hid => h.settled.inner hn hid) hlayered (by simp)
  obtain ⟨t₁, hgoes₁, ht₁, hworld₁, hscene₁, hc₁⟩ := goes_opening hcatalog hgoes Scene.isOpening_of_mem hc htokens
  obtain ⟨t₂, hgoes₂, ht₂, hadvances⟩ :=
    goes_outlines hsource hcatalog hgoes htells List.suffix_rfl hdeclared hc₁ ht₁
  have hsubset : (s.nodes w).reverse ⊆ s.nodes w := fun id hid => List.mem_reverse.1 hid
  have hrouted : ∀ id ∈ (s.nodes w).reverse, IsRouted ctx w (s.namesFor w) (s.nodes w) t₂.world id [] :=
    fun id hid => (hadvances.made id hid (by simp)).isRouted hsource (hsubset hid)
  have hrs : ∀ r ∈ s.routesWithin w, IsWritten w (s.namesFor w) (s.nodes w).reverse r := fun r hr => by
    obtain ⟨-, hr⟩ := h.settled.isWritten hr
    exact { hr with source := List.mem_reverse.2 hr.source, target := List.mem_reverse.2 hr.target }
  rw [← List.append_nil (List.flatMap _ _)] at ht₂
  obtain ⟨t, hgoes₃, ht, hscene, hc', hquiet, hall⟩ :=
    goes_routes hsource hcatalog hgoes hsubset hrs hadvances.copying hrouted ht₂
  have hrun := ((hgoes₁.trans hgoes₂).trans hgoes₃).finish ht
  rw [List.append_nil, List.nil_append] at hrun
  refine ⟨t, hrun, fun hx3d => ?_, (hworld₁ ▸ hadvances.quiet).trans hquiet, hc', fun id hid => ?_⟩
  · rw [hscene, hadvances.scene, hscene₁]
    exact Scene.foldl_openingTexts hx3d h.settled.tidy.keys hprofile hmetadata
  · have hcopy := hall id (List.mem_reverse.2 hid)
    rw [List.nil_append] at hcopy
    exact hcopy.exists_copied h.settled hid

end Reader

end SceneGraph
