import SceneGraph.Proofs.Document.Isolation
import SceneGraph.Proofs.Document.Outlining

/-!
# The text of a scene

What the document of a scene that was read looks like to a reader: its header line, the statements about
the document as a whole (`Scene.openingTexts`), the tokens of its outline, and its routes
(`Scene.routeTexts`).

* `Scene.IsSettled.tokens_text`: the text of a scene is lexed into these tokens.
-/

namespace SceneGraph

open Numeral (Loose startsWith)

variable {header : Header} {env : Environment} {w : World} {n : Node}

/-! ### What can be written -/

/-- The names of the built-in types and of their fields are words under every header. -/
theorem isIdentifier_standard (header : Header) : ∀ t ∈ Catalog.standard,
    IsIdentifier (some header) t.name ∧ ∀ e ∈ t.fields, IsIdentifier (some header) e.name := by
  cases header <;> decide +kernel

/-- A name made of a type and an id is a word. -/
theorem isIdentifier_generated (header : Option Header) {typeName : String}
    (h : IsIdentifier header typeName) (id : NodeId) : IsIdentifier header s!"{typeName}_{id}" := by
  have hlist : (s!"{typeName}_{id}").toList = typeName.toList ++ '_' :: Nat.toDigits 10 id.value := by
    change (typeName ++ "_" ++ id.value.repr).toList = _
    simp [Nat.repr_eq_ofList_toDigits]
  obtain ⟨hstart, hparts, -⟩ := h
  refine ⟨?_, ?_, ?_⟩
  · rw [hlist]
    cases hname : typeName.toList with
    | nil => rw [hname] at hstart; cases hstart
    | cons c cs => rw [hname] at hstart; exact hstart
  · have hdigits : ∀ c ∈ Nat.toDigits 10 id.value, isWordPart c = true := fun c hc => by
      rw [isWordPart, Nat.isDigit_of_mem_toDigits (by decide) (by decide) hc, Bool.or_true]
    rw [hlist, List.all_append, hparts, List.all_cons, List.all_eq_true.2 hdigits]
    decide
  · -- no keyword has an underscore
    have hwords : ∀ k ∈ Keyword.all, '_' ∉ k.word.toList := by decide +kernel
    refine Option.eq_none_iff_forall_ne_some.2 fun k hk => hwords k k.mem_all ?_
    rw [← (Keyword.ofWord?_eq_some_iff.1 hk).1, hlist]
    simp

namespace Node

theorem name_of_kind? {name : String} {k : Kind} (h : n.kind? name = some k) :
    (∃ e ∈ n.spec.entries, e.name = name) ∨ ∃ e ∈ n.dynamic, e.1 = name := by
  unfold kind? at h
  split at h
  · rename_i e he
    exact .inl ⟨e, List.mem_of_find?_eq_some he, by simpa using List.find?_some he⟩
  · obtain ⟨f, hf, -⟩ := Option.map_eq_some_iff.1 h
    obtain ⟨e, he, -⟩ := Option.map_eq_some_iff.1 hf
    exact .inr ⟨e, List.mem_of_find?_eq_some he, by simpa using List.find?_some he⟩

/-- What a written field of the node's type is. -/
theorem exists_of_mem_writtenFields {f : String × Field} (hf : f ∈ Outliner.writtenFields n) :
    ∃ e ∈ n.spec.entries, e.name = f.1 ∧ n.field? f.1 = some f.2 := by
  obtain ⟨e, he, hwritten⟩ := List.mem_filterMap.1 hf
  split at hwritten
  · cases hwritten
  split at hwritten
  · rename_i value hvalue
    split at hwritten
    · cases hwritten
    · obtain rfl := Option.some.inj hwritten
      exact ⟨e, he, rfl, hvalue⟩
  · cases hwritten

/-- A field that is written is one of the node's. -/
theorem mem_allFields_of_mem_written {f : WrittenField} (hf : f ∈ n.written) : f.value ∈ n.allFields := by
  rcases List.mem_append.1 hf with hf | hf
  · obtain ⟨g, hg, rfl⟩ := List.mem_map.1 hf
    obtain ⟨e, -, -, hvalue⟩ := exists_of_mem_writtenFields hg
    exact mem_allFields_of_field? hvalue
  · obtain ⟨e, he, rfl⟩ := List.mem_map.1 hf
    exact List.mem_append_right _ (List.mem_map_of_mem he)

namespace IsDraft

theorem isIdentifier_typeName (h : n.IsDraft header env) : IsIdentifier (some header) n.typeName := by
  obtain ⟨t, ht, hspec, -⟩ := h.typed
  rw [typeName, hspec]
  exact (isIdentifier_standard header t ht).1

/-- The names of the fields of a draft are words. -/
theorem isIdentifier_field (h : n.IsDraft header env) {name : String} :
    ((∃ e ∈ n.spec.entries, e.name = name) ∨ ∃ e ∈ n.dynamic, e.1 = name) →
      IsIdentifier (some header) name := by
  rintro (⟨e, he, rfl⟩ | ⟨e, he, rfl⟩)
  · obtain ⟨t, ht, hspec, -⟩ := h.typed
    rw [hspec] at he
    exact (isIdentifier_standard header t ht).2 e he
  · exact (h.own e he).name

/-- A draft can be written. -/
theorem isLegible (h : n.IsDraft header env) (hreads : ∀ f ∈ n.allFields, f.ReadsBack) :
    n.IsLegible (some header) where
  typeName := h.isIdentifier_typeName
  fields f hf := by
    have hvalue := hreads f.value (mem_allFields_of_mem_written hf)
    rcases List.mem_append.1 hf with hf | hf
    · obtain ⟨g, hg, rfl⟩ := List.mem_map.1 hf
      obtain ⟨e, he, hname, -⟩ := exists_of_mem_writtenFields hg
      exact ⟨h.isIdentifier_field (.inl ⟨e, he, hname⟩), nofun, fun _ => hvalue⟩
    · obtain ⟨e, he, rfl⟩ := List.mem_map.1 hf
      exact ⟨(h.own e he).name, fun _ => (h.own e he).kind, fun _ => hvalue⟩

end IsDraft

end Node

/-! ### The parts of the text -/

namespace Scene

variable {s : Scene} {id : NodeId}

/-- A route as the document of a scene writes it, if both its ends have names. -/
def routeText? (names : NodeNames) (r : NodeId × String × Route) : Option RouteText :=
  (names.name? r.1).bind fun source =>
    (names.name? r.2.2.target).map fun target => ⟨source, r.2.1, target, r.2.2.field⟩

/-- The routes that the document of a scene writes. -/
def routeTexts (s : Scene) (w : World) : List RouteText :=
  (s.innerRoutes w).filterMap (routeText? (s.namesFor w))

/-- The statements about a document as a whole. -/
def openingTexts (s : Scene) (header : Header) : List StatementText :=
  if header.isX3d then
    s.profile.elim [] (fun p => [.profile p]) ++ s.metadata.map fun (k, v) => .metadata k v
  else []

/-- What follows the header line. -/
def afterHeader (s : Scene) (w : World) (header : Header) : String :=
  (if header.isX3d then
    s.profile.elim "" (fun p => "PROFILE " ++ p ++ "\n") ++
      String.join (s.metadata.map fun (k, v) =>
        "META " ++ spellString k ++ " " ++ spellString v ++ "\n")
  else "") ++ (String.join ((s.outline w header).1.map fun n => "\n" ++ n.text 0 ++ "\n") ++ s.routeLines w)

theorem text_eq (s : Scene) (w : World) (header : Header) :
    s.text w header = header.line ++ "\n" ++ s.afterHeader w header := by
  rw [text, preamble, afterHeader]
  simp only [String.append_assoc]

theorem tokensOf_break (cs : List Char) :
    tokensOf (some header) ("\n".toList ++ cs) = tokensOf (some header) cs :=
  tokensOf_separator (by decide) cs

theorem loose_break (cs : List Char) : Loose ("\n".toList ++ cs) := .of_ne (by decide)

theorem tokensOf_metadata (hx3d : header.isX3d = true) (entries : List (String × String))
    (rest : List Char) :
    tokensOf (some header) ((String.join (entries.map fun (k, v) =>
        "META " ++ spellString k ++ " " ++ spellString v ++ "\n")).toList ++ rest) =
      (entries.map fun (k, v) => StatementText.metadata k v).flatMap (·.tokens) ++
        tokensOf (some header) rest := by
  induction entries with
  | nil => rfl
  | cons e entries ih =>
    have hmeta : ∀ cs, tokensOf (some header) ("META ".toList ++ cs) =
        .keyword .metadata :: tokensOf (some header) cs :=
      tokensOf_keyword_space (by decide) hx3d
    rw [List.map_cons, String.join_cons, List.map_cons, List.flatMap_cons]
    simp only [String.toList_append, List.append_assoc]
    rw [hmeta, tokensOf_string, tokensOf_space, tokensOf_string, tokensOf_break, ih]
    rfl

theorem tokensOf_opening (hprofile : ∀ p ∈ s.profile, IsIdentifier (some header) p) (rest : List Char) :
    tokensOf (some header) ((if header.isX3d then
        s.profile.elim "" (fun p => "PROFILE " ++ p ++ "\n") ++
          String.join (s.metadata.map fun (k, v) =>
            "META " ++ spellString k ++ " " ++ spellString v ++ "\n")
      else "").toList ++ rest) =
      (s.openingTexts header).flatMap (·.tokens) ++ tokensOf (some header) rest := by
  unfold openingTexts
  split
  · rename_i hx3d
    rw [String.toList_append, List.append_assoc, List.flatMap_append, List.append_assoc,
      ← tokensOf_metadata hx3d]
    cases hp : s.profile with
    | none => rfl
    | some p =>
      have hidentifier := hprofile p (hp ▸ rfl)
      have hkeyword : ∀ cs, tokensOf (some header) ("PROFILE ".toList ++ cs) =
          .keyword .profile :: tokensOf (some header) cs :=
        tokensOf_keyword_space (by decide) hx3d
      simp only [Option.elim_some, String.toList_append, List.append_assoc]
      rw [hkeyword, tokensOf_identifier hidentifier (loose_break _).wordPart, tokensOf_break]
      rfl
  · rfl

/-- The outlines of nodes, each between line breaks. -/
theorem tokensOf_outlines {names : NodeNames} {before after : List NodeId} {os : List NodeOutline}
    {ids : List NodeId} (h : NodeOutline.TellAll w names before os ids after)
    (hnames : ∀ e ∈ names, IsIdentifier (some header) e.2)
    (hlegible : ∀ id ∈ after, ∀ n, w.node? id = some n → n.IsLegible (some header)) (rest : List Char) :
    tokensOf (some header) ((String.join (os.map fun n => "\n" ++ n.text 0 ++ "\n")).toList ++ rest) =
      NodeOutline.allTokens (some header) os ++ tokensOf (some header) rest :=
  match h with
  | .nil _ => rfl
  | .cons hnode hrest => by
    have hmore := tokensOf_outlines hrest hnames hlegible rest
    have hlegible' := fun id hid => hlegible id (hrest.suffix.subset hid)
    rw [List.map_cons, String.join_cons, NodeOutline.allTokens]
    simp only [String.toList_append, List.append_assoc]
    rw [tokensOf_break, hnode.tokensOf_text hnames hlegible' 0 (loose_break _), tokensOf_break, hmore]

/-- The line of a route, if it has one. -/
theorem tokensOf_routeLine {names : NodeNames} (hnames : ∀ e ∈ names, IsIdentifier (some header) e.2)
    (r : NodeId × String × Route)
    (hfields : ∀ t, routeText? names r = some t →
      IsIdentifier (some header) t.output ∧ IsIdentifier (some header) t.input) (rest : List Char) :
    tokensOf (some header) ((routeLine names r).toList ++ rest) =
      (routeText? names r).elim [] (fun t => (StatementText.route t).tokens) ++
        tokensOf (some header) rest := by
  cases hsource : names.name? r.1 with
  | none => simp [routeText?, routeLine, hsource]
  | some source =>
  cases htarget : names.name? r.2.2.target with
  | none => simp [routeText?, routeLine, hsource, htarget]
  | some target =>
    have htext : routeText? names r = some ⟨source, r.2.1, target, r.2.2.field⟩ := by
      simp [routeText?, hsource, htarget]
    obtain ⟨houtput, hinput⟩ := hfields _ htext
    have hdot : ∀ {name : String}, IsIdentifier (some header) name → ∀ cs, startsWith isWordPart cs = false →
        tokensOf (some header) (".".toList ++ (name.toList ++ cs)) =
          .symbol .dot :: .identifier name :: tokensOf (some header) cs := by
      intro name hname cs hcs
      -- a word follows the point, so the point starts no numeral
      have hdigit : startsWith Char.isDigit (name.toList ++ cs) = false := by
        have hstart := hname.start
        cases hlist : name.toList with
        | nil => rw [hlist] at hstart; cases hstart
        | cons c r =>
          rw [hlist] at hstart
          exact isDigit_of_isWordStart hstart
      rw [← tokensOf_identifier hname hcs]
      exact tokensOf_symbol .dot fun _ => hdigit
    have hroute : ∀ cs, tokensOf (some header) ("ROUTE ".toList ++ cs) =
        .keyword .route :: tokensOf (some header) cs :=
      tokensOf_keyword_space (by decide) rfl
    have hto : ∀ cs, tokensOf (some header) (" TO ".toList ++ cs) =
        .keyword .destination :: tokensOf (some header) cs := fun cs =>
      (tokensOf_separator (by decide) _).trans
        (tokensOf_keyword_space (k := .destination) (s := "TO ") (by decide) rfl cs)
    have hpoint : ∀ cs, startsWith isWordPart (".".toList ++ cs) = false := fun cs => rfl
    have hline : (routeLine names r).toList ++ rest =
        "ROUTE ".toList ++ (source.toList ++ (".".toList ++ (r.2.1.toList ++ (" TO ".toList ++
          (target.toList ++ (".".toList ++ (r.2.2.field.toList ++ ("\n".toList ++ rest)))))))) := by
      simp only [routeLine, hsource, htarget, toString, String.toList_append, List.append_assoc]
    rw [hline, htext, hroute, tokensOf_identifier (hnames _ (NodeNames.mem_of_name? hsource)) (hpoint _),
      hdot houtput _ rfl, hto, tokensOf_identifier (hnames _ (NodeNames.mem_of_name? htarget)) (hpoint _),
      hdot hinput _ rfl, tokensOf_break]
    rfl

theorem tokensOf_routeLines {names : NodeNames} (hnames : ∀ e ∈ names, IsIdentifier (some header) e.2)
    (routes : List (NodeId × String × Route))
    (hfields : ∀ r ∈ routes, ∀ t, routeText? names r = some t →
      IsIdentifier (some header) t.output ∧ IsIdentifier (some header) t.input) :
    tokensOf (some header) (String.join (routes.map (routeLine names))).toList =
      (routes.filterMap (routeText? names)).flatMap fun t => (StatementText.route t).tokens := by
  induction routes with
  | nil => rfl
  | cons r routes ih =>
    obtain ⟨hr, hroutes⟩ := List.forall_mem_cons.1 hfields
    rw [List.map_cons, String.join_cons, String.toList_append, tokensOf_routeLine hnames r hr, ih hroutes,
      List.filterMap_cons]
    cases routeText? names r <;> rfl

namespace IsSettled

/-- A node of the scene is a draft. -/
theorem exists_draft (h : s.IsSettled header env w) (hid : id ∈ s.nodes w) :
    ∃ n, w.node? id = some n ∧ n.IsDraft header env := by
  obtain ⟨hinner, hlive⟩ := h.isLive_of_mem_nodes hid
  obtain ⟨n, hn⟩ := World.isLive_iff.1 hlive
  exact ⟨n, hn, h.drafts n (World.mem_nodes_of_node? hn) (World.id_of_node? hn ▸ hinner)⟩

theorem mem_nodes_of_name? {name : String} (hname : (s.namesFor w).name? id = some name) :
    id ∈ s.nodes w := by
  rw [name?_namesFor] at hname
  split at hname
  · assumption
  · cases hname

theorem isIdentifier_namesFor (h : s.IsSettled header env w) :
    ∀ e ∈ s.namesFor w, IsIdentifier (some header) e.2 := by
  intro e he
  obtain ⟨id, hid, hentry⟩ := List.mem_filterMap.1 he
  obtain ⟨name, hname, rfl⟩ := Option.map_eq_some_iff.1 hentry
  obtain ⟨n, hn, hdraft⟩ := h.exists_draft hid
  rw [hn, Option.bind_some, nameFor] at hname
  split at hname
  · rename_i hnamed
    obtain rfl := Option.some.inj hname
    exact hdraft.name.resolve_left hnamed
  · split at hname
    · obtain rfl := Option.some.inj hname
      exact isIdentifier_generated _ hdraft.isIdentifier_typeName n.id
    · cases hname

/-- A route between nodes of the scene leads where it may. -/
theorem exists_feeds (h : s.IsSettled header env w) {r : NodeId × String × Route} (hr : r ∈ s.routes w)
    (htarget : r.2.2.target ∈ s.nodes w) :
    ∃ a b, w.node? r.1 = some a ∧ w.node? r.2.2.target = some b ∧ r.1 ∈ s.nodes w ∧
      a.Feeds r.2.1 b r.2.2.field := by
  obtain ⟨bound, hchildren, hclosed, hfit⟩ := h.routes
  have hbound : ∀ {id}, id ∈ s.nodes w → id.value < bound := by
    intro id hid
    obtain ⟨c, hc, hway⟩ := exists_of_mem_preorder hid
    rw [h.references_root, Scene.children, h.root] at hc
    have hboth : env.scene.value < id.value ∧ id.value < bound := by
      clear hid
      induction hway with
      | refl => exact ⟨h.layered.inner c hc, hchildren c hc⟩
      | tail _ hstep ih =>
        obtain ⟨n, hn, hr⟩ := World.Refers.exists_node hstep
        have hmem := World.mem_nodes_of_node? hn
        rw [← World.id_of_node? hn] at ih
        exact ⟨h.inner hmem ih.1 _ hr, hclosed n hmem ih.1 ih.2 _ hr⟩
    exact hboth.2
  obtain ⟨source, hsource, hr⟩ := List.mem_flatMap.1 hr
  obtain ⟨⟨output, route⟩, hc, rfl⟩ := List.mem_map.1 hr
  rcases List.mem_cons.1 hsource with rfl | hsource
  · -- no route leaves the root
    obtain ⟨n, hn, hroutes, -⟩ := h.top
    rw [h.root, hn] at hc
    change (output, route) ∈ n.connections at hc
    rw [Node.connections, hroutes] at hc
    cases hc
  · obtain ⟨a, ha, -⟩ := h.exists_draft hsource
    obtain ⟨b, hb, -⟩ := h.exists_draft htarget
    rw [ha] at hc
    refine ⟨a, b, ha, hb, hsource, hfit a (World.mem_nodes_of_node? ha) ?_ ?_ (output, route) hc b
      (World.mem_nodes_of_node? hb) (World.id_of_node? hb) ?_⟩
    · rw [World.id_of_node? ha]
      exact (h.isLive_of_mem_nodes hsource).1
    · rw [World.id_of_node? ha]
      exact hbound hsource
    · rw [World.id_of_node? hb]
      exact hbound htarget

/-- The fields that a written route leads between are named by words. -/
theorem isIdentifier_routeText (h : s.IsSettled header env w) {r : NodeId × String × Route}
    (hr : r ∈ s.routes w) {t : RouteText} (ht : routeText? (s.namesFor w) r = some t) :
    IsIdentifier (some header) t.output ∧ IsIdentifier (some header) t.input := by
  obtain ⟨source, -, ht⟩ := Option.bind_eq_some_iff.1 ht
  obtain ⟨target, htarget, rfl⟩ := Option.map_eq_some_iff.1 ht
  obtain ⟨a, b, ha, hb, hmem, ⟨k, hk, hk'⟩, -, -⟩ := h.exists_feeds hr (mem_nodes_of_name? htarget)
  obtain ⟨a', ha', hdraft⟩ := h.exists_draft hmem
  obtain ⟨b', hb', hdraft'⟩ := h.exists_draft (mem_nodes_of_name? htarget)
  obtain rfl := Option.some.inj (ha.symm.trans ha')
  obtain rfl := Option.some.inj (hb.symm.trans hb')
  exact ⟨hdraft.isIdentifier_field (Node.name_of_kind? hk), hdraft'.isIdentifier_field (Node.name_of_kind? hk')⟩

/-- **The text of a scene is lexed into the tokens of its parts.** -/
theorem tokens_text (h : s.IsSettled header env w)
    (hhides : ∀ id ∈ s.nodes w, ∀ n, w.node? id = some n → ¬ n.HidesNodes)
    (hreads : ∀ id ∈ s.nodes w, ∀ n, w.node? id = some n → ∀ f ∈ n.allFields, f.ReadsBack) :
    tokensOf (some header) (s.afterHeader w header).toList =
      (s.openingTexts header).flatMap (·.tokens) ++
        (NodeOutline.allTokens (some header) (s.outline w header).1 ++
          (s.routeTexts w).flatMap fun t => (StatementText.route t).tokens) := by
  obtain ⟨htells, -⟩ := h.tells_outline hhides
  have hlegible : ∀ id ∈ (s.nodes w).reverse, ∀ n, w.node? id = some n → n.IsLegible (some header) := by
    intro id hid n hn
    have hmem := List.mem_reverse.1 hid
    obtain ⟨m, hm, hdraft⟩ := h.exists_draft hmem
    obtain rfl := Option.some.inj (hn.symm.trans hm)
    exact hdraft.isLegible (hreads id hmem n hn)
  rw [afterHeader, String.toList_append, tokensOf_opening h.tidy.profile, String.toList_append,
    tokensOf_outlines htells h.isIdentifier_namesFor hlegible, routeLines]
  congr 2
  have hroutes := tokensOf_routeLines h.isIdentifier_namesFor (s.innerRoutes w) fun r hr _ ht =>
    h.isIdentifier_routeText (List.mem_filter.1 hr).1 ht
  split
  · rename_i hnone
    rw [routeTexts, List.isEmpty_iff.1 hnone]
    rfl
  · rw [String.toList_append, tokensOf_break, hroutes]
    rfl

end IsSettled

end Scene

namespace Document

/-- The header line of a text is its first line. -/
theorem readLine_text (s : Scene) (w : World) (header : Header) :
    (Cursor.ofText (s.text w header)).readLine.1 = header.line ∧
      (Cursor.ofText (s.text w header)).readLine.2.rest = (s.afterHeader w header).toList := by
  have hchars : startsWith (· == '#') header.line.toList = true ∧
      header.line.toList.all (· != '\n') = true ∧
        (header.line.toList.reverse.dropWhile (· == '\r')).reverse = header.line.toList := by
    cases header <;> decide
  obtain ⟨hhash, hline, hend⟩ := hchars
  have hlist : (s.text w header).toList = header.line.toList ++ '\n' :: (s.afterHeader w header).toList := by
    rw [Scene.text_eq, String.toList_append, String.toList_append, List.append_assoc]
    rfl
  have hcursor : Cursor.ofText (s.text w header) = ⟨(s.text w header).toList, 0, .start⟩ := by
    unfold Cursor.ofText
    rw [hlist]
    cases hcs : header.line.toList with
    | nil => rw [hcs] at hhash; cases hhash
    | cons c cs =>
      rw [hcs] at hhash
      obtain rfl := beq_iff_eq.1 hhash
      rfl
  have hspan : (s.text w header).toList.span (· != '\n') =
      (header.line.toList, '\n' :: (s.afterHeader w header).toList) := by
    rw [hlist, Numeral.span_append rfl, Numeral.span_of_all (List.all_eq_true.1 hline)]
    rfl
  rw [hcursor]
  unfold Cursor.readLine
  rw [hspan]
  refine ⟨?_, rfl⟩
  change String.ofList (header.line.toList.reverse.dropWhile (· == '\r')).reverse = header.line
  rw [hend, String.ofList_toList]

variable {d : Document} {s : Scene}

/-- The text of a scene has the header that it was written with. -/
theorem header_of_text (htext : d.text = s.text w header)
    (hcheck : ∀ required ∈ d.check.required? d.file, required = header) : d.header = .ok header := by
  unfold Document.header
  rw [htext, (readLine_text s w header).1]
  dsimp only
  rw [Header.ofLine?_line]
  dsimp only
  cases hrequired : d.check.required? d.file with
  | none => rfl
  | some required =>
    dsimp only
    rw [hcheck required hrequired, if_neg (not_not.2 rfl)]

theorem tokens_of_text (htext : d.text = s.text w header) :
    d.tokens header = tokensOf (some header) (s.afterHeader w header).toList := by
  rw [tokens, htext, (readLine_text s w header).2]

end Document

end SceneGraph
