import SceneGraph.Proofs.Cascade.SettingUp
import SceneGraph.Proofs.World.Reachable

/-!
# Fields keep their names and their kinds

The fields of a node are found by name in two tables, that of its type and that of its own fields. No name
stands in both, or twice in one, and whatever happens to a node, its fields keep the kinds that they had
from the beginning.

* `Node.Inherent`, `Reachable.inherent`: what nodes keep however they are edited holds at every moment of a run.
* `Node.Tabled`: the tables of a node agree with its layout and with each other.
* `Reachable.usable`: nodes are only made of types whose fields have distinct names.
* `Reachable.tabled`: the tables of all nodes are in order at every moment of a run.
-/

namespace SceneGraph

namespace Node

variable {m n : Node} {name : String} {k : Kind}

/-! ### Editing a node -/

/-- What is done to the fields and routes that a node has. -/
inductive Edit : Node → Node → Prop
  | extended (n : Node) (name : String) (value : Field) (hnew : n.hasField name = false) :
      Edit n { n with dynamic := n.dynamic ++ [(name, value)] }
  | reduced (n : Node) (name : String) :
      Edit n { n with
        dynamic := n.dynamic.filter (·.1 != name)
        routes := n.routes.filter (·.1 != name) }
  | connected (n : Node) (output : String) (route : Route) : Edit n (n.addConnection output route).2
  | disconnected (n : Node) (output : String) (route : Route) : Edit n (n.removeConnection output route).2
  | forgotten (n : Node) : Edit n n.forget

/-- What a node has from the beginning and keeps as it is edited, and what depends on nothing else. -/
structure Inherent (P : Node → Prop) : Prop where
  fresh : ∀ id spec b env, P (.fresh id spec b env)
  resembles : ∀ {m n : Node}, m.Resembles n → P n → P m
  edit : ∀ {n m : Node}, n.Edit m → P n → P m

/-! ### The tables of a node -/

/-- The names of a node's own fields are distinct, and none is the name of a field of its type. -/
structure Distinct (n : Node) : Prop where
  names : n.dynamicNames.Nodup
  new : ∀ name ∈ n.dynamicNames, n.spec.index? name = none

/-- A node has a field for every entry of its layout, at the place of the entry and of the kind of its
first value. All names are distinct, and the ways to ask for a field by its name agree. -/
structure Tabled (n : Node) : Prop where
  kinds : n.fields.map (·.kind) = n.spec.entries.map (·.initial.kind)
  names : n.fieldNames.Nodup
  /-- The fields of the type. -/
  given : ∀ (i : Nat) (e : FieldSpec), n.spec.entries[i]? = some e →
    ∃ f, n.fields[i]? = some f ∧ n.field e.name = .ok f ∧ f.kind = e.initial.kind ∧
      n.kind? e.name = some e.initial.kind ∧ n.access? e.name = some e.access
  /-- The fields of the node's own. -/
  own : ∀ e ∈ n.dynamic, n.field e.1 = .ok e.2 ∧ n.kind? e.1 = some e.2.kind ∧ n.access? e.1 = some .getSet
  agree : ∀ name,
    (n.hasField name = true ∧ ∃ f a, n.field name = .ok f ∧ n.kind? name = some f.kind ∧ n.access? name = some a) ∨
    (n.hasField name = false ∧ n.field name = .error (n.notFound name) ∧ n.kind? name = none ∧
      n.access? name = none)

theorem field_eq_ok {f : Field} (h : n.field? name = some f) : n.field name = .ok f := by
  rw [field, h]

/-- What an own name means, if it is no name of the type. -/
theorem field?_own (hnew : n.spec.index? name = none) : n.field? name = n.dynamicField? name := by
  rw [field?, hnew]

theorem access?_own (hnew : n.spec.index? name = none) :
    n.access? name = (n.dynamicField? name).map fun _ => .getSet := by
  rw [access?, Specification.entry?_eq_none_iff.2 hnew]

theorem kind?_own (hnew : n.spec.index? name = none) :
    n.kind? name = (n.dynamicField? name).map (·.kind) := by
  rw [kind?, Specification.entry?_eq_none_iff.2 hnew]

theorem Distinct.find?_own (h : n.Distinct) {e : String × Field} (he : e ∈ n.dynamic) :
    n.dynamicField? e.1 = some e.2 := by
  have hfound : n.dynamic.find? (·.1 == e.1) = some e := by
    obtain ⟨before, after, heq⟩ := List.append_of_mem he
    have hnames := h.names
    rw [dynamicNames, heq, List.map_append, List.map_cons, List.nodup_append] at hnames
    rw [heq, List.find?_append, List.find?_eq_none.2, Option.none_or, List.find?_cons_of_pos (by simp)]
    intro d hd hname
    exact hnames.2.2 d.1 (List.mem_map_of_mem hd) e.1 List.mem_cons_self (beq_iff_eq.1 hname)
  rw [dynamicField?, hfound]
  rfl

/-- A node that takes over a value refers to all that it referred to before, but for the references of the
value that it replaces. -/
theorem Distinct.references_subset_store (h : n.Distinct) {name : String} {old : Field}
    (hold : n.field? name = some old) (value : Field) :
    n.references ⊆ (n.store name value).references ++ old.references := by
  intro r hr
  obtain ⟨f, hf, hrf⟩ := List.mem_flatMap.1 hr
  have hkept : f = old ∨ f ∈ (n.store name value).allFields := by
    unfold store
    cases hindex : n.spec.index? name with
    | some i =>
      rw [Node.field?, hindex] at hold
      dsimp only at hold ⊢
      rcases List.mem_append.1 hf with hf | hf
      · obtain ⟨j, hj, rfl⟩ := List.getElem_of_mem hf
        by_cases hij : j = i
        · subst hij
          exact .inl (Option.some.inj ((List.getElem?_eq_getElem hj).symm.trans hold))
        · refine .inr (List.mem_append_left _ (List.mem_iff_getElem.2 ⟨j, by simpa using hj, ?_⟩))
          exact List.getElem_set_ne (Ne.symm hij) _
      · exact .inr (List.mem_append_right _ hf)
    | none =>
      rw [field?_own hindex] at hold
      rcases List.mem_append.1 hf with hf | hf
      · exact .inr (List.mem_append_left _ hf)
      · obtain ⟨⟨key, f⟩, he, rfl⟩ := List.mem_map.1 hf
        by_cases hkey : key = name
        · have hfound := h.find?_own he
          rw [hkey, hold] at hfound
          exact .inl (Option.some.inj hfound).symm
        · refine .inr (List.mem_append_right _ ?_)
          rw [List.map_map]
          refine List.mem_map.2 ⟨(key, f), he, ?_⟩
          simp [hkey]
  rcases hkept with rfl | hf
  · exact List.mem_append_right _ hrf
  · exact List.mem_append_left _ (List.mem_flatMap.2 ⟨f, hf, hrf⟩)

/-- A node whose list is replaced loses at most those that the new list leaves out. -/
theorem Distinct.mem_references_store (h : n.Distinct) {name : String} {old : Field}
    (hold : n.field? name = some old) (new : List NodeId) (time : Timestamp) {r : NodeId} (hmem : r ∈ n.references) :
    r ∈ (n.store name (.nodes new time)).references ∨ r ∈ old.references ∧ r ∉ new := by
  rcases List.mem_append.1 (h.references_subset_store hold (.nodes new time) hmem) with hkept | hlisted
  · exact .inl hkept
  by_cases hnew : r ∈ new
  · have hfield := field?_store n name name (.nodes new time)
    rw [if_pos rfl, hold] at hfield
    exact .inl (references_subset_of_field? hfield (by rwa [Field.references_nodes]))
  · exact .inr ⟨hlisted, hnew⟩

/-- **A node with distinct names is in order**: whoever asks for a field by its name gets the field at the
place of that name. -/
theorem Distinct.tabled (h : n.Distinct) (hnames : n.spec.names.Nodup)
    (hkinds : n.fields.map (·.kind) = n.spec.entries.map (·.initial.kind)) : n.Tabled := by
  have hlength : n.fields.length = n.spec.entries.length := by simpa using congrArg List.length hkinds
  have hgiven : ∀ (i : Nat) (e : FieldSpec), n.spec.entries[i]? = some e →
      ∃ f, n.fields[i]? = some f ∧ n.field e.name = .ok f ∧ f.kind = e.initial.kind ∧
        n.kind? e.name = some e.initial.kind ∧ n.access? e.name = some e.access := by
    intro i e he
    obtain ⟨hi, rfl⟩ := List.getElem?_eq_some_iff.1 he
    have hindex : n.spec.index? n.spec.entries[i].name = some i := Specification.index?_getElem hnames hi
    obtain ⟨_, hentry, _⟩ := Specification.entry?_of_index? hindex
    have hfield : n.fields[i]? = some n.fields[i] := List.getElem?_eq_getElem (hlength ▸ hi)
    have hkind : n.fields[i].kind = n.spec.entries[i].initial.kind := by
      have hat := congrArg (·[i]?) hkinds
      simpa [hfield, he] using hat
    refine ⟨n.fields[i], hfield, field_eq_ok ?_, hkind, ?_, ?_⟩
    · rw [field?, hindex]
      exact hfield
    · rw [kind?, hentry]
    · rw [access?, hentry]
  have hown : ∀ e ∈ n.dynamic, n.field e.1 = .ok e.2 ∧ n.kind? e.1 = some e.2.kind ∧
      n.access? e.1 = some .getSet := by
    intro e he
    have hnew := h.new e.1 (List.mem_map_of_mem he)
    have hfound := h.find?_own he
    refine ⟨field_eq_ok ?_, ?_, ?_⟩
    · rw [field?_own hnew, hfound]
    · rw [kind?_own hnew, hfound]
      rfl
    · rw [access?_own hnew, hfound]
      rfl
  refine ⟨hkinds, ?_, hgiven, hown, fun name => ?_⟩
  · refine List.nodup_append.2 ⟨hnames, h.names, fun a ha b hb hab => ?_⟩
    obtain ⟨e, he, rfl⟩ := List.mem_map.1 ha
    have hnone := h.new b hb
    rw [← hab, Specification.index?, List.findIdx?_eq_none_iff] at hnone
    simpa using hnone e he
  · cases hfield : n.hasField name with
    | false =>
      obtain ⟨hindex, hnone⟩ := hasField_eq_false.1 hfield
      refine .inr ⟨rfl, ?_, ?_, ?_⟩
      · rw [field, field?_own hindex, hnone]
      · rw [kind?_own hindex, hnone]
        rfl
      · rw [access?_own hindex, hnone]
        rfl
    | true =>
      refine .inl ⟨rfl, ?_⟩
      cases hindex : n.spec.index? name with
      | some i =>
        -- a field of the type
        obtain ⟨hi, -, hname⟩ := Specification.entry?_of_index? hindex
        obtain ⟨f, -, hf, hkind, hk, ha⟩ := hgiven i _ (List.getElem?_eq_getElem hi)
        rw [hname] at hf hk ha
        exact ⟨f, _, hf, hkind ▸ hk, ha⟩
      | none =>
        -- a field of the node's own
        obtain ⟨f, hf⟩ : ∃ f, n.dynamicField? name = some f := by
          rw [hasField, Specification.hasField, Specification.entry?_eq_none_iff.2 hindex] at hfield
          exact Option.isSome_iff_exists.1 hfield
        refine ⟨f, .getSet, field_eq_ok ?_, ?_, ?_⟩
        · rw [field?_own hindex, hf]
        · rw [kind?_own hindex, hf]
          rfl
        · rw [access?_own hindex, hf]
          rfl

namespace Distinct

theorem fresh (id : NodeId) (spec : Specification) (b : Behavior) (env : Environment) :
    (Node.fresh id spec b env).Distinct := ⟨List.nodup_nil, fun _ h => by cases h⟩

theorem of_names (h : n.Distinct) (hspec : m.spec = n.spec) (hsub : m.dynamicNames.Sublist n.dynamicNames) :
    m.Distinct :=
  ⟨h.names.sublist hsub, fun name hname => hspec ▸ h.new name (hsub.subset hname)⟩

theorem resembles (h : n.Distinct) (hm : m.Resembles n) : m.Distinct :=
  h.of_names hm.spec (hm.ownNames ▸ List.Sublist.refl _)

/-- A field that is added has a new name. -/
theorem extend (h : n.Distinct) (value : Field) (hnew : n.hasField name = false) :
    { n with dynamic := n.dynamic ++ [(name, value)] }.Distinct := by
  obtain ⟨hindex, hnone⟩ := hasField_eq_false.1 hnew
  have hfree : name ∉ n.dynamicNames := by
    intro hmem
    obtain ⟨e, he, hname⟩ := List.mem_map.1 hmem
    rw [dynamicField?, Option.map_eq_none_iff, List.find?_eq_none] at hnone
    exact hnone e he (by simpa using hname)
  have hnames : ({ n with dynamic := n.dynamic ++ [(name, value)] } : Node).dynamicNames =
      n.dynamicNames ++ [name] := by simp [dynamicNames]
  refine ⟨?_, fun other hother => ?_⟩
  · rw [hnames]
    exact h.names.append (List.nodup_singleton name) (by simpa using hfree)
  · rw [hnames] at hother
    rcases List.mem_append.1 hother with hother | hother
    · exact h.new other hother
    · rw [List.mem_singleton.1 hother]
      exact hindex

theorem filter (h : n.Distinct) (p : String × Field → Bool) (routes : List (String × List Route)) :
    { n with dynamic := n.dynamic.filter p, routes }.Distinct :=
  h.of_names rfl (List.filter_sublist.map _)

theorem forget (h : n.Distinct) : n.forget.Distinct := h.of_names rfl (List.filter_sublist.map _)

end Distinct

theorem inherent_distinct : Inherent Distinct where
  fresh := .fresh
  resembles hm h := h.resembles hm
  edit := by
    intro n m hedit h
    cases hedit with
    | extended name value hnew => exact h.extend value hnew
    | reduced name => exact h.filter _ _
    | connected output route =>
      obtain ⟨routes, hroutes⟩ := n.addConnection_eq output route
      rw [hroutes]
      exact ⟨h.names, h.new⟩
    | disconnected output route =>
      obtain ⟨routes, hroutes⟩ := n.removeConnection_eq output route
      rw [hroutes]
      exact ⟨h.names, h.new⟩
    | forgotten => exact h.forget

end Node

/-! ### Types that nodes can be made of -/

/-- The types whose fields have distinct names. -/
def Catalog.usable (types : Catalog) : Catalog := types.filter fun t => decide (t.fields.map (·.name)).Nodup

theorem Catalog.mem_usable {types : Catalog} {t : NodeType} :
    t ∈ types.usable ↔ t ∈ types ∧ t.layout.names.Nodup := by
  rw [usable, List.mem_filter, decide_eq_true_eq]
  rfl

theorem Catalog.Regular.usable {types : Catalog} (hr : types.Regular) : types.usable.Regular where
  layouts t ht u hu := hr.layouts t (mem_usable.1 ht).1 u (mem_usable.1 hu).1
  initial t ht := hr.initial t (mem_usable.1 ht).1
  grouping t ht := hr.grouping t (mem_usable.1 ht).1

theorem Specification.nodup_of_duplicate? {seen : List String} {fields : List FieldSpec}
    (h : duplicate? seen fields = none) :
    (fields.map (·.name)).Nodup ∧ ∀ e ∈ fields, e.name ∉ seen := by
  induction fields generalizing seen with
  | nil => simp
  | cons e rest ih =>
    rw [duplicate?] at h
    split at h
    · cases h
    rename_i hfree
    obtain ⟨hrest, hnew⟩ := ih h
    have hseen : e.name ∉ seen := by simpa using hfree
    refine ⟨List.nodup_cons.2 ⟨fun hmem => ?_, hrest⟩, ?_⟩
    · obtain ⟨d, hd, hname⟩ := List.mem_map.1 hmem
      exact hnew d hd (hname ▸ List.mem_cons_self)
    · intro d hd
      rcases List.mem_cons.1 hd with rfl | hd
      · exact hseen
      · exact fun hmem => hnew d hd (List.mem_cons_of_mem _ hmem)

namespace World

variable {types : Catalog} {w w' u : World} {n m : Node} {id : NodeId} {name : String} {k : Kind} {value : Field}

/-- A type has a layout only if it is usable. -/
theorem usable_of_specification (hr : types.Regular) (hs : Sound types.usable w) {t : NodeType} (ht : t ∈ types)
    {r : Specification × World} (h : w.specification t.name t.fields = .ok r) : t ∈ types.usable := by
  refine Catalog.mem_usable.2 ⟨ht, ?_⟩
  obtain ⟨-, hmet, hname⟩ | ⟨hdistinct, -⟩ := specification_cases h
  · obtain ⟨known, hknown, hlayout⟩ := hs.table r.1 hmet
    obtain ⟨hmem, hnames⟩ := Catalog.mem_usable.1 hknown
    have hname : known.name = t.name := by rwa [hlayout] at hname
    rwa [Specification.names, NodeType.layout, hr.layouts known hmem t ht hname] at hnames
  · exact (Specification.nodup_of_duplicate? hdistinct).1

/-- **Nodes are only made of usable types**: what can be reached can be reached without the others. -/
theorem Reachable.usable (hr : types.Regular) (hw : Reachable types w) : Reachable types.usable w := by
  induction hw with
  | empty => exact .empty
  | @call v c _ hc ih =>
    have hsame : c.Allowed types.usable v → Reachable types.usable (c.run v) := fun h => .call ih h
    cases c with
    | create catalog typeName environment =>
      have hs := ih.sound hr.usable
      cases htype : catalog.type? typeName with
      | none =>
        have hrun : (Call.create catalog typeName environment).run v = v := by
          simp only [Call.run, createOfType, htype]
        rwa [hrun]
      | some t =>
        have hmem : t ∈ types := hc t (List.mem_of_find?_eq_some htype)
        cases hspec : v.specification t.name t.fields with
        | error e =>
          have hrun : (Call.create catalog typeName environment).run v = v := by
            simp only [Call.run, createOfType, htype, hspec]
          rwa [hrun]
        | ok r =>
          -- the type alone is catalog enough
          have ht := usable_of_specification hr hs hmem hspec
          have hname : t.name = typeName := by simpa using List.find?_some htype
          have hrun : (Call.create catalog typeName environment).run v =
              (Call.create [t] typeName environment).run v := by
            have hsingle : Catalog.type? [t] typeName = some t := by simp [Catalog.type?, hname]
            simp only [Call.run, createOfType, htype, hsingle]
          rw [hrun]
          exact .call ih fun u hu => List.mem_singleton.1 hu ▸ ht
    | createScene library filename renders time =>
      exact hsame (Catalog.mem_usable.2 ⟨hc, by decide⟩)
    | _ => exact hsame hc

/-! ### What nodes keep at every moment -/

/-- A change makes a node, edits one, or leaves the nodes that stay as they were. -/
theorem Change.inherent {P : Node → Prop} (hc : Change types w w') (hP : Node.Inherent P)
    (h : ∀ id n, w.node? id = some n → P n) : ∀ id m, w'.node? id = some m → P m := by
  have hkept : Retains w w' → ∀ id m, w'.node? id = some m → P m := fun hkept id m hm => by
    obtain ⟨n, hn, hmn⟩ := hkept.resembles id m hm
    exact hP.resembles hmn (h id n hn)
  have hnodes : w'.nodes = w.nodes → ∀ id m, w'.node? id = some m → P m := fun heq id m hm =>
    h id m ((node?_congr heq).symm.trans hm)
  -- a change of one node
  have hmodify : ∀ (a : NodeId) (f : Node → Node), (∀ n, (f n).id = n.id) →
      (∀ n, w.node? a = some n → P n → P (f n)) → ∀ id m, (w.modify a f).node? id = some m → P m := by
    intro a f hid hf id m hm
    rw [node?_modify w a id hid] at hm
    obtain ⟨n, hn, rfl⟩ := Option.map_eq_some_iff.1 hm
    split
    · rename_i ha
      exact hf n (by rw [← ha, id_of_node? hn, hn]) (h id n hn)
    · exact h id n hn
  cases hc with
  | entered => exact hnodes rfl
  | cascaded => exact hnodes rfl
  | held => exact hnodes rfl
  | unheld => exact hnodes rfl
  | learned => exact hnodes rfl
  | created t env =>
    intro id m hm
    rw [node?_create] at hm
    rcases Option.or_eq_some_iff.1 hm with hm | ⟨-, hm⟩
    · exact h id m hm
    · split at hm
      · obtain rfl := Option.some.inj hm
        exact hP.fresh ..
      · cases hm
  | destroyed n => exact hkept (calm_destroy w n).toRetains
  | named a name =>
    obtain ⟨heq, -⟩ | ⟨n, -, -, heq⟩ := setName_cases w a name <;> rw [heq]
    · exact h
    · exact hmodify a _ (fun _ => rfl) fun n _ => hP.resembles ⟨rfl, rfl, rfl, rfl, rfl, rfl, rfl, rfl⟩
  | stored n name old value hn hold hkind =>
    refine hmodify n.id _ (fun m => m.store_id name value) fun m hm => hP.resembles ?_
    obtain rfl : n = m := Option.some.inj (hn.symm.trans hm)
    exact .store hold hkind
  | relinked n next time after => exact hkept (calm_replaceChildren w n.id _ next time after).toRetains
  | marked n => exact hkept (retains_mark w n.id)
  | adopted n hn hb =>
    have hclaimed : Calm ((w.mark n.id).step (.adopting n.id))
        (((w.mark n.id).step (.adopting n.id)).adoptChildren n.id).2 := by
      have hadopt := calm_adopt ((w.mark n.id).step (.adopting n.id)) n
      rwa [adopt, hb] at hadopt
    have hbegun : Retains (w.mark n.id) ((w.mark n.id).step (.adopting n.id)) := .of_nodes rfl rfl rfl
    exact hkept (((retains_mark w n.id).trans hbegun).trans hclaimed.toRetains)
  | finished a time => exact hkept (retains_runSetUp w a time)
  | extended n name value hn _ hnew =>
    refine hmodify n.id _ (fun _ => rfl) fun m hm => hP.edit ?_
    obtain rfl : n = m := Option.some.inj (hn.symm.trans hm)
    exact .extended n name value hnew
  | reduced a name => exact hmodify a _ (fun _ => rfl) fun n _ => hP.edit (.reduced n name)
  | connected a output route =>
    exact hmodify a _ (fun n => n.addConnection_id output route) fun n _ => hP.edit (.connected n output route)
  | disconnected a output route =>
    exact hmodify a _ (fun n => n.removeConnection_id output route) fun n _ =>
      hP.edit (.disconnected n output route)
  | forgotten n => exact hmodify n.id _ (fun _ => rfl) fun n _ => hP.edit (.forgotten n)

/-- **What is inherent in nodes holds at every moment of a run**, between calls and within them. -/
theorem Reachable.inherent {P : Node → Prop} (hr : types.Regular) (hw : Reachable types w)
    (hu : Leads types.usable w u) (hP : Node.Inherent P) : ∀ n ∈ u.nodes, P n := by
  have husable := hw.usable hr
  have hs : Sound types.usable u := (husable.sound hr.usable).leads hr.usable hu
  have hstart : ∀ id n, w.node? id = some n → P n :=
    husable.induction hr.usable (P := fun v => ∀ id n, v.node? id = some n → P n)
      (fun _ _ hn => by cases hn) fun _ _ _ hc h => hc.inherent hP h
  have hnow : ∀ id n, u.node? id = some n → P n := by
    clear hs
    induction hu with
    | refl => exact hstart
    | tail _ hc ih => exact hc.inherent hP ih
  exact fun n hn => hnow n.id n (node?_of_mem hs.distinct hn)

/-- **Every node is in order at every moment of a run.** -/
theorem Reachable.tabled (hr : types.Regular) (hw : Reachable types w) (hu : Leads types.usable w u) :
    ∀ n ∈ u.nodes, n.Tabled := by
  have hs : Sound types.usable u := ((hw.usable hr).sound hr.usable).leads hr.usable hu
  intro n hn
  obtain ⟨t, ht, hspec, -⟩ := hs.typed n hn
  refine (hw.inherent hr hu Node.inherent_distinct n hn).tabled ?_ (hs.kinds n hn)
  rw [hspec]
  exact (Catalog.mem_usable.1 ht).2

end World

end SceneGraph
