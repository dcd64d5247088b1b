import SceneGraph.Proofs.Cascade.Fitting

/-!
# What fails changes nothing

A node decides about a value before it takes any of it over, and a grouping node before it gives up a
child. So an operation on a field that fails leaves the world as it was: all that remains of it is that a
field was on the cascade stack for a moment.

* `World.receive_eq_of_error`, `produce_eq_of_error`: a node that refuses a value has done nothing.
* `World.launch_eq_of_error`: a cascade that is refused at its first field goes no further.
* `World.failure_untouched`: failed operations leave everything untouched.
-/

namespace SceneGraph

/-- The built-in types, and types whose nodes only hold values, take fields of their own or group
children. -/
def Catalog.Elementary (types : Catalog) : Prop :=
  ∀ t ∈ types, t ∈ withScenes ∨ t.behavior = .plain ∨ t.behavior = .dynamic ∨ t.behavior = .grouping

theorem Field.single?_eq_none {t : FieldType} {f : Field} (h : f.kind ≠ ⟨t, .single⟩) :
    f.single? t = none := by
  obtain ⟨⟨s, d⟩, content, time⟩ := f
  cases d with
  | single =>
    have hst : s ≠ t := by
      rintro rfl
      exact h rfl
    simp [Field.single?, hst]
  | multi => rfl

namespace World

variable {types : Catalog} {w w' : World} {n : Node} {id : NodeId} {name : String} {value : Field} {e : NodeError}

/-- Everything is as it was. The journal tells at most of fields that came onto the cascade stack and left
it. -/
structure Untouched (w w' : World) : Prop where
  nodes : w'.nodes = w.nodes
  registry : w'.registry = w.registry
  specifications : w'.specifications = w.specifications
  held : w'.held = w.held
  cascade : w'.cascade = w.cascade
  journal : ∃ news, w'.journal = news ++ w.journal ∧
    ∀ entry ∈ news, (∃ id name, entry = .step (.entered id name)) ∨ entry = .step .left

theorem Untouched.refl (w : World) : Untouched w w := ⟨rfl, rfl, rfl, rfl, rfl, [], rfl, by simp⟩

/-- A field is put on the cascade stack and taken off again. -/
theorem untouched_passing (w : World) (id : NodeId) (name : String) :
    Untouched w ((w.step (.entered id name)).step .left) := by
  refine ⟨rfl, rfl, rfl, rfl, rfl, [.step .left, .step (.entered id name)], rfl, fun entry hentry => ?_⟩
  rcases List.mem_pair.1 hentry with rfl | rfl
  · exact .inr rfl
  · exact .inl ⟨id, name, rfl⟩

/-! ### What a node does with a value that it refuses -/

theorem assign_eq_of_refused {after : Aftermath} (h : (w.assign id name value after).1 = false) :
    w.assign id name value after = (false, after, w) := by
  obtain heq | ⟨n, old, -, -, -, heq⟩ := assign_cases w id name value after
  · exact heq
  · rw [heq] at h
    cases h

/-- Children are accepted and linked only after the value is known to be a list of nodes. -/
theorem changeChildren_eq_of_refused (h : (w.changeChildren id name value).1 = false) :
    w.changeChildren id name value = (false, {}, w) := by
  unfold changeChildren at h ⊢
  split at h
  · rename_i hkind
    rw [if_pos hkind]
  · cases h

/-- A filter that has all its fields refuses a truth value for none of them, so it never gets as far as
its second output. -/
theorem filterInput_eq_of_refused (hn : w.node? n.id = some n)
    (hfields : ∀ field ∈ ["set_boolean", "inputTrue", "inputFalse", "inputNegate"],
      ∃ old, n.field? field = some old ∧ old.kind = ⟨.boolean, .single⟩)
    (h : (w.filterInput n.id name value).1 = false) : w.filterInput n.id name value = (false, {}, w) := by
  by_cases hname : name = "set_boolean"
  · by_cases hkind : value.kind = ⟨.boolean, .single⟩
    · have htaken : (w.filterInput n.id name value).1 = true := by
        refine filterInput_eq_true hn ?_ (fun _ => hkind) fun output houtput =>
          hfields output (List.mem_cons_of_mem _ houtput)
        rw [hname, hkind]
        exact hfields _ List.mem_cons_self
      rw [htaken] at h
      cases h
    · rw [filterInput, if_neg (not_not.2 hname), Field.single?_eq_none hkind]
  · rw [filterInput, if_pos hname] at h ⊢
    exact assign_eq_of_refused h

/-- The fields that a filter reads and writes are there. -/
theorem Sound.filter_fields (hs : Sound types w) (helem : types.Elementary) (hn : n ∈ w.nodes)
    (hb : n.behavior = .filter) :
    ∀ field ∈ ["set_boolean", "inputTrue", "inputFalse", "inputNegate"],
      ∃ old, n.field? field = some old ∧ old.kind = ⟨.boolean, .single⟩ := by
  intro field hfield
  obtain ⟨t, ht, hspec, hbehavior⟩ := hs.typed n hn
  rw [hb] at hbehavior
  have hbuiltin : t ∈ Catalog.withScenes := by
    rcases helem t ht with ht | ht | ht | ht
    · exact ht
    all_goals rw [ht] at hbehavior; cases hbehavior
  have hkind : n.kind? field = some ⟨.boolean, .single⟩ := by
    obtain ⟨entry, hentry, hk⟩ := Option.map_eq_some_iff.1
      (Catalog.kind_of_filter t hbuiltin hbehavior.symm field hfield)
    rw [Node.kind?, hspec, hentry]
    exact congrArg some hk
  rw [n.kind?_eq_map (hs.kinds n hn)] at hkind
  exact Option.map_eq_some_iff.1 hkind

theorem Sound.not_recorder (hs : Sound types w) (helem : types.Elementary) (hn : n ∈ w.nodes)
    (c : Capabilities) : n.behavior ≠ .recorder c := by
  obtain ⟨t, ht, -, hbehavior⟩ := hs.typed n hn
  rw [hbehavior]
  rcases helem t ht with ht | ht | ht | ht
  · exact Catalog.records_nothing t ht c
  all_goals simp [ht]

theorem changeField_eq_of_refused (hs : Sound types w) (helem : types.Elementary)
    (hn : w.node? n.id = some n) (h : (w.changeField n name value).1 = false) :
    w.changeField n name value = (false, {}, w) := by
  have hmem := mem_nodes_of_node? hn
  unfold changeField at h ⊢
  split at h
  · split at h
    · rename_i hname
      rw [if_pos hname]
      exact changeChildren_eq_of_refused h
    · rename_i hname
      rw [if_neg hname]
      exact assign_eq_of_refused h
  · rename_i hb
    exact filterInput_eq_of_refused hn (hs.filter_fields helem hmem hb) h
  · rename_i c hb
    exact absurd hb (hs.not_recorder helem hmem c)
  · exact assign_eq_of_refused h

/-- **A node that refuses a value has done nothing**, whatever the behaviour of the node is. -/
theorem receive_eq_of_error (hs : Sound types w) (helem : types.Elementary)
    (hn : w.node? n.id = some n) (h : (w.receive n name value).1 = .error e) :
    w.receive n name value = (.error e, {}, w) := by
  unfold receive at h ⊢
  split at h
  · exact congrArg (·, _) h
  split at h
  · rename_i hset
    rw [if_pos hset]
    exact congrArg (·, _) h
  rename_i hset
  rw [if_neg hset]
  split at h
  · rename_i hexplicit
    rw [if_pos hexplicit]
    -- only the answer of the behaviour can be a refusal
    have hunchanged : (w.changeField n name value).1 = false → w.changeField n name value = (false, {}, w) :=
      changeField_eq_of_refused hs helem hn
    generalize w.changeField n name value = r at h hunchanged
    obtain ⟨taken, after, v⟩ := r
    cases taken with
    | true => cases h
    | false =>
      obtain ⟨rfl, rfl⟩ := Prod.mk.inj (Prod.mk.inj (hunchanged rfl)).2
      exact congrArg (·, _) h
  · rename_i hexplicit
    rw [if_neg hexplicit]
    split at h
    · exact congrArg (·, _) h
    · split at h
      · rename_i hkind
        rw [if_pos hkind]
        exact congrArg (·, _) h
      · cases h

theorem produce_eq_of_error (h : (w.produce n name value).1 = .error e) :
    w.produce n name value = (.error e, {}, w) := by
  obtain ⟨e', heq⟩ | ⟨old, -, -, heq⟩ := produce_cases w n name value <;> rw [heq] at h ⊢
  · rw [Except.error.inj h]
  · cases h

/-! ### Operations that fail -/

/-- **A cascade that is refused at its first field goes no further**, if the node has done nothing. -/
theorem launch_eq_of_error {deliver : Delivery}
    {react : World → Node → Except NodeError Unit × Aftermath × World}
    (hreact : ∀ n w', w'.node? n.id = some n → w.enterCascade id name = some w' →
      ∀ e, (react w' n).1 = .error e → react w' n = (.error e, {}, w'))
    (h : (launch react deliver id name w).1 = .error e) :
    (launch react deliver id name w).2 = (w.step (.entered id name)).step .left := by
  unfold launch at h ⊢
  cases hn : w.node? id with
  | none =>
    rw [hn] at h
    cases h
  | some n =>
    rw [hn] at h
    cases hin : w.enterCascade id name with
    | none =>
      simp only [hin] at h
      cases h
    | some w' =>
      have hn' : w'.node? n.id = some n := by
        rw [node?_congr (nodes_enterCascade hin), id_of_node? hn, hn]
      have hunchanged := hreact n w' hn' hin
      simp only [hin] at h ⊢
      generalize react w' n = r at h hunchanged
      obtain ⟨result, after, v⟩ := r
      cases result with
      | ok _ => cases h
      | error refusal =>
        obtain ⟨rfl, rfl⟩ := Prod.mk.inj (Prod.mk.inj (hunchanged refusal rfl)).2
        obtain ⟨-, rfl⟩ := enterCascade_eq_some hin
        simp only [conclude, release]
        rfl

theorem setField_eq_of_error (hs : Sound types w) (helem : types.Elementary)
    (h : (w.setField id name value).1 = .error e) :
    (w.setField id name value).2 = (w.step (.entered id name)).step .left := by
  rw [setField, cascadeDepth, deliverUpTo_succ, nest] at h ⊢
  refine launch_eq_of_error (fun n w' hn hin e he => ?_) h
  exact receive_eq_of_error (hs.entered hin).1 helem hn he

theorem emitField_eq_of_error (h : (w.emitField id name value).1 = .error e) :
    (w.emitField id name value).2 = (w.step (.entered id name)).step .left := by
  rw [emitField_eq] at h ⊢
  exact launch_eq_of_error (fun _ _ _ _ _ he => produce_eq_of_error he) h

theorem initField_eq_of_error (h : (w.initField id name value).1 = .error e) :
    (w.initField id name value).2 = w := by
  obtain heq | ⟨n, old, -, -, -, heq⟩ := initField_cases w id name value
  · exact heq
  · rw [heq] at h
    cases h

theorem addField_eq_of_error (h : (w.addField id name value).1 = .error e) :
    (w.addField id name value).2 = w := by
  obtain ⟨-, heq⟩ | ⟨e, heq⟩ | ⟨n, -, -, -, heq⟩ := addField_cases w id name value <;> rw [heq] at h ⊢
  cases h

theorem removeField_eq_of_error (h : (w.removeField id name).1 = .error e) :
    (w.removeField id name).2 = w := by
  obtain ⟨-, heq⟩ | ⟨e, heq⟩ | ⟨n, old, -, -, heq⟩ := removeField_cases w id name <;> rw [heq] at h ⊢
  cases h

/-- **Failed operations change nothing.** At every moment of a run, between calls and within them, if a
field cannot be set, emitted, filled in, added or removed, then all nodes, the registry, the layouts, the
handles and the cascade stack are as before, no route was followed, and neither the renderer nor anybody
else was told anything. -/
theorem failure_untouched (hr : types.Regular) (helem : types.Elementary) (hw : Reachable types w)
    (hmoment : Leads types w w') (id : NodeId) (name : String) (value : Field) (e : NodeError) :
    ((w'.setField id name value).1 = .error e → Untouched w' (w'.setField id name value).2) ∧
    ((w'.emitField id name value).1 = .error e → Untouched w' (w'.emitField id name value).2) ∧
    ((w'.initField id name value).1 = .error e → Untouched w' (w'.initField id name value).2) ∧
    ((w'.addField id name value).1 = .error e → Untouched w' (w'.addField id name value).2) ∧
    ((w'.removeField id name).1 = .error e → Untouched w' (w'.removeField id name).2) := by
  have hs : Sound types w' := (hw.sound hr).leads hr hmoment
  refine ⟨fun h => ?_, fun h => ?_, fun h => ?_, fun h => ?_, fun h => ?_⟩
  · rw [setField_eq_of_error hs helem h]
    exact untouched_passing w' id name
  · rw [emitField_eq_of_error h]
    exact untouched_passing w' id name
  · rw [initField_eq_of_error h]
    exact .refl w'
  · rw [addField_eq_of_error h]
    exact .refl w'
  · rw [removeField_eq_of_error h]
    exact .refl w'

/-! ### A script and a group -/

/-- A script with a field of its own, and a group that is set up. -/
def refusing : World :=
  (Call.setUp ⟨2⟩ .unset).run <|
    (Call.create Catalog.withScenes "Group" .detached).run <|
      (Call.addField ⟨1⟩ "on" (.single .boolean false)).run <|
        (Call.create Catalog.withScenes "Script" .detached).run {}

theorem reachable_refusing : Reachable Catalog.withScenes refusing := by
  refine .call (.call (.call (.call .empty ?_) ?_) ?_) trivial
  · exact fun _ ht => ht
  · simp [Call.Allowed, references_single]
  · exact fun _ ht => ht

/-- A truth value is no list of children, the script has no field `off`, and it has a field `on` already. -/
theorem failure_untouched_refusing :
    Catalog.withScenes.Elementary ∧ Reachable Catalog.withScenes refusing ∧
      ((refusing.setField ⟨2⟩ childrenField (.single .boolean true)).1 = .error (.rejected childrenField) ∧
        Untouched refusing (refusing.setField ⟨2⟩ childrenField (.single .boolean true)).2) ∧
      ((refusing.emitField ⟨1⟩ "off" (.single .boolean true)).1 = .error (.fieldNotFound "Script" "off") ∧
        Untouched refusing (refusing.emitField ⟨1⟩ "off" (.single .boolean true)).2) ∧
      ((refusing.initField ⟨1⟩ "on" (.single .int 1)).1 =
          .error (.typeMismatch "on" ⟨.boolean, .single⟩ ⟨.int, .single⟩) ∧
        Untouched refusing (refusing.initField ⟨1⟩ "on" (.single .int 1)).2) ∧
      ((refusing.addField ⟨1⟩ "on" (.single .boolean true)).1 = .error (.fieldExists "on") ∧
        Untouched refusing (refusing.addField ⟨1⟩ "on" (.single .boolean true)).2) ∧
      ((refusing.removeField ⟨1⟩ "off").1 = .error (.fieldNotFound "Script" "off") ∧
        Untouched refusing (refusing.removeField ⟨1⟩ "off").2) := by
  have helem : Catalog.withScenes.Elementary := fun _ ht => .inl ht
  have h := failure_untouched Catalog.regular_withScenes helem reachable_refusing .refl
  have hset : (refusing.setField ⟨2⟩ childrenField (.single .boolean true)).1 =
      .error (.rejected childrenField) := by decide +kernel
  have hemit : (refusing.emitField ⟨1⟩ "off" (.single .boolean true)).1 =
      .error (.fieldNotFound "Script" "off") := by decide +kernel
  have hinit : (refusing.initField ⟨1⟩ "on" (.single .int 1)).1 =
      .error (.typeMismatch "on" ⟨.boolean, .single⟩ ⟨.int, .single⟩) := by decide +kernel
  have hadd : (refusing.addField ⟨1⟩ "on" (.single .boolean true)).1 = .error (.fieldExists "on") := by
    decide +kernel
  have hremove : (refusing.removeField ⟨1⟩ "off").1 = .error (.fieldNotFound "Script" "off") := by
    decide +kernel
  exact ⟨helem, reachable_refusing, ⟨hset, (h _ _ _ _).1 hset⟩, ⟨hemit, (h _ _ _ _).2.1 hemit⟩,
    ⟨hinit, (h _ _ _ _).2.2.1 hinit⟩, ⟨hadd, (h _ _ _ _).2.2.2.1 hadd⟩,
    hremove, (h _ _ (.single .boolean true) _).2.2.2.2 hremove⟩

end World

end SceneGraph
