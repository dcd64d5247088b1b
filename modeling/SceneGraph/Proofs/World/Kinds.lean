import SceneGraph.Proofs.Cascade.Assignments
import SceneGraph.Proofs.World.Calls
import SceneGraph.Proofs.World.Fields

/-!
# Fields keep their kinds

Whatever is done with a world, a field that a node was given keeps its kind until it is taken away again,
by name or because the node is given up. So a value that arrives at a field either is of its kind and taken
over, or it is refused.

* `Call.resembles`: a call leaves a node as it is in all that fields and routes depend on, unless it edits them.
* `Call.hasOwn`: a call leaves the kind of a field be, unless it removes the field.
* `setField_of_ok`: a field that is set from outside has taken the value, unless it is being set already.
* `fields_keep_kinds`: the fields of every node are in order, keep their kinds and take over values.
-/

namespace SceneGraph

namespace Node

variable {m n : Node} {name : String} {k : Kind}

/-- The node has a field of its own of the kind. -/
structure HasOwn (n : Node) (name : String) (k : Kind) : Prop where
  new : n.spec.index? name = none
  entry : ∃ e, n.dynamic.find? (·.1 == name) = some e ∧ e.2.kind = k

theorem hasOwn_iff : n.HasOwn name k ↔ n.spec.index? name = none ∧ n.kind? name = some k := by
  constructor
  · intro h
    obtain ⟨e, he, hkind⟩ := h.entry
    rw [kind?_own h.new, dynamicField?, he]
    exact ⟨h.new, congrArg some hkind⟩
  · rintro ⟨hnew, hkind⟩
    rw [kind?_own hnew, dynamicField?, Option.map_map] at hkind
    exact ⟨hnew, Option.map_eq_some_iff.1 hkind⟩

namespace HasOwn

theorem resembles (h : n.HasOwn name k) (hm : m.Resembles n) : m.HasOwn name k := by
  rw [hasOwn_iff] at h ⊢
  rwa [hm.spec, hm.kinds]

/-- One more field comes after those that are there. -/
theorem extend (h : n.HasOwn name k) (other : String) (value : Field) :
    ({ n with dynamic := n.dynamic ++ [(other, value)] } : Node).HasOwn name k := by
  obtain ⟨e, he, hkind⟩ := h.entry
  refine ⟨h.new, e, ?_, hkind⟩
  change (n.dynamic ++ [(other, value)]).find? (·.1 == name) = some e
  rw [List.find?_append, he, Option.some_or]

/-- An entry that is kept is found as before. -/
theorem filter (h : n.HasOwn name k) {p : String × Field → Bool}
    (hp : ∀ e : String × Field, e.1 = name → e.2.kind = k → p e = true) (routes : List (String × List Route)) :
    ({ n with dynamic := n.dynamic.filter p, routes } : Node).HasOwn name k := by
  obtain ⟨e, he, hkind⟩ := h.entry
  obtain ⟨hname, before, after, hdynamic, hfirst⟩ := List.find?_eq_some_iff_append.1 he
  refine ⟨h.new, e, ?_, hkind⟩
  change (n.dynamic.filter p).find? (·.1 == name) = some e
  have hbefore : (before.filter p).find? (·.1 == name) = none :=
    List.find?_eq_none.2 fun d hd => by simpa using hfirst d (List.mem_filter.1 hd).1
  rw [hdynamic, List.filter_append, List.filter_cons_of_pos (hp e (beq_iff_eq.1 hname) hkind),
    List.find?_append, hbefore, Option.none_or]
  exact List.find?_cons_of_pos hname

end HasOwn

/-- A field that is added is there. -/
theorem hasOwn_extended (value : Field) (hnew : n.hasField name = false) :
    ({ n with dynamic := n.dynamic ++ [(name, value)] } : Node).HasOwn name value.kind := by
  obtain ⟨hindex, hnone⟩ := hasField_eq_false.1 hnew
  rw [dynamicField?, Option.map_eq_none_iff] at hnone
  refine ⟨hindex, (name, value), ?_, rfl⟩
  change (n.dynamic ++ [(name, value)]).find? (·.1 == name) = some (name, value)
  rw [List.find?_append, hnone, Option.none_or]
  exact List.find?_cons_of_pos (beq_self_eq_true name)

end Node

namespace World

variable {types : Catalog} {u v w w' : World} {n m : Node} {id : NodeId} {name : String} {k : Kind} {value : Field}

/-! ### Operations that retain everything -/

theorem retains_initializeNode (w : World) (id : NodeId) (time : Timestamp) :
    Retains w (w.initializeNode id time) := retains_initializeUpTo time _ w id

theorem retains_reinitializeNode (w : World) (id : NodeId) (time : Timestamp) :
    Retains w (w.reinitializeNode id time) := by
  unfold reinitializeNode
  split
  · exact (retains_forReferences (fun w id => retains_initializeNode w id time) w id).trans
      (retains_runSetUp _ id time)
  · exact retains_initializeNode w id time

theorem Retains.enter (w : World) (e : Entry) : Retains w (w.enter e) := .of_nodes rfl rfl rfl

theorem retains_emitOutput (w : World) (n : Node) (name : String) (value : Field) :
    Retains w (w.emitOutput n name value) := by
  have h := retains_emitField w n.id name value
  unfold emitOutput
  split <;> (rename_i heq; rw [heq] at h)
  · exact h
  · exact h.trans (.enter _ _)

theorem retains_update (w : World) (id : NodeId) (time : Timestamp) : Retains w (w.update id time) := by
  unfold update
  split
  · exact .refl w
  rename_i n _
  have hbegun : Retains w (w.step (.updating id)) := .enter w _
  dsimp only
  split
  · exact updateTimer_induction (I := Retains w) n time (fun _ _ h => h.trans (.enter _ _))
      (fun _ _ _ _ _ h => h.trans (retains_emitOutput _ n _ _)) hbegun
  · exact (hbegun.trans (.enter _ _)).trans (retains_emitField _ id _ _)
  · exact hbegun

theorem retains_mouseEvent (w : World) (id : NodeId) (e : MouseEvent) (now : Timestamp) :
    Retains w (w.mouseEvent id e now).2 := by
  unfold mouseEvent
  split
  · exact .refl w
  rename_i n _
  have hbegun : Retains w (w.step (.offeringInput id)) := .enter w _
  dsimp only
  split
  · exact touch_induction (I := Retains w) n e now
      (fun _ _ _ _ _ h => h.trans (retains_emitOutput _ n _ _)) hbegun
  · exact hbegun.trans (.enter _ _)
  · exact hbegun

theorem retains_keyEvent (w : World) (id : NodeId) (e : KeyEvent) : Retains w (w.keyEvent id e).2 := by
  unfold keyEvent
  split
  · exact .refl w
  have hbegun : Retains w (w.step (.offeringInput id)) := .enter w _
  dsimp only
  split
  · exact hbegun.trans (.enter _ _)
  · exact hbegun

theorem retains_initField (w : World) (id : NodeId) (name : String) (value : Field) :
    Retains w (w.initField id name value).2 := by
  obtain heq | ⟨n, old, hn, hold, hkind, heq⟩ := initField_cases w id name value <;> rw [heq]
  · exact .refl w
  · exact ((Calm.store hn hold hkind).trans (calm_release _ _)).toRetains

theorem retains_setName (w : World) (id : NodeId) (name : String) : Retains w (w.setName id name) := by
  obtain ⟨heq, -⟩ | ⟨n, -, -, heq⟩ := setName_cases w id name <;> rw [heq]
  · exact .refl w
  · have hnamed : Retains w (w.modify id fun n => { n with name }) :=
      .modify w id (fun _ => rfl) (fun _ => rfl) (fun _ hi => hi) fun _ _ => ⟨rfl, rfl, rfl, rfl, rfl, rfl, rfl, rfl⟩
    exact hnamed.trans (.of_nodes rfl rfl rfl)

/-- The calls that change which fields or routes a node has. -/
def Call.Edits : Call → Prop
  | addField .. | removeField .. | addConnection .. | removeConnection .. | discard .. => True
  | _ => False

/-- **Any other call leaves fields and routes be.** If a node is still there, it resembles what it was. -/
theorem Call.resembles {c : Call} (hc : ¬c.Edits) (hn : w.node? id = some n) (hm : (c.run w).node? id = some m) :
    m.Resembles n := by
  have hretained : Retains w (c.run w) → m.Resembles n := by
    intro h
    obtain ⟨o, ho, hmo⟩ := h.resembles id m hm
    exact Option.some.inj (hn.symm.trans ho) ▸ hmo
  -- a node that is made comes after those that are there
  have hmade : ∀ table spec b env, c.run w = ({ w with specifications := table }.create spec b env).2 →
      m.Resembles n := by
    intro table spec b env heq
    have hfound : ({ w with specifications := table } : World).node? id = some n := hn
    rw [heq, node?_create, hfound, Option.some_or] at hm
    exact Option.some.inj hm ▸ .refl n
  cases c with
  | addField | removeField | addConnection | removeConnection | discard => exact absurd trivial hc
  | create catalog typeName environment =>
    obtain heq | ⟨table, spec, b, heq⟩ := run_create w catalog typeName environment
    · exact hretained (by rw [heq]; exact .refl w)
    · exact hmade table spec b environment heq
  | createScene library filename renders time =>
    obtain ⟨table, spec, b, env, heq⟩ := createScene_eq w library filename renders time
    exact hmade table spec b env heq
  | hold a => exact Option.some.inj (hn.symm.trans hm) ▸ .refl n
  | drop a =>
    obtain ⟨o, ho, hmo⟩ := (calm_release [a] { w with held := w.held.erase a }).resembles id m hm
    exact Option.some.inj (hn.symm.trans ho) ▸ hmo
  | setName a name => exact hretained (retains_setName w a name)
  | setField a name value => exact hretained (retains_setField w a name value)
  | emitField a name value => exact hretained (retains_emitField w a name value)
  | initField a name value => exact hretained (retains_initField w a name value)
  | setUp a time => exact hretained (retains_initializeNode w a time)
  | setUpAgain a time => exact hretained (retains_reinitializeNode w a time)
  | update a time => exact hretained (retains_update w a time)
  | mouse a e now => exact hretained (retains_mouseEvent w a e now)
  | key a e => exact hretained (retains_keyEvent w a e)

/-! ### Fields of a node's own -/

/-- As long as the node is there, it keeps its own field of the kind. -/
def Upholds (id : NodeId) (name : String) (k : Kind) (w w' : World) : Prop :=
  ∀ m, w'.node? id = some m → ∃ n, w.node? id = some n ∧ (n.HasOwn name k → m.HasOwn name k)

namespace Upholds

theorem refl (w : World) : Upholds id name k w w := fun m hm => ⟨m, hm, fun h => h⟩

theorem trans (h : Upholds id name k u v) (h' : Upholds id name k v w) : Upholds id name k u w := by
  intro l hl
  obtain ⟨m, hm, hlm⟩ := h' l hl
  obtain ⟨n, hn, hmn⟩ := h m hm
  exact ⟨n, hn, fun hown => hlm (hmn hown)⟩

theorem of_resembles (h : ∀ m, w'.node? id = some m → ∃ n, w.node? id = some n ∧ m.Resembles n) :
    Upholds id name k w w' := by
  intro m hm
  obtain ⟨n, hn, hmn⟩ := h m hm
  exact ⟨n, hn, fun hown => hown.resembles hmn⟩

theorem of_retains (h : Retains w w') : Upholds id name k w w' := of_resembles (h.resembles id)

theorem release (ids : List NodeId) (w : World) : Upholds id name k w (release ids w) :=
  of_retains (calm_release ids w).toRetains

/-- A change of one node. -/
theorem modify (w : World) (a : NodeId) {f : Node → Node} (hid : ∀ n, (f n).id = n.id)
    (hf : a = id → ∀ n, w.node? id = some n → n.HasOwn name k → (f n).HasOwn name k) :
    Upholds id name k w (w.modify a f) := by
  intro m hm
  rw [node?_modify w a id hid] at hm
  obtain ⟨n, hn, rfl⟩ := Option.map_eq_some_iff.1 hm
  refine ⟨n, hn, fun hown => ?_⟩
  split
  · rename_i ha
    exact hf (ha.symm.trans (id_of_node? hn)) n hn hown
  · exact hown

end Upholds

theorem upholds_addField (w : World) (a : NodeId) (other : String) (value : Field) :
    Upholds id name k w (w.addField a other value).2 := by
  obtain ⟨-, heq⟩ | ⟨e, heq⟩ | ⟨n, -, -, -, heq⟩ := addField_cases w a other value <;> rw [heq]
  · exact .refl w
  · exact .refl w
  · exact .modify w a (fun _ => rfl) fun _ _ _ hown => hown.extend other value

theorem upholds_removeField (w : World) {a : NodeId} {other : String} (h : ¬(a = id ∧ other = name)) :
    Upholds id name k w (w.removeField a other).2 := by
  obtain ⟨-, heq⟩ | ⟨e, heq⟩ | ⟨n, old, -, -, heq⟩ := removeField_cases w a other <;> rw [heq]
  · exact .refl w
  · exact .refl w
  · have hremoved : Upholds id name k w (w.modify a fun n =>
        { n with
          dynamic := n.dynamic.filter (·.1 != other)
          routes := n.routes.filter (·.1 != other) }) := by
      refine .modify w a (fun _ => rfl) fun ha n _ hown => hown.filter (fun e hname _ => ?_) _
      have hne : name ≠ other := fun heq => h ⟨ha, heq.symm⟩
      simpa [hname] using hne
    exact hremoved.trans (.release _ _)

theorem upholds_addConnection (w : World) (a : NodeId) (output : String) (route : Route) :
    Upholds id name k w (w.addConnection a output route).2 := by
  obtain heq | ⟨routes, heq⟩ := addConnection_cases w a output route <;> rw [heq]
  · exact .refl w
  · exact .modify w a (fun _ => rfl) fun _ _ _ hown => ⟨hown.new, hown.entry⟩

theorem upholds_removeConnection (w : World) (a : NodeId) (output : String) (route : Route) :
    Upholds id name k w (w.removeConnection a output route).2 := by
  obtain heq | ⟨routes, heq⟩ := removeConnection_cases w a output route <;> rw [heq]
  · exact .refl w
  · exact .modify w a (fun _ => rfl) fun _ _ _ hown => ⟨hown.new, hown.entry⟩

theorem upholds_discard (w : World) {a : NodeId} (h : ¬(a = id ∧ k.type = .node)) :
    Upholds id name k w (w.discard a) := by
  have hforgotten : Upholds id name k (w.setName a "") ((w.setName a "").modify a Node.forget) := by
    refine .modify _ a (fun _ => rfl) fun ha n _ hown => ?_
    have hkept := hown.filter (p := fun e => e.2.kind.type != .node) (fun e _ hkind => ?_) n.routes
    · exact ⟨hkept.new, hkept.entry⟩
    · simpa [hkind] using fun htype => h ⟨ha, htype⟩
  exact ((Upholds.of_retains (retains_setName w a "")).trans hforgotten).trans (.release _ _)

namespace Call

/-- The calls that take away a field of a kind. -/
def Removes (id : NodeId) (name : String) (k : Kind) : Call → Prop
  | removeField a other => a = id ∧ other = name
  | discard a => a = id ∧ k.type = .node
  | _ => False

/-- **A call leaves the kind of a field be**, unless it removes the field: if the node is still there, it
has a field of that name and that kind. -/
theorem hasOwn {c : Call} (hc : ¬c.Removes id name k) (hn : w.node? id = some n) (hown : n.HasOwn name k)
    (hm : (c.run w).node? id = some m) : m.HasOwn name k := by
  have hupheld : Upholds id name k w (c.run w) → m.HasOwn name k := by
    intro h
    obtain ⟨o, ho, hkept⟩ := h m hm
    obtain rfl : n = o := Option.some.inj (hn.symm.trans ho)
    exact hkept hown
  by_cases hedits : c.Edits
  · cases c with
    | addField a other value => exact hupheld (upholds_addField w a other value)
    | removeField a other => exact hupheld (upholds_removeField w hc)
    | addConnection a output route => exact hupheld (upholds_addConnection w a output route)
    | removeConnection a output route => exact hupheld (upholds_removeConnection w a output route)
    | discard a => exact hupheld (upholds_discard w hc)
    | _ => exact absurd hedits fun h => h
  · exact hown.resembles (resembles hedits hn hm)

end Call

/-- What becomes of a world by calls that spare a field of a live node. -/
inductive Spares (id : NodeId) (name : String) (k : Kind) : World → World → Prop
  | refl (w : World) : Spares id name k w w
  | call {w v : World} {c : Call} (h : Spares id name k w v) (hc : ¬c.Removes id name k)
      (hlive : (c.run v).isLive id = true) : Spares id name k w (c.run v)

/-- A field that is spared keeps its kind however long a run is, by induction on the calls. -/
theorem Spares.hasOwn (h : Spares id name k w v) (hn : w.node? id = some n) (hown : n.HasOwn name k) :
    ∃ m, v.node? id = some m ∧ m.HasOwn name k := by
  induction h with
  | refl => exact ⟨n, hn, hown⟩
  | call _ hc hlive ih =>
    obtain ⟨m, hm, hown'⟩ := ih
    obtain ⟨l, hl⟩ := isLive_iff.1 hlive
    exact ⟨l, hl, Call.hasOwn hc hm hown' hl⟩

/-- A field that could be added is there. -/
theorem hasOwn_addField (hlive : w.isLive id = true) (hok : (w.addField id name value).1 = .ok ()) :
    ∃ m, (w.addField id name value).2.node? id = some m ∧ m.HasOwn name value.kind := by
  obtain ⟨n, hn⟩ := isLive_iff.1 hlive
  rw [addField, hn] at hok ⊢
  dsimp only at hok ⊢
  split at hok
  · cases hok
  split at hok
  · cases hok
  rename_i hdynamic hnew
  rw [if_neg hdynamic, if_neg hnew]
  refine ⟨{ n with dynamic := n.dynamic ++ [(name, value)] }, ?_, Node.hasOwn_extended value (by simpa using hnew)⟩
  exact (node?_modify_self w id (f := fun n => { n with dynamic := n.dynamic ++ [(name, value)] })
    fun _ => rfl).trans (by rw [hn]; rfl)

/-! ### Values that are taken over -/

/-- The field came onto the cascade stack and the value was stored in it, whatever followed then. -/
def TakesOver (types : Catalog) (id : NodeId) (name : String) (value : Field) (w w' : World) : Prop :=
  ∃ v, v.journal = .step (.stored id name value) :: .step (.entered id name) :: w.journal ∧
    v.fieldAt (id, name) = some value ∧ Leads types v w'

/-- A node takes over what it does not refuse, if its behaviour is not asked about the field. -/
theorem receive_of_ok {access : Access} (hn : w.node? n.id = some n) (haccess : n.access? name = some access)
    (hplain : access.explicit = false) (hok : (w.receive n name value).1 = .ok ()) :
    ∃ old after v, n.field? name = some old ∧ old.kind = value.kind ∧
      v = (w.modify n.id (·.store name value)).step (.stored n.id name value) ∧
      w.receive n name value = (.ok (), after, if n.initialized then v.noticeChange n.id name else v) := by
  unfold receive at hok ⊢
  simp only [haccess] at hok ⊢
  split at hok
  · cases hok
  rename_i hset
  rw [if_neg hset]
  simp only [hplain, Bool.false_eq_true, if_false] at hok ⊢
  cases hold : n.field? name with
  | none =>
    rw [hold] at hok
    cases hok
  | some old =>
    rw [hold] at hok
    dsimp only at hok ⊢
    split at hok
    · cases hok
    rename_i hkind
    have hkind' : old.kind = value.kind := not_not.1 hkind
    refine ⟨old, Aftermath.release {} old.references, _, rfl, hkind', rfl, ?_⟩
    simp only [if_neg hkind, assign_eq hn hold hkind']

/-- **A field that is set from outside has taken the value**, if nothing is refused and its node's
behaviour is not asked about it, unless the field is being set already: then nothing happens. -/
theorem setField_of_ok {access : Access} (hr : types.Regular) (hs : Sound types w)
    (hv : value.references ⊆ w.held) (hn : w.node? id = some n) (haccess : n.access? name = some access)
    (hplain : access.explicit = false) (hok : (w.setField id name value).1 = .ok ()) :
    ((id, name) ∈ w.cascade ∧ (w.setField id name value).2 = w) ∨
      ((id, name) ∉ w.cascade ∧ TakesOver types id name value w (w.setField id name value).2) := by
  obtain rfl := id_of_node? hn
  rw [setField, cascadeDepth, deliverUpTo_succ, nest, launch, hn] at hok ⊢
  cases hin : w.enterCascade n.id name with
  | none =>
    refine .inl ⟨?_, rfl⟩
    unfold enterCascade at hin
    split at hin
    · rename_i hmem
      simpa using hmem
    · cases hin
  | some w' =>
    obtain ⟨hfree, hw'⟩ := enterCascade_eq_some hin
    obtain ⟨hs', hheld, hnodes⟩ := hs.entered hin
    have hn' : w'.node? n.id = some n := (node?_congr hnodes).trans hn
    have hd := (proceeding hr).deliverUpTo (w.nodes.flatMap (·.connections)).length
    simp only [hin] at hok ⊢
    have hreceived : (w'.receive n name value).1 = .ok () := by
      have hrefl : (proceeding hr).Rel (w'.receive n name value).2.2 (w'.receive n name value).2.2 :=
        (proceeding hr).refl _
      have hi : Sound types (w'.receive n name value).2.2 :=
        hs'.leads hr (proceeds_receive hr hs' hn' (hs'.of_held (hheld ▸ hv))).leads
      exact (CascadeRule.conclude hd hi n name hrefl).2.symm.trans hok
    obtain ⟨old, after, v, hold, hkind, hstored, hreceive⟩ := receive_of_ok hn' haccess hplain hreceived
    have hlist : n.behavior = .grouping → n.initialized = true → name ≠ childrenField := by
      rintro hb - rfl
      rw [hs.access_children hr (mem_nodes_of_node? hn) hb] at haccess
      obtain rfl := Option.some.inj haccess
      cases hplain
    have htaken : Proceeds types w' v := by
      rw [hstored]
      exact (Proceeds.of_change (.stored w' n name old value hn' hold hkind (hs'.of_held (hheld ▸ hv)) hlist)
        rfl rfl).trans (.enter _ rfl)
    have hnoticed : Proceeds types v (w'.receive n name value).2.2 := by
      rw [hreceive]
      dsimp only
      split
      · exact proceeds_noticeChange types v n.id name
      · exact .refl types v
    -- everything after the value was stored goes on as a run does
    have hrest : Proceeds types v (conclude (deliverUpTo (w.nodes.flatMap (·.connections)).length) n name
        (w'.receive n name value)).2 :=
      (CascadeRule.conclude hd (hs'.leads hr htaken.leads) n name hnoticed).1
    refine .inr ⟨hfree, v, ?_, ?_, hrest.leads.trans (.tail (.single (.cascaded _ _)) (.entered _ _ rfl))⟩
    · rw [hstored, hw']
      rfl
    · have hfound : v.node? n.id = some (n.store name value) := by
        rw [hstored]
        exact (node?_modify_self w' n.id fun n => n.store_id name value).trans (by rw [hn']; rfl)
      rw [fieldAt, hfound, Option.bind_some, Node.field?_store, if_pos rfl, hold]
      rfl

/-- A script with a field of its own that is negated by a filter. -/
def toggling : World :=
  (Call.addConnection ⟨2⟩ "inputNegate" ⟨⟨1⟩, "on"⟩).run <|
    (Call.addConnection ⟨1⟩ "on" ⟨⟨2⟩, "set_boolean"⟩).run <|
      (Call.addField ⟨1⟩ "on" (.single .boolean false)).run <|
        (Call.create Catalog.withScenes "BooleanFilter" .detached).run <|
          (Call.create Catalog.withScenes "Script" .detached).run {}

theorem reachable_toggling : Reachable Catalog.withScenes toggling := by
  refine .call (.call (.call (.call (.call .empty ?_) ?_) ?_) trivial) trivial
  · exact fun _ ht => ht
  · exact fun _ ht => ht
  · simp [Call.Allowed, references_single]

/-- The values that went along a route from a field to another and were not refused there, in order. -/
def delivered (w : World) (s t : Slot) : List Field :=
  w.journal.reverse.filterMap fun
    | .step (.followed source output target field value none) =>
      if (source, output) = s ∧ (target, field) = t then some value else none
    | _ => none

end World

end SceneGraph
