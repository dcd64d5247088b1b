import SceneGraph.Proofs.Cascade.Termination
import SceneGraph.Proofs.World.Reachable

/-!
# Routes that fit are not refused

A route fits if it leads from a field to a settable one of the same kind. What a cascade does to a node
keeps its kinds and rights, and a field takes every value of its kind that it may be set to, also where
the behaviour of the node decides. So a route that fits is never refused, neither in a cascade nor later.

* `World.receive_eq_ok`: a settable field takes the values of its kind.
* `World.delivering`: the rule for the parts of a cascade.
* `World.Plays.delivers`: what a host does with a scene that is shown refuses no route that fits.
-/

namespace SceneGraph

/-- The fields that a filter reads and writes are truth values. -/
theorem Catalog.kind_of_filter : ∀ t ∈ withScenes, t.behavior = .filter →
    ∀ name ∈ ["set_boolean", "inputTrue", "inputFalse", "inputNegate"],
      (t.layout.entry? name).map (·.initial.kind) = some ⟨.boolean, .single⟩ := by decide

/-- No built-in type records. -/
theorem Catalog.records_nothing : ∀ t ∈ withScenes, ∀ c, t.behavior ≠ .recorder c := by
  simp [withScenes, standard, Scene.nodeType]

namespace World

variable {w w' : World} {n : Node} {id : NodeId} {name : String} {value : Field}

/-! ### What a field takes -/

/-- A field takes a value of its kind, and what it takes the node sends out. -/
theorem emit_eq {old : Field} (hn : w.node? id = some n) (hold : n.field? name = some old)
    (hkind : old.kind = value.kind) (after : Aftermath) :
    (w.assign id name value after).1 = true ∧ (w.emit id name value after).1 = true ∧
      (w.emit id name value after).2.2.node? id = some (n.store name value) := by
  have hstored : (w.modify id (·.store name value)).node? id = some (n.store name value) := by
    rw [node?_modify_self w id fun n => n.store_id name value, hn]
    rfl
  rw [emit, assign_eq hn hold hkind]
  exact ⟨rfl, rfl, hstored⟩

theorem emitBoth_eq {a b : String × Field} {old old' : Field} (hn : w.node? id = some n)
    (hold : n.field? a.1 = some old) (hkind : old.kind = a.2.kind) (hold' : n.field? b.1 = some old')
    (hkind' : old'.kind = b.2.kind) (hne : b.1 ≠ a.1) : (w.emitBoth id a b).1 = true := by
  obtain ⟨-, htaken, hnode⟩ := emit_eq hn hold hkind {}
  have hfield : (n.store a.1 a.2).field? b.1 = some old' := by
    rw [Node.field?_store, if_neg hne, hold']
  unfold emitBoth
  generalize w.emit id a.1 a.2 {} = r at htaken hnode
  obtain ⟨taken, after, v⟩ := r
  obtain rfl : taken = true := htaken
  exact (emit_eq hnode hfield hkind' after).2.1

/-- A filter has the outputs that it emits to. -/
theorem filterInput_eq_true (hn : w.node? n.id = some n) (hfield : ∃ old, n.field? name = some old ∧ old.kind = value.kind)
    (hinput : name = "set_boolean" → value.kind = ⟨.boolean, .single⟩)
    (houtputs : ∀ output ∈ ["inputTrue", "inputFalse", "inputNegate"],
      ∃ old, n.field? output = some old ∧ old.kind = ⟨.boolean, .single⟩) :
    (w.filterInput n.id name value).1 = true := by
  unfold filterInput
  split
  · obtain ⟨old, hold, hkind⟩ := hfield
    exact (emit_eq hn hold hkind {}).1
  · rename_i hname
    obtain ⟨⟨t, d⟩, content, time⟩ := value
    obtain ⟨rfl, rfl⟩ := Kind.mk.inj (hinput (not_not.1 hname))
    have hcontent : Field.single? .boolean ⟨⟨.boolean, .single⟩, content, time⟩ = some content := rfl
    rw [hcontent]
    obtain ⟨negated, hnegated, hkind'⟩ := houtputs "inputNegate" (by simp)
    obtain ⟨output, houtput, hkind⟩ := houtputs (if (content : Bool) then "inputTrue" else "inputFalse") (by
      split <;> simp)
    refine emitBoth_eq hn houtput hkind hnegated hkind' ?_
    dsimp only
    split <;> decide

/-- The behaviour of a built-in node does not reject a value of the kind of the field. -/
theorem changeField_eq_true (hs : Sound Catalog.withScenes w) (hn : w.node? n.id = some n)
    (hk : n.kind? name = some value.kind) : (w.changeField n name value).1 = true := by
  have hmem := mem_nodes_of_node? hn
  obtain ⟨t, ht, hspec, hbehavior⟩ := hs.typed n hmem
  have hkinds := n.kind?_eq_map (hs.kinds n hmem)
  have hfield : ∀ {other k}, n.kind? other = some k → ∃ old, n.field? other = some old ∧ old.kind = k := by
    intro other k h
    rwa [hkinds, Option.map_eq_some_iff] at h
  obtain ⟨old, hold, hkind⟩ := hfield hk
  have hassign := (emit_eq hn hold hkind {}).1
  unfold changeField
  split
  · rename_i hb
    split
    · rename_i hname
      obtain ⟨rest, hrest⟩ := Catalog.regular_withScenes.grouping t ht (hbehavior ▸ hb)
      have hnodes : value.kind = ⟨.node, .multi⟩ := by
        rw [Node.kind?, hspec, Specification.entry?, NodeType.layout, hrest] at hk
        rcases hname with rfl | rfl | rfl <;> exact (Option.some.inj hk).symm
      unfold changeChildren
      rw [if_neg (not_not.2 hnodes)]
    · exact hassign
  · rename_i hb
    have hboolean : ∀ name ∈ ["set_boolean", "inputTrue", "inputFalse", "inputNegate"],
        n.kind? name = some ⟨.boolean, .single⟩ := by
      intro name hname
      have hentry := Catalog.kind_of_filter t ht (hbehavior ▸ hb) name hname
      obtain ⟨e, he, hkind⟩ := Option.map_eq_some_iff.1 hentry
      rw [Node.kind?, hspec, he]
      exact congrArg some hkind
    refine filterInput_eq_true hn ⟨old, hold, hkind⟩ (fun hname => ?_) fun output houtput =>
      hfield (hboolean output (List.mem_cons_of_mem _ houtput))
    have hinput := hboolean name (hname ▸ List.mem_cons_self)
    exact Option.some.inj (hk.symm.trans hinput)
  · rename_i c hb
    have hnone := Catalog.records_nothing t ht c
    exact absurd (hbehavior.symm.trans hb) hnone
  · exact hassign

/-- **A settable field takes the values of its kind**, whatever the behaviour of its node is. -/
theorem receive_eq_ok (hs : Sound Catalog.withScenes w) (hn : w.node? n.id = some n)
    (hk : n.kind? name = some value.kind) (hset : (n.access? name).any (·.set) = true) :
    (w.receive n name value).1 = .ok () := by
  obtain ⟨access, haccess, hset⟩ := (Option.any_eq_true _ _).1 hset
  have htaken := changeField_eq_true hs hn hk
  rw [n.kind?_eq_map (hs.kinds n (mem_nodes_of_node? hn))] at hk
  obtain ⟨old, hold, hkind⟩ := Option.map_eq_some_iff.1 hk
  unfold receive
  rw [haccess]
  dsimp only
  rw [hset, if_neg (by decide)]
  split
  · generalize w.changeField n name value = r at htaken
    obtain ⟨taken, after, v⟩ := r
    obtain rfl : taken = true := htaken
    rfl
  · rw [hold]
    dsimp only
    rw [if_neg (not_not.2 hkind)]

/-! ### Routes that fit -/

/-- Some routes, each with the field that it leaves and the kind of the values that it takes along. -/
abbrev Links := Slot → Route → Kind → Prop

variable {links : Links}

/-- The fields at both ends of the routes are of the kind of the route, and those at the far end are
settable, as long as their nodes are there. -/
structure Carries (links : Links) (w : World) : Prop where
  sources : ∀ {s r k}, links s r k → ∀ n, w.node? s.1 = some n → n.kind? s.2 = some k
  targets : ∀ {s r k}, links s r k → ∀ n, w.node? r.target = some n →
    n.kind? r.field = some k ∧ (n.access? r.field).any (·.set) = true

/-- The entry tells that a value was refused at the end of one of the routes. -/
def Refuses (links : Links) (e : Entry) : Prop :=
  ∃ s r k value error, links s r k ∧ e = .step (.followed s.1 s.2 r.target r.field value (some error))

/-- Nodes keep what routes and rights depend on, and nothing is refused at the end of the routes. -/
structure Delivers (links : Links) (w w' : World) : Prop where
  resembles : ∀ id m, w'.node? id = some m → ∃ n, w.node? id = some n ∧ m.Resembles n
  journal : ∃ news, w'.journal = news ++ w.journal ∧ ∀ e ∈ news, ¬ Refuses links e

namespace Delivers

theorem of_calm (h : Calm w w') : Delivers links w w' := by
  obtain ⟨news, hnews, hcalm⟩ := h.journal
  refine ⟨h.resembles, news, hnews, fun e he => ?_⟩
  rintro ⟨s, r, k, v, error, -, rfl⟩
  cases hcalm _ he

theorem refl (links : Links) (w : World) : Delivers links w w := .of_calm (.refl w)

theorem trans {u v : World} (h : Delivers links u v) (h' : Delivers links v w) : Delivers links u w := by
  obtain ⟨hresembles, news, hnews, hquiet⟩ := h
  obtain ⟨hresembles', more, hmore, hquiet'⟩ := h'
  refine ⟨fun id l hl => ?_, more ++ news, by rw [hmore, hnews, List.append_assoc], fun e he => ?_⟩
  · obtain ⟨m, hm, hlm⟩ := hresembles' id l hl
    obtain ⟨n, hn, hmn⟩ := hresembles id m hm
    exact ⟨n, hn, hlm.trans hmn⟩
  · exact (List.mem_append.1 he).elim (hquiet' e) (hquiet e)

/-- Something is entered into the journal. -/
theorem enter (w : World) {e : Entry} (he : ¬ Refuses links e) : Delivers links w (w.enter e) :=
  ⟨fun _ m hm => ⟨m, hm, .refl m⟩, [e], rfl, by simpa using he⟩

/-- Handles and the cascade stack do not matter. -/
theorem of_same (hn : w'.nodes = w.nodes) (hj : w'.journal = w.journal) : Delivers links w w' :=
  ⟨fun _ m hm => ⟨m, (node?_congr hn).symm.trans hm, .refl m⟩, [], hj, by simp⟩

theorem holding {ids : List NodeId} (h : Delivers links (w.holdAll ids) w') : Delivers links w (w'.dropAll ids) := by
  have hheld : Delivers links w (w.holdAll ids) := .of_same rfl rfl
  have hunheld : Delivers links w' { w' with held := ids.foldl List.erase w'.held } := .of_same rfl rfl
  exact ((hheld.trans h).trans hunheld).trans (.of_calm (calm_release ids _))

/-- What is done while a field is on the stack is framed by putting it there and taking it off. -/
theorem framed (hin : w.enterCascade id name = some w') {v : World} (h : Delivers links w' v) :
    Delivers links w v.leaveCascade := by
  have hstack : ∀ (u : World) (stack : List Slot) (e : Entry), (∀ s r k value error, links s r k →
      e ≠ .step (.followed s.1 s.2 r.target r.field value (some error))) →
        Delivers links u ({ u with cascade := stack }.enter e) := by
    intro u stack e he
    have hset : Delivers links u { u with cascade := stack } := .of_same rfl rfl
    refine hset.trans (.enter _ ?_)
    rintro ⟨s, r, k, value, error, hl, heq⟩
    exact he s r k value error hl heq
  obtain ⟨-, rfl⟩ := enterCascade_eq_some hin
  have hentered := hstack w ((id, name) :: w.cascade) (.step (.entered id name)) fun _ _ _ _ _ _ => by simp
  have hleft := hstack v v.cascade.tail (.step .left) fun _ _ _ _ _ _ => by simp
  exact (hentered.trans h).trans hleft

/-- Routes go on to fit. -/
theorem carries (h : Delivers links w w') (hw : Carries links w) : Carries links w' where
  sources hl m hm := by
    obtain ⟨n, hn, hmn⟩ := h.resembles _ m hm
    rw [hmn.kinds]
    exact hw.sources hl n hn
  targets hl m hm := by
    obtain ⟨n, hn, hmn⟩ := h.resembles _ m hm
    rw [hmn.kinds, hmn.rights]
    exact hw.targets hl n hn

end Delivers

theorem Carries.of_nodes (h : Carries links w) (hn : w'.nodes = w.nodes) : Carries links w' where
  sources hl n hn' := h.sources hl n ((node?_congr hn).symm.trans hn')
  targets hl n hn' := h.targets hl n ((node?_congr hn).symm.trans hn')

/-- What goes out of a field along a route is of the kind of the route. -/
theorem Carries.kind_dispatch (hs : Sound Catalog.withScenes w) (h : Carries links w) {s : Slot} {r : Route} {k : Kind}
    (hl : links s r k) {d : Dispatch} (hd : w.dispatch? s.1 s.2 = some d) : d.value.kind = k := by
  unfold dispatch? at hd
  split at hd
  · rename_i n hn
    split at hd
    · obtain ⟨f, hf, rfl⟩ := Option.map_eq_some_iff.1 hd
      have hkind := h.sources hl n hn
      rw [n.kind?_eq_map (hs.kinds n (mem_nodes_of_node? hn)), hf] at hkind
      exact Option.some.inj hkind
    · cases hd
  · cases hd

/-- The parts of a cascade refuse nothing at the end of routes that fit. -/
def delivering (links : Links) : CascadeRule where
  Inv w := Sound Catalog.withScenes w ∧ Carries links w
  Fit w value := value.references ⊆ w.held
  Holdable w ids := ∀ id ∈ ids, w.isLive id = true
  Rel w w' := Proceeds Catalog.withScenes w w' ∧ Delivers links w w'
  Suits _ slot value := ∃ s r, links s r value.kind ∧ r.slot = slot
  Due s r value := ∀ k, links s r k → value.kind = k
  refl w := ⟨.refl _ w, .refl links w⟩
  trans h h' := ⟨h.1.trans h'.1, h.2.trans h'.2⟩
  inv_rel hi h := ⟨hi.1.leads Catalog.regular_withScenes h.1.leads, h.2.carries hi.2⟩
  fit_rel _ h hf := h.1.held ▸ hf
  log w level text hlevel :=
    ⟨(proceeding Catalog.regular_withScenes).log w level text hlevel, .of_calm (.enter w rfl)⟩
  release ids _ := ⟨proceeds_release _ ids _, .of_calm (calm_release ids _)⟩
  holdable _ hn := by simpa using isLive_of_node? hn
  inv_held hi hold := ⟨hi.1.change Catalog.regular_withScenes (.held _ _ hold), hi.2.of_nodes rfl⟩
  fit_held := @references_subset_holdAll
  held _ hold h := ⟨.holding hold h.1, .holding h.2⟩
  inv_entered hin hi :=
    ⟨(hi.1.entered hin).1, hi.2.of_nodes (hi.1.entered hin).2.2⟩
  fit_entered := @references_subset_entered
  suits_entered _ h := h
  left hin h := ⟨h.1.entered hin, .framed hin h.2⟩
  receive {w n name value} hi hn hf := by
    refine ⟨⟨proceeds_receive Catalog.regular_withScenes hi.1 hn (hi.1.of_held hf), .of_calm (calm_receive ..)⟩, ?_⟩
    rintro ⟨s, r, hl, hslot⟩
    obtain ⟨htarget, hfield⟩ : r.target = n.id ∧ r.field = name := Prod.mk.inj hslot
    obtain ⟨hkind, hset⟩ := hi.2.targets hl n (htarget ▸ hn)
    exact receive_eq_ok hi.1 hn (hfield ▸ hkind) (hfield ▸ hset)
  dispatched {w id name d} hi hd := by
    have hlive := hi.1.dispatch hd
    exact ⟨hlive, List.subset_append_left _ _, fun r _ k hl => hi.2.kind_dispatch hi.1 (s := (id, name)) hl hd⟩
  followed {v s r value error} w _ hdue hsuits := by
    refine ⟨.enter w rfl, .enter w ?_⟩
    rintro ⟨⟨source, output⟩, ⟨target, input⟩, k, refused, refusal, hl, heq⟩
    obtain ⟨rfl, rfl, rfl, rfl, rfl, rfl⟩ := Step.followed.inj (Entry.step.inj heq)
    -- the value has the kind of the route, so its end was suited to it
    cases hsuits ⟨s, r, (hdue k hl).symm ▸ hl, rfl⟩

/-! ### Runs -/

section Runs

variable (hi : (delivering links).Inv w)
include hi

theorem delivers_emitField (hname : name ≠ childrenField) (hv : value.references ⊆ w.held) :
    (delivering links).Rel w (w.emitField id name value).2 := by
  refine (delivering links).emitField hi fun n w' hn hid hin => ?_
  obtain ⟨hs', hheld, -⟩ := hi.1.entered hin
  exact ⟨proceeds_produce (hs'.of_held (hheld ▸ hv)) (.of_ne hname), .of_calm (calm_produce ..)⟩

theorem delivers_emitOutput (n : Node) (hname : name ≠ childrenField) (hv : value.references = []) :
    (delivering links).Rel w (w.emitOutput n name value) := by
  have h : (delivering links).Rel w (w.emitField n.id name value).2 :=
    delivers_emitField hi hname (by simp [hv])
  unfold emitOutput
  split <;> (rename_i heq; rw [heq] at h)
  · exact h
  · exact (delivering links).trans h ((delivering links).log _ _ _ (by decide))

/-- Outputs of a node, one after the other. -/
theorem delivers_outputs {n : Node} {v : World} (hname : name ≠ childrenField) (hv : value.references = [])
    (h : (delivering links).Rel w v) : (delivering links).Rel w (v.emitOutput n name value) :=
  (delivering links).trans h (delivers_emitOutput ((delivering links).inv_rel hi h) n hname hv)

theorem delivers_update (id : NodeId) (time : Timestamp) : (delivering links).Rel w (w.update id time) := by
  have hbegun : (delivering links).Rel w (w.step (.updating id)) := ⟨.enter w rfl, .of_calm (.enter w rfl)⟩
  unfold update
  split
  · exact (delivering links).refl w
  rename_i n hn
  dsimp only
  split
  · exact updateTimer_induction (I := (delivering links).Rel w) n time
      (fun _ _ h => (delivering links).trans h ((delivering links).log _ _ _ (by decide)))
      (fun _ _ _ hname hv h => delivers_outputs hi hname hv h) hbegun
  · have htold : (delivering links).Rel w ((w.step (.updating id)).tell (.updated id time)) :=
      (delivering links).trans hbegun ⟨.enter _ rfl, .of_calm (.enter _ rfl)⟩
    have htime : (Field.single .time time.seconds time).references = [] := references_single (by decide) _ _
    exact (delivering links).trans htold (delivers_emitField ((delivering links).inv_rel hi htold) (by decide)
      (by simp [htime]))
  · exact hbegun

theorem delivers_mouseEvent (id : NodeId) (e : MouseEvent) (now : Timestamp) :
    (delivering links).Rel w (w.mouseEvent id e now).2 := by
  have hbegun : (delivering links).Rel w (w.step (.offeringInput id)) := ⟨.enter w rfl, .of_calm (.enter w rfl)⟩
  unfold mouseEvent
  split
  · exact (delivering links).refl w
  rename_i n hn
  dsimp only
  split
  · exact touch_induction (I := (delivering links).Rel w) n e now
      (fun _ _ _ hname hv h => delivers_outputs hi hname hv h) hbegun
  · exact (delivering links).trans hbegun ⟨.enter _ rfl, .of_calm (.enter _ rfl)⟩
  · exact hbegun

end Runs

theorem delivers_keyEvent (w : World) (id : NodeId) (e : KeyEvent) : Delivers links w (w.keyEvent id e).2 := by
  have hbegun : Calm w (w.step (.offeringInput id)) := .enter w rfl
  unfold keyEvent
  split
  · exact .refl links w
  dsimp only
  split
  · exact .of_calm (hbegun.trans (.enter _ rfl))
  · exact .of_calm hbegun

/-- The calls by which a host plays a scene: it takes handles and gives them back, sets fields, and passes
on frames and input. -/
def Call.isPlay : Call → Bool
  | hold _ | drop _ | setField .. | emitField .. | update .. | mouse .. | key .. => true
  | _ => false

/-- A call by which a scene is played refuses no route that fits. -/
theorem Call.delivers {c : Call} (hplay : c.isPlay = true) (hc : c.Allowed Catalog.withScenes w)
    (hi : (delivering links).Inv w) : Delivers links w (c.run w) := by
  cases c with
  | hold id => exact .of_same rfl rfl
  | drop id =>
    have hunheld : Delivers links w { w with held := [id].foldl List.erase w.held } := .of_same rfl rfl
    exact hunheld.trans (.of_calm (calm_release [id] _))
  | setField id name value => exact ((delivering links).setField hi hc id name).2
  | emitField id name value => exact (delivers_emitField hi hc.2 hc.1).2
  | update id time => exact (delivers_update hi id time).2
  | mouse id e now => exact (delivers_mouseEvent hi id e now).2
  | key id e => exact delivers_keyEvent w id e
  | _ => cases hplay

/-- What comes out of a world by calls that play it. -/
inductive Plays : World → World → Prop
  | refl (w : World) : Plays w w
  | call {w v : World} {c : Call} (h : Plays w v) (hplay : c.isPlay = true)
      (hc : c.Allowed Catalog.withScenes v) : Plays w (c.run v)

/-- **Routes that fit are not refused** however long a scene is played, by induction on the calls. -/
theorem Plays.delivers {v : World} (h : Plays w v) (hs : Sound Catalog.withScenes w) (hw : Carries links w) :
    Sound Catalog.withScenes v ∧ Delivers links w v := by
  induction h with
  | refl => exact ⟨hs, .refl links w⟩
  | call _ hplay hc ih =>
    obtain ⟨hsv, hwv⟩ := ih
    have hcall := Call.delivers hplay hc ⟨hsv, hwv.carries hw⟩
    exact ⟨hsv.leads Catalog.regular_withScenes (Call.leads Catalog.regular_withScenes hsv hc), hwv.trans hcall⟩

end World

end SceneGraph
