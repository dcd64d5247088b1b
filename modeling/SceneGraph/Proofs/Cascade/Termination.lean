import SceneGraph.Proofs.Cascade.Calm

/-!
# Cascades end and leave the stack as they found it

The routes still ahead of a cascade are those that leave a field not on the cascade stack. Each level
of a cascade puts a field on the stack that a route leaves, so there are no more levels than routes, and
the bound on them is never met: whatever would be done there makes no difference. The journal tells of
every field that enters or leaves the stack, so the stack of every moment can be read off it
(`Journal.cascade`).

* `World.launch_congr`: deliveries that agree on the levels below a level agree on it.
* `World.iterate_nest_eq`: the bound on the levels is never met.
* `CascadeRule.unwinding`: a cascade takes off the stack what it puts there.
* `World.cascade_ends`: both together.
-/

namespace SceneGraph

/-- What an entry does to the cascade stack. -/
def Entry.onCascade : Entry → List Slot → List Slot
  | .step (.entered id name), stack => (id, name) :: stack
  | .step .left, stack => stack.tail
  | _, stack => stack

theorem Entry.onCascade_of_isCalm {e : Entry} (h : e.isCalm = true) (stack : List Slot) :
    e.onCascade stack = stack := by
  cases e with
  | step s => cases s <;> first | rfl | cases h
  | log _ _ => rfl
  | event _ => rfl

namespace Journal

/-- The cascade stack after some entries, if it was as given before. -/
def cascade (stack : List Slot) (news : Journal) : List Slot := news.foldr Entry.onCascade stack

theorem cascade_append (stack : List Slot) (news older : Journal) :
    cascade stack (news ++ older) = cascade (cascade stack older) news := List.foldr_append

theorem cascade_of_still {stack : List Slot} {news : Journal}
    (h : ∀ e ∈ news, e.onCascade stack = stack) : cascade stack news = stack := by
  induction news with
  | nil => rfl
  | cons e rest ih =>
    have hrest := ih fun e he => h e (List.mem_cons_of_mem _ he)
    rw [cascade, List.foldr_cons, ← cascade, hrest]
    exact h e List.mem_cons_self

end Journal

namespace World

variable {w w' w'' : World} {name : String} {value : Field}

/-! ### The stack -/

/-- In the end the stack is as it was before, and at no moment did it list a field twice. -/
structure Unwinds (w w' : World) : Prop where
  cascade : w'.cascade = w.cascade
  moments : ∃ news : Journal, w'.journal = news ++ w.journal ∧ news.cascade w.cascade = w'.cascade ∧
    ∀ older : Journal, older <:+ news → (older.cascade w.cascade).Nodup

namespace Unwinds

theorem of_still (hw : w.cascade.Nodup) (hc : w'.cascade = w.cascade) {news : Journal}
    (hj : w'.journal = news ++ w.journal) (hstill : ∀ e ∈ news, e.onCascade w.cascade = w.cascade) :
    Unwinds w w' := by
  refine ⟨hc, news, hj, (Journal.cascade_of_still hstill).trans hc.symm, fun older holder => ?_⟩
  rwa [Journal.cascade_of_still fun e he => hstill e (holder.subset he)]

theorem of_calm (hw : w.cascade.Nodup) (h : Calm w w') : Unwinds w w' := by
  obtain ⟨news, hnews, hcalm⟩ := h.journal
  exact of_still hw h.cascade hnews fun e he => Entry.onCascade_of_isCalm (hcalm e he) _

theorem enter (hw : w.cascade.Nodup) {e : Entry} (he : e.onCascade w.cascade = w.cascade) :
    Unwinds w (w.enter e) := by
  have hstill : ∀ e' ∈ [e], e'.onCascade w.cascade = w.cascade := by simpa using he
  exact of_still hw rfl rfl hstill

theorem trans (h : Unwinds w w') (h' : Unwinds w' w'') : Unwinds w w'' := by
  obtain ⟨hc, news, hnews, hreplay, hnodup⟩ := h
  obtain ⟨hc', more, hmore, hreplay', hnodup'⟩ := h'
  refine ⟨hc'.trans hc, more ++ news, by rw [hmore, hnews, List.append_assoc], ?_, ?_⟩
  · rw [Journal.cascade_append, hreplay, hreplay']
  · intro older holder
    -- a moment of the first part, or one of the second with all of the first behind it
    rcases List.suffix_or_suffix_of_suffix holder (List.suffix_append more news) with
      holder | ⟨before, rfl⟩
    · exact hnodup older holder
    · obtain ⟨rest, hrest⟩ := holder
      rw [← List.append_assoc, List.append_cancel_right_eq] at hrest
      rw [Journal.cascade_append, hreplay]
      exact hnodup' before ⟨rest, hrest⟩

/-- What is done while a field is on the stack is framed by putting it there and taking it off. -/
theorem framed {id : NodeId} (hw : w.cascade.Nodup) (hin : w.enterCascade id name = some w')
    (h : Unwinds w' w'') : Unwinds w w''.leaveCascade := by
  obtain ⟨hfree, rfl⟩ := enterCascade_eq_some hin
  obtain ⟨hc, news, hnews, hreplay, hnodup⟩ := h
  have hstack : w''.leaveCascade.cascade = w.cascade := by
    change w''.cascade.tail = w.cascade
    rw [hc]
    rfl
  have hentered : Journal.cascade w.cascade [.step (.entered id name)] = (id, name) :: w.cascade := rfl
  have hjournal : w''.leaveCascade.journal =
      .step .left :: (news ++ [.step (.entered id name)]) ++ w.journal := by
    change .step .left :: w''.journal = _
    rw [hnews]
    simp [step, World.enter]
  have hinner : Journal.cascade w.cascade (news ++ [.step (.entered id name)]) = w''.cascade := by
    rw [Journal.cascade_append, hentered]
    exact hreplay
  have hlast : Journal.cascade w.cascade (.step .left :: (news ++ [.step (.entered id name)])) =
      w.cascade := by
    change (Journal.cascade w.cascade (news ++ [.step (.entered id name)])).tail = w.cascade
    rw [hinner]
    exact hstack
  refine ⟨hstack, _, hjournal, hlast.trans hstack.symm, fun older holder => ?_⟩
  rcases List.suffix_cons_iff.1 holder with rfl | holder
  · rwa [hlast]
  rcases List.suffix_concat_iff.1 holder with rfl | ⟨before, rfl, hbefore⟩
  · exact hw
  · rw [Journal.cascade_append, hentered]
    exact hnodup before hbefore

end Unwinds

/-- The parts of a cascade unwind the stack, whatever the values and the world are. -/
def unwinding : CascadeRule :=
  .unconditional (fun w w' => Retains w w' ∧ (w.cascade.Nodup → Unwinds w w'))
    (fun w => ⟨.refl w, fun hw => .of_calm hw (.refl w)⟩)
    (fun h h' => ⟨h.1.trans h'.1, fun hw => (h.2 hw).trans (h'.2 (h.1.cascade.symm ▸ hw))⟩)
    (fun w _ _ => ⟨.of_nodes rfl rfl rfl, fun hw => .of_calm hw (.enter w rfl)⟩)
    (fun w ids => ⟨(calm_release ids w).toRetains, fun hw => .of_calm hw (calm_release ids w)⟩)
    (fun {v w} ids h => ⟨h.1.holding, fun hv => by
      have hunheld : Unwinds v { w with held := ids.foldl List.erase w.held } :=
        ⟨(h.2 hv).cascade, (h.2 hv).moments⟩
      have hnodup : w.cascade.Nodup := h.1.cascade.symm ▸ hv
      exact hunheld.trans (.of_calm hnodup (calm_release ids _))⟩)
    (fun {u v w id name} hin h => ⟨h.1.framed hin, fun hu => by
      obtain ⟨hfree, hv⟩ := enterCascade_eq_some hin
      have hnodup : v.cascade.Nodup := by rw [hv]; exact List.nodup_cons.2 ⟨hfree, hu⟩
      exact (h.2 hnodup).framed hu hin⟩)
    (fun {w} n name value _ =>
      ⟨(calm_receive w n name value).toRetains, fun hw => .of_calm hw (calm_receive w n name value)⟩)
    fun w _ _ _ _ => ⟨.of_nodes rfl rfl rfl, fun hw => .enter hw rfl⟩

theorem unwinding_setField (w : World) (id : NodeId) (name : String) (value : Field) :
    unwinding.Rel w (w.setField id name value).2 := unwinding.setField trivial trivial id name

theorem unwinding_emitField (w : World) (id : NodeId) (name : String) (value : Field) :
    unwinding.Rel w (w.emitField id name value).2 :=
  unwinding.emitField trivial fun n w' _ _ _ =>
    ⟨(calm_produce w' n name value).toRetains, fun hw => .of_calm hw (calm_produce ..)⟩

theorem retains_setField (w : World) (id : NodeId) (name : String) (value : Field) :
    Retains w (w.setField id name value).2 := (unwinding_setField w id name value).1

theorem retains_emitField (w : World) (id : NodeId) (name : String) (value : Field) :
    Retains w (w.emitField id name value).2 := (unwinding_emitField w id name value).1

theorem unwinds_setField (w : World) (id : NodeId) (name : String) (value : Field)
    (hw : w.cascade.Nodup) : Unwinds w (w.setField id name value).2 := (unwinding_setField w id name value).2 hw

theorem unwinds_emitField (w : World) (id : NodeId) (name : String) (value : Field)
    (hw : w.cascade.Nodup) : Unwinds w (w.emitField id name value).2 := (unwinding_emitField w id name value).2 hw

/-! ### The bound on the levels -/

/-- How many of some fields are not on the stack, as often as they are listed. -/
def outstanding (slots stack : List Slot) : Nat := (slots.filter (!stack.contains ·)).length

theorem outstanding_cons_le (slots stack : List Slot) (s : Slot) :
    outstanding slots (s :: stack) ≤ outstanding slots stack := by
  refine (List.monotone_filter_right slots fun t ht => ?_).length_le
  simp_all

theorem outstanding_cons_lt {slots stack : List Slot} {s : Slot} (hs : s ∈ slots) (hfree : s ∉ stack) :
    outstanding slots (s :: stack) < outstanding slots stack := by
  have hle := outstanding_cons_le slots stack s
  refine lt_of_le_of_ne hle fun heq => ?_
  have hsub : (slots.filter (!(s :: stack).contains ·)).Sublist (slots.filter (!stack.contains ·)) :=
    List.monotone_filter_right slots fun t ht => by simp_all
  have hmem : s ∈ slots.filter (!stack.contains ·) := List.mem_filter.2 ⟨hs, by simpa using hfree⟩
  rw [← hsub.eq_of_length heq] at hmem
  simpa using (List.mem_filter.1 hmem).2

/-- A world that has only some routes, of which less than a number are not under way. -/
structure Within (slots : List Slot) (bound : Nat) (w : World) : Prop where
  departures : w.departures.Sublist slots
  outstanding : outstanding slots w.cascade < bound

/-- Two deliveries that agree where less than a number of routes are not under way. -/
def AgreeBelow (slots : List Slot) (bound : Nat) (d d' : Delivery) : Prop :=
  ∀ id name value w, Within slots bound w → d id name value w = d' id name value w

variable {slots : List Slot} {bound : Nat} {d d' : Delivery}

theorem Within.retains (h : Within slots bound w) (hr : Retains w w') : Within slots bound w' :=
  ⟨hr.departures.trans h.departures, hr.cascade ▸ h.outstanding⟩

theorem Within.held (h : Within slots bound w) (ids : List NodeId) : Within slots bound (w.holdAll ids) :=
  ⟨h.departures, h.outstanding⟩

theorem mem_departures_of_dispatch {id : NodeId} {out : Dispatch}
    (h : w.dispatch? id name = some out) : (id, name) ∈ w.departures := by
  unfold dispatch? at h
  split at h
  · rename_i n hn
    split at h
    · rename_i hroutes
      simp only [Bool.and_eq_true, Bool.not_eq_true', List.isEmpty_eq_false_iff_exists_mem] at hroutes
      obtain ⟨-, r, hr⟩ := hroutes
      refine List.mem_flatMap.2 ⟨n, mem_nodes_of_node? hn, List.mem_map.2
        ⟨(name, r), mem_connections_of_mem_routesFrom hr, ?_⟩⟩
      rw [id_of_node? hn]
    · cases h
  · cases h

/-- While a field that was not on the stack is there, fewer routes are ahead, if any leaves it. -/
theorem Within.entered {id : NodeId} (h : Within slots (bound + 1) w)
    (hin : w.enterCascade id name = some w') :
    Within slots (bound + 1) w' ∧ ((id, name) ∈ slots → Within slots bound w') := by
  obtain ⟨hfree, rfl⟩ := enterCascade_eq_some hin
  have hle := outstanding_cons_le slots w.cascade (id, name)
  refine ⟨⟨h.departures, lt_of_le_of_lt hle h.outstanding⟩, fun hs => ⟨h.departures, ?_⟩⟩
  have hlt := outstanding_cons_lt hs hfree
  exact lt_of_lt_of_le hlt (Nat.lt_succ_iff.1 h.outstanding)

/-! Two deliveries that agree below make no difference to the parts of a level. The first keeps to the
rule of unwinding, so the parts before retain the routes and the stack. -/

section

variable (hd : unwinding.Sustains d) (h : AgreeBelow slots bound d d')

include h in
theorem hop_congr (hw : Within slots bound w) (n : Node) (name : String) (value : Field) (r : Route) :
    hop d n name value w r = hop d' n name value w r := by
  unfold hop
  split
  · rfl
  · rename_i target _
    rw [h target.id r.field value (w.hold target.id) (hw.held [target.id])]

include hd h in
theorem follow_congr (hw : Within slots bound w) (n : Node) (name : String) (out : Dispatch) :
    follow d n name out w = follow d' n name out w := by
  unfold follow
  generalize out.routes = routes
  induction routes generalizing w with
  | nil => rfl
  | cons r rest ih =>
    have hhop : unwinding.Rel w (hop d n name out.value w r) :=
      CascadeRule.hop hd trivial trivial trivial
    rw [List.foldl_cons, List.foldl_cons, ← hop_congr h hw]
    exact ih (hw.retains hhop.1)

include hd h in
theorem sendEmitted_congr (hw : Within slots (bound + 1) w) (n : Node) (name : String) :
    sendEmitted d n w name = sendEmitted d' n w name := by
  unfold sendEmitted
  cases hin : w.enterCascade n.id name with
  | none => rfl
  | some w' =>
    obtain ⟨hw', hlt⟩ := hw.entered hin
    cases hdispatch : w'.dispatch? n.id name with
    | none => simp only [hdispatch]
    | some out =>
      have hslot := hw'.departures.subset (mem_departures_of_dispatch hdispatch)
      simp only [hdispatch, holding]
      rw [follow_congr hd h ((hlt hslot).held _)]

include hd h in
theorem settle_congr (hw : Within slots (bound + 1) w) (n : Node) (after : Aftermath) :
    settle d n after w = settle d' n after w := by
  unfold settle
  have hreleased := hw.retains (calm_release after.released w).toRetains
  generalize release after.released w = v at hreleased
  generalize after.emitted = names
  induction names generalizing v with
  | nil => rfl
  | cons name rest ih =>
    have hsent : unwinding.Rel v (sendEmitted d n v name) := CascadeRule.sendEmitted hd trivial n name
    rw [List.foldl_cons, List.foldl_cons, ← sendEmitted_congr hd h hreleased]
    exact ih _ (hreleased.retains hsent.1)

include hd h in
theorem passOn_congr {n : Node} (hw : Within slots (bound + 1) w)
    (hlt : (n.id, name) ∈ slots → Within slots bound w) (after : Aftermath) :
    passOn d n name after w = passOn d' n name after w := by
  unfold passOn
  cases hdispatch : w.dispatch? n.id name with
  | none => exact settle_congr hd h hw n after
  | some out =>
    have hslot := hw.departures.subset (mem_departures_of_dispatch hdispatch)
    have hsettled : unwinding.Rel _ (settle d n after (w.holdAll out.value.references)) :=
      CascadeRule.settle hd trivial n after
    simp only [holding]
    rw [← settle_congr hd h (hw.held _), follow_congr hd h (((hlt hslot).held _).retains hsettled.1)]

include hd h in
/-- **A level of a cascade** is the same with deliveries that agree where one route less is ahead. -/
theorem launch_congr (hw : Within slots (bound + 1) w)
    {react : World → Node → Except NodeError Unit × Aftermath × World}
    (hreact : ∀ w n, Calm w (react w n).2.2) (id : NodeId) :
    launch react d id name w = launch react d' id name w := by
  unfold launch
  cases hn : w.node? id with
  | none => rfl
  | some n =>
    cases hin : w.enterCascade id name with
    | none => rfl
    | some w' =>
      obtain ⟨hw', hlt⟩ := hw.entered hin
      have hcalm := (hreact w' n).toRetains
      rcases hr : react w' n with ⟨_ | _, after, v⟩
      · simp only [hr, conclude]
      · rw [hr] at hcalm
        rw [← id_of_node? hn] at hlt
        simp only [hr, conclude]
        rw [passOn_congr hd h (hw'.retains hcalm) fun hs => (hlt hs).retains hcalm]

end

/-- Where fewer routes are ahead than levels are allowed, it makes no difference what is done at the
bound, nor whether more levels are allowed. -/
theorem agreeBelow_iterate (slots : List Slot) (depth : Nat) (bottom : Delivery) :
    AgreeBelow slots depth (deliverUpTo depth) (nest^[depth] bottom) := by
  induction depth with
  | zero => exact fun _ _ _ w hw => absurd hw.outstanding (Nat.not_lt_zero _)
  | succ depth ih =>
    intro id name value w hw
    rw [Function.iterate_succ_apply', deliverUpTo_succ]
    exact launch_congr (unwinding.deliverUpTo depth) ih hw (fun w n => calm_receive w n name value) id

theorem length_departures (w : World) : w.cascadeDepth = w.departures.length + 1 := by
  simp [cascadeDepth, departures, List.length_flatMap]

theorem within_departures (w : World) : Within w.departures w.cascadeDepth w := by
  refine ⟨.refl _, ?_⟩
  rw [length_departures]
  exact Nat.lt_succ_of_le (List.length_filter_le _ _)

/-- As many levels as there are routes, and one, are enough. -/
theorem iterate_nest_eq {depth : Nat} (hw : w.cascadeDepth ≤ depth) (bottom : Delivery) (id : NodeId)
    (name : String) (value : Field) : nest^[depth] bottom id name value w = w.setField id name value := by
  obtain ⟨more, rfl⟩ := Nat.exists_eq_add_of_le hw
  rw [Function.iterate_add_apply]
  exact (agreeBelow_iterate w.departures w.cascadeDepth (nest^[more] bottom) id name value w
    (within_departures w)).symm

theorem deliverUpTo_eq_iterate (depth : Nat) :
    deliverUpTo depth = nest^[depth] (fun _ _ _ w => (.ok (), w)) := by
  induction depth with
  | zero => rfl
  | succ depth ih => rw [deliverUpTo_succ, ih, Function.iterate_succ_apply']

/-- Setting a field from outside, each time with as many levels as the routes of the world ask for. -/
def fieldDelivery : Delivery := fun id name value w => w.setField id name value

/-- The levels of a cascade below the first are cascades of their own. -/
theorem agreeBelow_fieldDelivery (w : World) :
    AgreeBelow w.departures w.cascadeDepth (deliverUpTo w.cascadeDepth) fieldDelivery := by
  intro id name value v hv
  have hdepth : v.cascadeDepth ≤ w.cascadeDepth := by
    rw [length_departures, length_departures]
    exact Nat.succ_le_succ hv.departures.length_le
  rw [deliverUpTo_eq_iterate]
  exact iterate_nest_eq hdepth _ id name value

theorem nest_fieldDelivery (w : World) (id : NodeId) (name : String) (value : Field) :
    nest fieldDelivery id name value w = w.setField id name value := by
  have hw : Within w.departures (w.cascadeDepth + 1) w :=
    ⟨.refl _, Nat.lt_succ_of_lt (within_departures w).outstanding⟩
  have hlevel : nest (deliverUpTo w.cascadeDepth) id name value w = nest fieldDelivery id name value w :=
    launch_congr (unwinding.deliverUpTo _) (agreeBelow_fieldDelivery w) hw
      (fun w n => calm_receive w n name value) id
  rw [← hlevel, ← deliverUpTo_succ, deliverUpTo_eq_iterate]
  exact iterate_nest_eq (Nat.le_succ _) _ id name value

/-- An emitted output is sent out with any delivery that agrees with cascades below the bound. -/
theorem launch_produce_eq {deliver : Delivery}
    (h : AgreeBelow w.departures w.cascadeDepth (deliverUpTo w.cascadeDepth) deliver) (id : NodeId)
    (name : String) (value : Field) :
    launch (fun w n => w.produce n name value) deliver id name w = w.emitField id name value := by
  have hw : Within w.departures (w.cascadeDepth + 1) w :=
    ⟨.refl _, Nat.lt_succ_of_lt (within_departures w).outstanding⟩
  rw [emitField_eq]
  exact (launch_congr (unwinding.deliverUpTo _) h hw (fun w n => calm_produce w n name value) id).symm

/-- **Every cascade ends and leaves the stack as it found it**, in any world and whatever is set or
emitted, from inside or outside another cascade.

* As many levels as there are routes, and one, are enough: `bottom`, what is done beyond the last level,
  is never asked for. So a cascade is a cascade at the end of each route, without any bound.
* The stack is the same afterwards, and no field was on it twice at any moment. -/
theorem cascade_ends (w : World) (hw : w.cascade.Nodup) (id : NodeId) (name : String) (value : Field) :
    (∀ bottom depth, w.cascadeDepth ≤ depth →
      nest^[depth] bottom id name value w = w.setField id name value ∧
        launch (fun w n => w.produce n name value) (nest^[depth] bottom) id name w =
          w.emitField id name value) ∧
    (nest fieldDelivery id name value w = w.setField id name value ∧
      launch (fun w n => w.produce n name value) fieldDelivery id name w = w.emitField id name value) ∧
    Unwinds w (w.setField id name value).2 ∧ Unwinds w (w.emitField id name value).2 := by
  refine ⟨fun bottom depth hdepth => ⟨iterate_nest_eq hdepth bottom id name value, ?_⟩,
    ⟨nest_fieldDelivery w id name value, launch_produce_eq (agreeBelow_fieldDelivery w) id name value⟩,
    unwinds_setField w id name value hw, unwinds_emitField w id name value hw⟩
  obtain ⟨more, rfl⟩ := Nat.exists_eq_add_of_le hdepth
  refine launch_produce_eq ?_ id name value
  rw [Function.iterate_add_apply]
  exact agreeBelow_iterate w.departures w.cascadeDepth _

/-! ### Two filters that feed each other -/

/-- A filter whose outputs lead back to itself and to a second filter, which leads to the first. A field
of a third node is being set. -/
def feedback : World :=
  let spec : Specification :=
    ⟨"BooleanFilter", [⟨"set_boolean", .setExplicit, .single .boolean false⟩,
      ⟨"inputTrue", .getOnly, .single .boolean false⟩,
      ⟨"inputFalse", .getOnly, .single .boolean false⟩,
      ⟨"inputNegate", .getOnly, .single .boolean false⟩]⟩
  let node (id : Nat) (routes : List (String × List Route)) : Node :=
    { Node.fresh ⟨id⟩ spec .filter .detached with routes }
  { nodes := [node 1 [("inputTrue", [⟨⟨1⟩, "set_boolean"⟩, ⟨⟨2⟩, "set_boolean"⟩])],
      node 2 [("inputTrue", [⟨⟨1⟩, "set_boolean"⟩]), ("inputNegate", [⟨⟨2⟩, "inputFalse"⟩])]]
    held := [⟨1⟩, ⟨2⟩]
    cascade := [(⟨3⟩, "on")] }

/-- Five levels are enough for the four routes. -/
theorem cascade_ends_feedback :
    feedback.cascade.Nodup ∧ feedback.cascadeDepth = 5 ∧
      (∀ bottom, nest^[5] bottom ⟨1⟩ "set_boolean" (.single .boolean true) feedback =
        feedback.setField ⟨1⟩ "set_boolean" (.single .boolean true)) ∧
      Unwinds feedback (feedback.setField ⟨1⟩ "set_boolean" (.single .boolean true)).2 := by
  have hw : feedback.cascade.Nodup := by decide
  have h := cascade_ends feedback hw ⟨1⟩ "set_boolean" (.single .boolean true)
  exact ⟨hw, rfl, fun bottom => (h.1 bottom 5 (by decide)).1, h.2.2.1⟩

end World

end SceneGraph
