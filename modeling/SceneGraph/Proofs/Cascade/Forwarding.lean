import SceneGraph.Proofs.Cascade.Reacting

/-!
# What is stored goes out

While a field is set from outside, every value that some field takes over goes out along the routes that
leave the field, later in the same call. The exception are the children of a group that are added or
removed: the list of children takes over a value then, and nobody is told.

* `Journal.Forwards`: the journal tells that stored values went out.
* `World.Conducts`: what the parts of a cascade do; `World.conducting_nest` is one level, by what it does
  with the value itself and what the levels below do.
* `World.setField_forwards`: whole cascades, by induction on their depth.
* `World.setField_aside`: nothing goes out when children are added or removed.
-/

namespace SceneGraph

/-- The routes along which a change of a field goes out. -/
def Node.outlets (n : Node) (name : String) : List Route :=
  if (n.access? name).any (·.get) then n.routesFrom name else []

theorem Node.Resembles.outlets {m n : Node} (h : m.Resembles n) : m.outlets = n.outlets := by
  funext name
  rw [Node.outlets, Node.outlets, h.rights, Node.routesFrom_congr h.routes]

namespace Journal

/-- The innermost field on the stack changes the list of children through another field. -/
def Aside (stack : List Slot) (s : Slot) : Prop :=
  ∃ name, stack.head? = some (s.1, name) ∧ World.IsAside name s.2

/-- Every value that is stored goes out along the routes to live nodes, in the rest of the news or in what
comes after them. -/
def Forwards (outlets : Slot → List Route) (live : NodeId → Prop) (stack : List Slot)
    (news after : Journal) : Prop :=
  ∀ later earlier (s : Slot) value, news = later ++ .step (.stored s.1 s.2 value) :: earlier →
    ¬ Aside (cascade stack earlier) s → ∀ r ∈ outlets s, live r.target →
      ∃ error, .step (.followed s.1 s.2 r.target r.field value error) ∈ after ++ later

variable {outlets : Slot → List Route} {live live' : NodeId → Prop} {stack : List Slot}
  {after after' news more : Journal}

theorem forwards_of_quiet (h : ∀ e ∈ news, e.isStored = false) : Forwards outlets live stack news after := by
  intro later earlier s value heq
  have hstored := h (.step (.stored s.1 s.2 value)) (by rw [heq]; simp)
  cases hstored

theorem Forwards.mono (h : Forwards outlets live stack news after) (hlive : ∀ id, live' id → live id)
    (hafter : after ⊆ after') : Forwards outlets live' stack news after' := by
  intro later earlier s value heq haside r hr htarget
  obtain ⟨error, hmem⟩ := h later earlier s value heq haside r hr (hlive _ htarget)
  refine ⟨error, ?_⟩
  rcases List.mem_append.1 hmem with hmem | hmem
  · exact List.mem_append_left _ (hafter hmem)
  · exact List.mem_append_right _ hmem

/-- Newer and older entries. -/
theorem Forwards.append (h : Forwards outlets live (cascade stack news) more after)
    (h' : Forwards outlets live stack news (after ++ more)) :
    Forwards outlets live stack (more ++ news) after := by
  intro later earlier s value heq haside r hr htarget
  rcases List.append_eq_append_iff.1 heq with ⟨rest, rfl, hnews⟩ | ⟨rest, hmore, hcons⟩
  · obtain ⟨error, hmem⟩ := h' rest earlier s value hnews haside r hr htarget
    exact ⟨error, by rwa [← List.append_assoc]⟩
  · cases rest with
    | nil =>
      -- the entry is the newest of the older ones
      rw [List.append_nil] at hmore
      obtain ⟨error, hmem⟩ := h' [] earlier s value hcons.symm haside r hr htarget
      exact ⟨error, by rwa [List.append_nil, hmore] at hmem⟩
    | cons e rest =>
      obtain ⟨rfl, rfl⟩ : _ ∧ earlier = rest ++ news := List.cons.inj hcons
      rw [cascade_append] at haside
      exact h later rest s value hmore haside r hr htarget

end Journal

namespace World

variable {types : Catalog} {outlets : Slot → List Route} {u v w w' : World} {n : Node} {id : NodeId}
  {name : String} {value : Field} {r : Route}

/-- Between two moments a value was taken from a field along a route. -/
def Sends (w w' : World) (s : Slot) (r : Route) (value : Field) : Prop :=
  ∃ error news, w'.journal = news ++ w.journal ∧
    .step (.followed s.1 s.2 r.target r.field value error) ∈ news

/-- The moments may be further apart. -/
theorem Sends.between {s : Slot} (h : Sends v w s r value) (hu : u.journal <:+ v.journal)
    (hx : w.journal <:+ w'.journal) : Sends u w' s r value := by
  obtain ⟨error, news, hnews, hmem⟩ := h
  obtain ⟨before, hbefore⟩ := hu
  obtain ⟨after, hafter⟩ := hx
  refine ⟨error, after ++ news ++ before, ?_, ?_⟩
  · rw [← hafter, hnews, ← hbefore, List.append_assoc, List.append_assoc]
  · exact List.mem_append_left _ (List.mem_append_right _ hmem)

/-! ### Parts of a cascade -/

/-- A part of a cascade in which stored values go out. The outputs of a filter stay as they are while its
input is being set. -/
structure Conducts (types : Catalog) (outlets : Slot → List Route) (w w' : World) : Prop where
  proceeds : Proceeds types w w'
  retains : Retains w w'
  outputs : ∀ (s : Slot) n, w'.node? s.1 = some n → n.behavior = .filter →
    (s.1, "set_boolean") ∈ w.cascade → w'.fieldAt s = w.fieldAt s
  moments : ∃ news : Journal, w'.journal = news ++ w.journal ∧ news.cascade w.cascade = w.cascade ∧
    news.Forwards outlets (w'.isLive · = true) w.cascade []

namespace Conducts

theorem suffix (h : Conducts types outlets w w') : w.journal <:+ w'.journal := by
  obtain ⟨news, hnews, -⟩ := h.moments
  exact ⟨news, hnews.symm⟩

/-- Nothing is stored. -/
theorem of_preserves (hp : Proceeds types w w') (hr : Retains w w') (h : Preserves w w')
    (hstill : ∀ news : Journal, w'.journal = news ++ w.journal → news.cascade w.cascade = w.cascade) :
    Conducts types outlets w w' := by
  obtain ⟨hfields, news, hnews, hquiet⟩ := h
  exact ⟨hp, hr, fun s n hn _ _ => (hfields s (isLive_of_node? hn)).2, news, hnews, hstill news hnews,
    Journal.forwards_of_quiet hquiet⟩

theorem of_calm (hp : Proceeds types w w') (hc : Calm w w') (h : Preserves w w') :
    Conducts types outlets w w' := by
  refine of_preserves hp hc.toRetains h fun news hnews => ?_
  obtain ⟨entries, hentries, hcalm⟩ := hc.journal
  obtain rfl : news = entries := List.append_cancel_right (hnews.symm.trans hentries)
  exact Journal.cascade_of_still fun e he => Entry.onCascade_of_isCalm (hcalm e he) _

theorem refl (w : World) : Conducts types outlets w w := .of_calm (.refl types w) (.refl w) (.refl w)

theorem log (w : World) (level : Level) (text : String) (hlevel : level ≠ .error) :
    Conducts types outlets w (w.log level text) := by
  refine .of_calm (.enter w ?_) (.enter w rfl) (.enter w rfl)
  cases level <;> first | rfl | exact absurd rfl hlevel

theorem release (ids : List NodeId) (w : World) : Conducts types outlets w (World.release ids w) :=
  .of_calm (proceeds_release types ids w) (calm_release ids w) (preserves_release ids w)

theorem followed (w : World) (s : Slot) (r : Route) (value : Field) (error : Option NodeError) :
    Conducts types outlets w (w.step (.followed s.1 s.2 r.target r.field value error)) := by
  refine .of_preserves (.enter w rfl) (.of_nodes rfl rfl rfl) (.enter w rfl) fun news hnews => ?_
  obtain rfl : news = [_] := List.append_cancel_right (hnews.symm.trans rfl)
  rfl

theorem trans (h : Conducts types outlets u v) (h' : Conducts types outlets v w) : Conducts types outlets u w := by
  obtain ⟨news, hnews, hstack, hforwards⟩ := h.moments
  obtain ⟨more, hmore, hstack', hforwards'⟩ := h'.moments
  have hcascade := h.retains.cascade
  refine ⟨h.proceeds.trans h'.proceeds, h.retains.trans h'.retains, fun s n hn hb hbusy => ?_, more ++ news,
    by rw [hmore, hnews, List.append_assoc], ?_, ?_⟩
  · have hlater := h'.outputs s n hn hb (by rwa [hcascade])
    obtain ⟨m, hm, hnm⟩ := h'.retains.resembles s.1 n hn
    exact hlater.trans (h.outputs s m hm (hnm.behavior ▸ hb) hbusy)
  · rw [Journal.cascade_append, hstack, ← hcascade, hstack']
  · rw [hcascade] at hforwards'
    refine .append (by rwa [hstack]) ?_
    exact hforwards.mono (fun _ => h'.retains.isLive) (List.nil_subset _)

/-- Some nodes are held while something is done. -/
theorem holding {ids : List NodeId} (hlive : ∀ id ∈ ids, w.isLive id = true)
    (h : Conducts types outlets (w.holdAll ids) w') : Conducts types outlets w (w'.dropAll ids) := by
  have hheld : ids.foldl List.erase w'.held = w.held := by
    rw [h.retains.held]
    exact foldl_erase_append ids w.held
  have hproceeds : Proceeds types w { w' with held := ids.foldl List.erase w'.held } :=
    ⟨.trans (.single (.held w ids hlive)) (h.proceeds.leads.tail (.unheld w' ids)), hheld, h.proceeds.cascade⟩
  have hretains : Retains w { w' with held := ids.foldl List.erase w'.held } :=
    ⟨hheld, h.retains.cascade, h.retains.departures, h.retains.pending, h.retains.resembles⟩
  have hunheld : Conducts types outlets w { w' with held := ids.foldl List.erase w'.held } :=
    ⟨hproceeds, hretains, h.outputs, h.moments⟩
  exact hunheld.trans (.release ids _)

/-- A field is on the stack while its node stores something and then something else is done. What the node has
stored, unless aside, is on the way by then. -/
theorem reacted {touched : String → Prop} (hin : w.enterCascade id name = some w') (hp : Proceeds types w' u)
    (hc : Calm w' u) (hstores : Stores id touched w' u)
    (hoffers : ∀ n, w'.node? id = some n → n.behavior = .filter → (id, "set_boolean") ∈ w.cascade → ∀ f, ¬ touched f)
    (h : Conducts types outlets u v)
    (hsends : ∀ f value, touched f → ¬ IsAside name f → u.fieldAt (id, f) = some value →
      ∀ r ∈ outlets (id, f), v.isLive r.target = true → Sends u v (id, f) r value) :
    Conducts types outlets w v.leaveCascade := by
  obtain ⟨q, hq, hcalm⟩ := hc.journal
  obtain ⟨news, hnews, hstack, hforwards⟩ := h.moments
  have hstack_u : u.cascade = (id, name) :: w.cascade := by
    rw [hc.cascade]
    obtain ⟨-, rfl⟩ := enterCascade_eq_some hin
    rfl
  have hjournal : w'.journal = .step (.entered id name) :: w.journal := by
    obtain ⟨-, rfl⟩ := enterCascade_eq_some hin
    rfl
  have hentered : Journal.cascade w.cascade [.step (.entered id name)] = (id, name) :: w.cascade := rfl
  have hstill : ∀ older : Journal, older ⊆ q →
      older.cascade ((id, name) :: w.cascade) = (id, name) :: w.cascade := fun older holder =>
    Journal.cascade_of_still fun e he => Entry.onCascade_of_isCalm (hcalm e (holder he)) _
  have hinner : Journal.cascade w.cascade (q ++ [.step (.entered id name)]) = (id, name) :: w.cascade := by
    rw [Journal.cascade_append, hentered, hstill q (List.Subset.refl q)]
  rw [hstack_u] at hstack hforwards
  refine ⟨(hp.trans h.proceeds).entered hin, (hc.toRetains.trans h.retains).framed hin, ?_,
    [.step .left] ++ (news ++ (q ++ [.step (.entered id name)])), ?_, ?_, ?_⟩
  · intro s n hn hb hbusy
    have hlater : v.fieldAt s = u.fieldAt s :=
      h.outputs s n hn hb (hstack_u ▸ List.mem_cons_of_mem _ hbusy)
    obtain ⟨m, hm, hnm⟩ := (hc.toRetains.trans h.retains).resembles s.1 n hn
    have hkept : u.fieldAt s = w'.fieldAt s := by
      refine hstores.others s fun hid => ?_
      exact hoffers m (hid ▸ hm) (hnm.behavior ▸ hb) (hid ▸ hbusy) s.2
    exact hlater.trans (hkept.trans (fieldAt_congr (nodes_enterCascade hin) s))
  · change .step .left :: v.journal = _
    rw [hnews, hq, hjournal]
    simp
  · rw [Journal.cascade_append, Journal.cascade_append, hinner, hstack]
    rfl
  · -- what the levels below store, and before it what the node itself has stored
    refine .append (Journal.forwards_of_quiet (by simp [Entry.isStored])) (.append ?_ (.append ?_ ?_))
    · rw [hinner]
      exact hforwards.mono (fun _ hlive => hlive) (List.nil_subset _)
    · intro later earlier s value heq haside r hr htarget
      obtain ⟨q', hq', hstored⟩ := hstores.journal
      obtain rfl : q = q' := List.append_cancel_right (hq.symm.trans hq')
      obtain ⟨hid, htouched, hfield⟩ := hstored s value (by rw [heq]; simp)
      obtain ⟨source, f⟩ := s
      obtain rfl : source = id := hid
      rw [hentered, hstill earlier (by rw [heq]; intro e he; simp [he])] at haside
      have hnotaside : ¬ IsAside name f := fun h => haside ⟨name, rfl, h⟩
      obtain ⟨error, news', hnews', hmem⟩ := hsends f value htouched hnotaside hfield r hr htarget
      obtain rfl : news = news' := List.append_cancel_right (hnews.symm.trans hnews')
      exact ⟨error, by simp [hmem]⟩
    · exact Journal.forwards_of_quiet (by simp [Entry.isStored])

/-- A field is on the stack while something else is done. -/
theorem framed (hin : w.enterCascade id name = some w') (h : Conducts types outlets w' v) :
    Conducts types outlets w v.leaveCascade := by
  have hnothing : Stores id (fun _ => False) w' w' := .refl w'
  exact reacted hin (.refl types w') (.refl w') hnothing (fun _ _ _ _ _ hf => hf) h fun _ _ hf => hf.elim

end Conducts

/-- What was sent while a field was on the stack. -/
theorem Sends.framed {s : Slot} (hin : w.enterCascade id name = some w') (h : Sends w' v s r value) :
    Sends w v.leaveCascade s r value := by
  obtain ⟨-, rfl⟩ := enterCascade_eq_some hin
  exact h.between (List.suffix_cons _ _) (List.suffix_cons _ _)

/-! ### Along routes -/

/-- A sound world with the given routes. An output of a filter is on the stack only while its input is. -/
structure Primed (types : Catalog) (outlets : Slot → List Route) (w : World) : Prop where
  sound : Sound types w
  wired : ∀ id n, w.node? id = some n → ∀ name, n.outlets name = outlets (id, name)
  gated : ∀ id n name, w.node? id = some n → n.behavior = .filter → (id, name) ∈ w.cascade →
    (id, "set_boolean") ∈ w.cascade

/-- A delivery to nodes that are held, of values whose nodes are held. -/
def Conducting (types : Catalog) (outlets : Slot → List Route) (deliver : Delivery) : Prop :=
  ∀ id name value w, Primed types outlets w → value.references ⊆ w.held → id ∈ w.held →
    Conducts types outlets w (deliver id name value w).2

theorem Primed.of_nodes (h : Primed types outlets w) (hs : Sound types w') (hn : w'.nodes = w.nodes)
    (hc : w'.cascade = w.cascade) : Primed types outlets w' where
  sound := hs
  wired id n hm := h.wired id n ((node?_congr hn).symm.trans hm)
  gated id n name hm hb := by
    rw [hc]
    exact h.gated id n name ((node?_congr hn).symm.trans hm) hb

theorem Primed.resembling (h : Primed types outlets w) (hs : Sound types w') (hr : Retains w w') :
    Primed types outlets w' where
  sound := hs
  wired id m hm name := by
    obtain ⟨n, hn, hmn⟩ := hr.resembles id m hm
    rw [hmn.outlets]
    exact h.wired id n hn name
  gated id m name hm hb := by
    obtain ⟨n, hn, hmn⟩ := hr.resembles id m hm
    rw [hr.cascade]
    exact h.gated id n name hn (hmn.behavior ▸ hb)

/-- What goes out of a field is its value, along the routes that leave it. -/
theorem Primed.dispatched (h : Primed types outlets w) {d : Dispatch} (hd : w.dispatch? id name = some d) :
    d.routes = outlets (id, name) ∧ w.fieldAt (id, name) = some d.value := by
  unfold dispatch? at hd
  split at hd
  · rename_i n hn
    split at hd
    · rename_i hout
      obtain ⟨f, hf, rfl⟩ := Option.map_eq_some_iff.1 hd
      rw [Bool.and_eq_true] at hout
      refine ⟨?_, by rw [fieldAt, hn]; exact hf⟩
      rw [← h.wired id n hn name, Node.outlets, if_pos hout.1]
    · cases hd
  · cases hd

/-- If nothing goes out of a field, no route leaves it. -/
theorem Primed.undispatched (h : Primed types outlets w) (hd : w.dispatch? id name = none)
    (hv : w.fieldAt (id, name) = some value) : outlets (id, name) = [] := by
  obtain ⟨n, hn, hf⟩ := Option.bind_eq_some_iff.1 hv
  rw [← h.wired id n hn name, Node.outlets]
  unfold dispatch? at hd
  rw [hn] at hd
  dsimp only at hd hf
  rw [hf] at hd
  split
  · rename_i hget
    simpa [hget] using hd
  · rfl

theorem suffix_dropAll (w : World) (ids : List NodeId) : w.journal <:+ (w.dropAll ids).journal := by
  obtain ⟨news, hnews, -⟩ := (preserves_release ids { w with held := ids.foldl List.erase w.held }).journal
  exact ⟨news, hnews.symm⟩

theorem isLive_of_dropAll {ids : List NodeId} (h : (w.dropAll ids).isLive id = true) : w.isLive id = true :=
  (calm_release ids { w with held := ids.foldl List.erase w.held }).isLive h

section Levels

variable {deliver : Delivery} (hr : types.Regular) (hd : Conducting types outlets deliver)

include hr in
theorem Primed.later (h : Primed types outlets w) (hc : Conducts types outlets w w') : Primed types outlets w' :=
  h.resembling (h.sound.leads hr hc.proceeds.leads) hc.retains

include hr in
theorem Primed.holding (h : Primed types outlets w) {ids : List NodeId} (hlive : ∀ id ∈ ids, w.isLive id = true) :
    Primed types outlets (w.holdAll ids) :=
  h.of_nodes (h.sound.change hr (.held w ids hlive)) rfl rfl

include hr hd

/-- A value that is sent along a route goes there, if the node at its end is still there in the end. -/
theorem conducts_hop (hw : Primed types outlets w) (hv : value.references ⊆ w.held) (n : Node) (name : String)
    (r : Route) :
    Conducts types outlets w (hop deliver n name value w r) ∧
      ((hop deliver n name value w r).isLive r.target = true →
        Sends w (hop deliver n name value w r) (n.id, name) r value) := by
  unfold hop
  cases htarget : w.node? r.target with
  | none =>
    refine ⟨.log w .debug _ (by decide), fun hlive => ?_⟩
    obtain ⟨m, hm⟩ := isLive_iff.1 hlive
    exact absurd (htarget.symm.trans hm) (by simp)
  | some target =>
    have hid : target.id = r.target := id_of_node? htarget
    have hlive : ∀ id ∈ [target.id], w.isLive id = true := by simpa [hid] using isLive_of_node? htarget
    have hdelivered : Conducts types outlets (w.hold target.id)
        (deliver target.id r.field value (w.hold target.id)).2 :=
      hd target.id r.field value _ (hw.holding hr hlive) (references_subset_holdAll [target.id] hv) List.mem_cons_self
    -- whether the value is taken or refused, the journal tells that it was sent
    have hlanded : ∀ v error x, Conducts types outlets (w.hold target.id) v →
        Conducts types outlets (v.step (.followed n.id name r.target r.field value error)) x →
          Conducts types outlets w (x.drop target.id) ∧ Sends w (x.drop target.id) (n.id, name) r value := by
      intro v error x hv hx
      have hsent : Sends v (v.step (.followed n.id name r.target r.field value error)) (n.id, name) r value :=
        ⟨error, [_], rfl, List.mem_singleton_self _⟩
      have hall := (hv.trans (.followed v (n.id, name) r value error)).trans hx
      exact ⟨hall.holding hlive, hsent.between hv.suffix (hx.suffix.trans (suffix_dropAll x _))⟩
    rw [← hid] at hlanded
    dsimp only
    split
    · rename_i v heq
      rw [heq] at hdelivered
      obtain ⟨hconducts, hsends⟩ := hlanded v none _ hdelivered (.refl _)
      exact ⟨hconducts, fun _ => hsends⟩
    · rename_i e v heq
      rw [heq] at hdelivered
      obtain ⟨hconducts, hsends⟩ := hlanded v (some e) _ hdelivered (.log _ .warn _ (by decide))
      exact ⟨hconducts, fun _ => hsends⟩

/-- A value that is sent along several routes. -/
theorem conducts_follow (hw : Primed types outlets w) (hv : value.references ⊆ w.held) (n : Node) (name : String)
    (routes : List Route) :
    Conducts types outlets w (routes.foldl (hop deliver n name value) w) ∧
      ∀ r ∈ routes, (routes.foldl (hop deliver n name value) w).isLive r.target = true →
        Sends w (routes.foldl (hop deliver n name value) w) (n.id, name) r value := by
  induction routes generalizing w with
  | nil => exact ⟨.refl w, by simp⟩
  | cons first rest ih =>
    obtain ⟨hhop, hsent⟩ := conducts_hop hr hd hw hv n name first
    obtain ⟨hrest, hsends⟩ := ih (hw.later hr hhop) (hhop.retains.held ▸ hv)
    refine ⟨hhop.trans hrest, fun r hmem hlive => ?_⟩
    rcases List.mem_cons.1 hmem with rfl | hmem
    · exact (hsent (hrest.retains.isLive hlive)).between (List.suffix_refl _) hrest.suffix
    · exact (hsends r hmem hlive).between hhop.suffix (List.suffix_refl _)

/-- The value of a field goes out along its routes after something else was done, which stays done. -/
theorem conducts_dispatched (hw : Primed types outlets w) (n : Node) (name : String) (act : World → World)
    {d : Dispatch} (hdispatch : w.dispatch? n.id name = some d)
    (hact : Conducts types outlets (w.holdAll d.value.references) (act (w.holdAll d.value.references))) :
    Conducts types outlets w (holding d (fun v => follow deliver n name d (act v)) w) ∧
      (∀ r ∈ d.routes, (holding d (fun v => follow deliver n name d (act v)) w).isLive r.target = true →
        Sends w (holding d (fun v => follow deliver n name d (act v)) w) (n.id, name) r d.value) ∧
      ∀ (s : Slot) r value, (holding d (fun v => follow deliver n name d (act v)) w).isLive r.target = true →
        ((act (w.holdAll d.value.references)).isLive r.target = true →
          Sends (w.holdAll d.value.references) (act (w.holdAll d.value.references)) s r value) →
        Sends w (holding d (fun v => follow deliver n name d (act v)) w) s r value := by
  have hlive := hw.sound.dispatch hdispatch
  have hw' := hw.holding hr hlive
  have hheld : d.value.references ⊆ (act (w.holdAll d.value.references)).held := by
    rw [hact.retains.held]
    exact List.subset_append_left _ _
  obtain ⟨hfollow, hsends⟩ := conducts_follow hr hd (hw'.later hr hact) hheld n name d.routes
  have hlast := suffix_dropAll (follow deliver n name d (act (w.holdAll d.value.references))) d.value.references
  refine ⟨(hact.trans hfollow).holding hlive, fun r hmem htarget => ?_, fun s r value htarget hsent => ?_⟩
  · exact (hsends r hmem (isLive_of_dropAll htarget)).between hact.suffix hlast
  · have hsent' := hsent (hfollow.retains.isLive (isLive_of_dropAll htarget))
    exact hsent'.between (List.suffix_refl _) (hfollow.suffix.trans hlast)

/-- An output that is sent out while the input of the filter is being set. -/
theorem conducts_sendEmitted (hw : Primed types outlets w) (n : Node) {name : String}
    (hbusy : (n.id, "set_boolean") ∈ w.cascade) (hfree : (n.id, name) ∉ w.cascade) :
    Conducts types outlets w (sendEmitted deliver n w name) ∧
      ∀ value, w.fieldAt (n.id, name) = some value → ∀ r ∈ outlets (n.id, name),
        (sendEmitted deliver n w name).isLive r.target = true →
          Sends w (sendEmitted deliver n w name) (n.id, name) r value := by
  have hin : w.enterCascade n.id name =
      some ({ w with cascade := (n.id, name) :: w.cascade }.step (.entered n.id name)) := by
    rw [enterCascade, if_neg (by simpa using hfree)]
  unfold sendEmitted
  rw [hin]
  dsimp only
  generalize hentered : ({ w with cascade := (n.id, name) :: w.cascade }.step (.entered n.id name)) = v at hin
  have hv : Primed types outlets v := by
    rw [← hentered]
    refine ⟨(hw.sound.entered (hentered ▸ hin)).1, hw.wired, fun id m f hm hb hf => ?_⟩
    rcases List.mem_cons.1 hf with hf | hf
    · obtain rfl : id = n.id := congrArg Prod.fst hf
      exact List.mem_cons_of_mem _ hbusy
    · exact List.mem_cons_of_mem _ (hw.gated id m f hm hb hf)
  have hfield := fieldAt_congr (nodes_enterCascade hin) (n.id, name)
  split
  · rename_i hdispatch
    refine ⟨.framed hin (.refl v), fun value hvalue r hr => ?_⟩
    rw [hv.undispatched hdispatch (hfield.trans hvalue)] at hr
    cases hr
  · rename_i d hdispatch
    obtain ⟨hroutes, hsent⟩ := hv.dispatched hdispatch
    obtain ⟨hconducts, hsends, -⟩ := conducts_dispatched hr hd hv n name (fun u => u) hdispatch (.refl _)
    refine ⟨.framed hin hconducts, fun value hvalue r hr hlive => ?_⟩
    obtain rfl : d.value = value := Option.some.inj (hsent.symm.trans (hfield.trans hvalue))
    exact (hsends r (hroutes ▸ hr) hlive).framed hin

/-- The outputs of a filter go out with the values that they had before the first of them did: meanwhile the
input of the filter is on the stack, so that nothing comes in. -/
theorem conducts_outputs (hw : Primed types outlets w) (n : Node) {names : List String} (hheld : n.id ∈ w.held)
    (hfilter : ∀ m, w.node? n.id = some m → m.behavior = .filter)
    (hbusy : (n.id, "set_boolean") ∈ w.cascade) (hfree : ∀ f ∈ names, (n.id, f) ∉ w.cascade) :
    Conducts types outlets w (names.foldl (sendEmitted deliver n) w) ∧
      ∀ f ∈ names, ∀ value, w.fieldAt (n.id, f) = some value → ∀ r ∈ outlets (n.id, f),
        (names.foldl (sendEmitted deliver n) w).isLive r.target = true →
          Sends w (names.foldl (sendEmitted deliver n) w) (n.id, f) r value := by
  induction names generalizing w with
  | nil => exact ⟨.refl w, by simp⟩
  | cons first rest ih =>
    obtain ⟨hone, hsent⟩ := conducts_sendEmitted hr hd hw n hbusy (hfree first List.mem_cons_self)
    have hcascade := hone.retains.cascade
    have hheld' : n.id ∈ (sendEmitted deliver n w first).held := hone.retains.held ▸ hheld
    have hw' := hw.later hr hone
    obtain ⟨m, hm⟩ := isLive_iff.1 (hw'.sound.held n.id hheld')
    obtain ⟨k, hk, hmk⟩ := hone.retains.resembles n.id m hm
    have hm_filter : m.behavior = .filter := hmk.behavior.trans (hfilter k hk)
    obtain ⟨hrest, hsends⟩ := ih hw' hheld'
      (fun m' hm' => by
        obtain rfl : m = m' := Option.some.inj (hm.symm.trans hm')
        exact hm_filter)
      (hcascade.symm ▸ hbusy) fun f hf => hcascade.symm ▸ hfree f (List.mem_cons_of_mem _ hf)
    refine ⟨hone.trans hrest, fun f hf value hvalue r hr hlive => ?_⟩
    rcases List.mem_cons.1 hf with rfl | hf
    · exact (hsent value hvalue r hr (hrest.retains.isLive hlive)).between (List.suffix_refl _) hrest.suffix
    · have hkept := hone.outputs (n.id, f) m hm hm_filter hbusy
      exact (hsends f hf value (hkept.trans hvalue) r hr hlive).between hone.suffix (List.suffix_refl _)

/-- What follows a reaction that may have left outputs of a filter to be sent out. -/
theorem conducts_settle (hw : Primed types outlets w) (n : Node) {after : Aftermath} (hheld : n.id ∈ w.held)
    (hfilter : after.emitted ≠ [] → ∀ m, w.node? n.id = some m → m.behavior = .filter)
    (hbusy : after.emitted ≠ [] → (n.id, "set_boolean") ∈ w.cascade)
    (hfree : ∀ f ∈ after.emitted, (n.id, f) ∉ w.cascade) :
    Conducts types outlets w (settle deliver n after w) ∧
      ∀ f ∈ after.emitted, ∀ value, w.fieldAt (n.id, f) = some value → ∀ r ∈ outlets (n.id, f),
        (settle deliver n after w).isLive r.target = true →
          Sends w (settle deliver n after w) (n.id, f) r value := by
  have hreleased : Conducts types outlets w (release after.released w) := .release _ w
  have hw' := hw.later hr hreleased
  have hheld' : n.id ∈ (release after.released w).held := hreleased.retains.held ▸ hheld
  unfold settle
  by_cases hnone : after.emitted = []
  · rw [hnone]
    exact ⟨hreleased, by simp⟩
  · obtain ⟨hall, hsends⟩ := conducts_outputs hr hd hw' n hheld'
      (fun m hm => by
        obtain ⟨k, hk, hmk⟩ := hreleased.retains.resembles n.id m hm
        exact hmk.behavior.trans (hfilter hnone k hk))
      (hreleased.retains.cascade.symm ▸ hbusy hnone)
      fun f hf => hreleased.retains.cascade.symm ▸ hfree f hf
    refine ⟨hreleased.trans hall, fun f hf value hvalue r hr hlive => ?_⟩
    have hkept := ((preserves_release after.released w).fields (n.id, f) (hw'.sound.held n.id hheld')).2
    exact (hsends f hf value (hkept.trans hvalue) r hr hlive).between hreleased.suffix (List.suffix_refl _)

/-- The value of the field that was set and those of the outputs that were left go out. -/
theorem conducts_passOn (hw : Primed types outlets w) (n : Node) (name : String) {after : Aftermath}
    (hheld : n.id ∈ w.held) (hfilter : after.emitted ≠ [] → ∀ m, w.node? n.id = some m → m.behavior = .filter)
    (hbusy : after.emitted ≠ [] → (n.id, "set_boolean") ∈ w.cascade)
    (hfree : ∀ f ∈ after.emitted, (n.id, f) ∉ w.cascade) :
    Conducts types outlets w (passOn deliver n name after w) ∧
      ∀ f, f = name ∨ f ∈ after.emitted → ∀ value, w.fieldAt (n.id, f) = some value → ∀ r ∈ outlets (n.id, f),
        (passOn deliver n name after w).isLive r.target = true →
          Sends w (passOn deliver n name after w) (n.id, f) r value := by
  unfold passOn
  cases hdispatch : w.dispatch? n.id name with
  | none =>
    obtain ⟨hsettle, hsends⟩ := conducts_settle hr hd hw n hheld hfilter hbusy hfree
    refine ⟨hsettle, fun f hf value hvalue r hr hlive => ?_⟩
    rcases hf with rfl | hf
    · rw [hw.undispatched hdispatch hvalue] at hr
      cases hr
    · exact hsends f hf value hvalue r hr hlive
  | some d =>
    obtain ⟨hroutes, hsent⟩ := hw.dispatched hdispatch
    obtain ⟨hsettle, houtputs⟩ := conducts_settle hr hd (hw.holding hr (hw.sound.dispatch hdispatch)) n
      (List.mem_append_right _ hheld) hfilter hbusy hfree
    obtain ⟨hall, hsends, hearlier⟩ := conducts_dispatched hr hd hw n name _ hdispatch hsettle
    refine ⟨hall, fun f hf value hvalue r hr hlive => ?_⟩
    rcases hf with rfl | hf
    · obtain rfl : d.value = value := Option.some.inj (hsent.symm.trans hvalue)
      exact hsends r (hroutes ▸ hr) hlive
    · exact hearlier (n.id, f) r value hlive (houtputs f hf value hvalue r hr)

/-- **One level of a cascade**: what the node stores goes out, if what is delivered below does. -/
theorem conducting_nest (helem : types.Elementary) : Conducting types outlets (nest deliver) := by
  intro id name value w hw hv hheld
  unfold nest launch
  cases hn : w.node? id with
  | none => exact .refl w
  | some n =>
    obtain rfl : n.id = id := id_of_node? hn
    dsimp only
    cases hin : w.enterCascade n.id name with
    | none => exact .refl w
    | some w' =>
      dsimp only
      obtain ⟨hs', hheld', hnodes⟩ := hw.sound.entered hin
      have hn' : w'.node? n.id = some n := by rw [node?_congr hnodes, hn]
      have hproceeds : Proceeds types w' (w'.receive n name value).2.2 :=
        proceeds_receive hr hs' hn' (hs'.of_held (hheld' ▸ hv))
      have hcalm : Calm w' (w'.receive n name value).2.2 := calm_receive w' n name value
      cases hresult : (w'.receive n name value).1 with
      | error e =>
        rw [receive_eq_of_error hs' helem hn' hresult]
        exact .framed hin (.release _ w')
      | ok u =>
        obtain ⟨hset, hstores, hfilter, hinput⟩ := stores_receive hs' helem hn' hresult
        generalize w'.receive n name value = result at hproceeds hcalm hresult hstores hfilter hinput ⊢
        obtain ⟨answer, after, v⟩ := result
        obtain rfl : answer = .ok u := hresult
        have honly : n.behavior = .filter → name = "set_boolean" := fun hb =>
          hs'.filter_input helem (mem_nodes_of_node? hn') hb hset
        obtain ⟨hnew, hstack⟩ : (n.id, name) ∉ w.cascade ∧ w'.cascade = (n.id, name) :: w.cascade := by
          obtain ⟨hnew, rfl⟩ := enterCascade_eq_some hin
          exact ⟨hnew, rfl⟩
        have hw' : Primed types outlets w' := by
          refine ⟨hs', fun id m hm => hw.wired id m ((node?_congr hnodes).symm.trans hm), fun id m f hm hb hf => ?_⟩
          rw [hstack] at hf ⊢
          rcases List.mem_cons.1 hf with hf | hf
          · obtain ⟨rfl, rfl⟩ := Prod.mk.inj hf
            obtain rfl : n = m := Option.some.inj (hn'.symm.trans hm)
            rw [honly hb]
            exact List.mem_cons_self
          · exact List.mem_cons_of_mem _ (hw.gated id m f ((node?_congr hnodes).symm.trans hm) hb hf)
        have hv_primed : Primed types outlets v := hw'.resembling (hs'.leads hr hproceeds.leads) hcalm.toRetains
        have hv_stack : v.cascade = (n.id, name) :: w.cascade := hcalm.cascade.trans hstack
        have hv_held : n.id ∈ v.held := by rwa [hcalm.held, hheld']
        obtain ⟨hpassed, hsends⟩ := conducts_passOn hr hd hv_primed n name hv_held
          (fun hne m hm => by
            obtain ⟨k, hk, hmk⟩ := hcalm.resembles n.id m hm
            obtain rfl : n = k := Option.some.inj (hn'.symm.trans hk)
            exact hmk.behavior.trans (hfilter hne))
          (fun hne => by
            rw [hv_stack, honly (hfilter hne)]
            exact List.mem_cons_self)
          (fun f hf hmem => by
            -- an output on the stack means that the input is, but the input was just put there
            have hb := hfilter (List.ne_nil_of_mem hf)
            rw [hv_stack] at hmem
            rcases List.mem_cons.1 hmem with hmem | hmem
            · obtain ⟨-, rfl⟩ := Prod.mk.inj hmem
              exact hinput hf
            · exact hnew (honly hb ▸ hw.gated n.id n f hn hb hmem))
        refine .reacted hin hproceeds hcalm hstores (fun m hm hb hbusy _ _ => ?_) hpassed fun f value hf haside => ?_
        · obtain rfl : n = m := Option.some.inj (hn'.symm.trans hm)
          exact hnew (honly hb ▸ hbusy)
        · refine hsends f ?_ value
          rcases hf with hf | hf | hf
          · exact .inl hf
          · exact .inr hf
          · exact absurd hf haside

end Levels

theorem conducting_deliverUpTo (hr : types.Regular) (helem : types.Elementary) (outlets : Slot → List Route)
    (depth : Nat) : Conducting types outlets (deliverUpTo depth) := by
  induction depth with
  | zero => exact fun _ _ _ w _ _ _ => .refl w
  | succ depth ih => exact conducting_nest hr ih helem

/-- **Every change goes out.** During a call that sets a field, every value that a field takes over goes out
along every route that leaves the field and leads to a node that is there in the end, later in the same call;
the children of a group that are added or removed are the exception. -/
theorem setField_forwards (hr : types.Regular) (helem : types.Elementary) (hs : Sound types w)
    (hidle : w.cascade = []) (hheld : id ∈ w.held) (hv : value.references ⊆ w.held) :
    ∃ news : Journal, (w.setField id name value).2.journal = news ++ w.journal ∧
      ∀ later earlier (s : Slot) stored, news = later ++ .step (.stored s.1 s.2 stored) :: earlier →
        ¬ Journal.Aside (Journal.cascade [] earlier) s →
          ∀ n, w.node? s.1 = some n → (n.access? s.2).any (·.get) = true → ∀ r ∈ n.routesFrom s.2,
            (w.setField id name value).2.isLive r.target = true →
              ∃ error, .step (.followed s.1 s.2 r.target r.field stored error) ∈ later := by
  have hprimed : Primed types (fun s => ((w.node? s.1).map (·.outlets s.2)).getD []) w := by
    refine ⟨hs, fun id n hn name => by rw [hn]; rfl, fun id n f _ _ hf => ?_⟩
    rw [hidle] at hf
    cases hf
  obtain ⟨news, hnews, -, hforwards⟩ :=
    (conducting_deliverUpTo hr helem _ w.cascadeDepth id name value w hprimed hv hheld).moments
  refine ⟨news, hnews, fun later earlier s stored heq haside n hn hget r hmem hlive => ?_⟩
  rw [hidle] at hforwards
  refine hforwards later earlier s stored heq haside r ?_ hlive
  dsimp only
  rw [hn, Option.map_some, Option.getD_some, Node.outlets, if_pos hget]
  exact hmem

/-! ### Children that are added or removed -/

/-- The fields that take children to add or to remove cannot be read. -/
theorem Sound.access_inputs (hr : types.Regular) (hs : Sound types w) (hn : n ∈ w.nodes)
    (hb : n.behavior = .grouping) (hname : name = addChildrenField ∨ name = removeChildrenField) :
    n.access? name = some .setExplicit := by
  obtain ⟨t, ht, hspec, hbt⟩ := hs.typed n hn
  obtain ⟨rest, hrest⟩ := hr.grouping t ht (hbt ▸ hb)
  rw [Node.access?, hspec, Specification.entry?, NodeType.layout, hrest]
  rcases hname with rfl | rfl <;> rfl

/-- **Nothing goes out when children are added or removed**: the field that takes them cannot be read, and the
list of children is no output that is left to be sent. -/
theorem setField_aside (hr : types.Regular) (helem : types.Elementary) (hs : Sound types w)
    (hn : w.node? n.id = some n) (hb : n.behavior = .grouping)
    (hname : name = addChildrenField ∨ name = removeChildrenField) :
    ∃ news : Journal, (w.setField n.id name value).2.journal = news ++ w.journal ∧
      ∀ source output target field sent error, .step (.followed source output target field sent error) ∉ news := by
  rw [setField, cascadeDepth, deliverUpTo_succ, nest, launch, hn]
  dsimp only
  cases hin : w.enterCascade n.id name with
  | none => exact ⟨[], rfl, by simp⟩
  | some w' =>
    dsimp only
    obtain ⟨hs', -, hnodes⟩ := hs.entered hin
    have hn' : w'.node? n.id = some n := by rw [node?_congr hnodes, hn]
    have haccess := hs'.access_inputs hr (mem_nodes_of_node? hn') hb hname
    have hcalm : Calm w' (w'.receive n name value).2.2 := calm_receive w' n name value
    -- only filters send something out
    have hemitted : (w'.receive n name value).1 = .ok () → (w'.receive n name value).2.1.emitted = [] := by
      intro hok
      obtain ⟨-, -, hfilter, -⟩ := stores_receive hs' helem hn' hok
      by_contra hne
      exact absurd ((hfilter hne).symm.trans hb) (by simp)
    generalize w'.receive n name value = result at hcalm hemitted ⊢
    obtain ⟨answer, after, v⟩ := result
    -- the field cannot be read, so no route leaves it
    have hdispatch : v.dispatch? n.id name = none := by
      unfold dispatch?
      split
      · rename_i m hm
        obtain ⟨k, hk, hmk⟩ := hcalm.resembles n.id m hm
        obtain rfl : n = k := Option.some.inj (hn'.symm.trans hk)
        rw [hmk.rights, haccess]
        rfl
      · rfl
    have hconcluded : Calm w' (conclude (deliverUpTo (w.nodes.flatMap (·.connections)).length) n name
        (answer, after, v)).2 := by
      cases answer with
      | error e => exact hcalm.trans (calm_release _ v)
      | ok u =>
        have hnone : after.emitted = [] := hemitted rfl
        rw [conclude, passOn, hdispatch]
        dsimp only
        rw [settle, hnone]
        exact hcalm.trans (calm_release _ v)
    obtain ⟨news, hnews, hquiet⟩ := hconcluded.journal
    obtain ⟨-, rfl⟩ := enterCascade_eq_some hin
    refine ⟨.step .left :: (news ++ [.step (.entered n.id name)]), ?_, ?_⟩
    · change _ :: _ = _
      rw [hnews]
      simp [step, World.enter]
    · intro source output target field sent error hmem
      simp only [List.mem_cons, List.mem_append, List.not_mem_nil, or_false] at hmem
      rcases hmem with hmem | hmem | hmem
      · cases hmem
      · cases hquiet _ hmem
      · cases hmem

/-- A group whose list of children goes on to a second group, and a shape. -/
def paired : World :=
  (Call.addConnection ⟨1⟩ childrenField ⟨⟨2⟩, childrenField⟩).run <|
    (Call.create Catalog.withScenes "Shape" .detached).run <|
      (Call.create Catalog.withScenes "Group" .detached).run <|
        (Call.create Catalog.withScenes "Group" .detached).run {}

/-- A list of children that is set goes on to the second group, and a child that is added does not. -/
example : (paired.setField ⟨1⟩ childrenField (.nodes [⟨3⟩])).2.children ⟨2⟩ = [⟨3⟩] ∧
    (paired.setField ⟨1⟩ addChildrenField (.nodes [⟨3⟩])).2.children ⟨1⟩ = [⟨3⟩] ∧
    (paired.setField ⟨1⟩ addChildrenField (.nodes [⟨3⟩])).2.children ⟨2⟩ = [] := by decide +kernel

end World

end SceneGraph
