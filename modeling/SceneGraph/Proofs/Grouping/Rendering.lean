import SceneGraph.Proofs.Grouping.Links

/-!
# The renderer and lists of children

From the moment when a child holds its object, what the renderer is told of it agrees with the lists of
children: at every parent, the joins less the partings differ by a constant from the occurrences that are
shown (`World.surplus`). The constant is zero for a child that comes to the parent, or whose parent comes to
its object, later on. It is negative for a child that a parent with an object lists already, because such a
child never joins.

* `Redraws.destroyed`, `Redraws.relinked`, `redraws_finished`: the changes that tell the renderer something.
* `Change.redraws`: what every change does to the surplus.
* `attachments_mirror_children`: what the renderer is told agrees with the lists of children.
-/

namespace SceneGraph

namespace World

variable {types : Catalog} {u v w w' : World} {n : Node} {p c id : NodeId}

/-! ### Changes -/

/-- What a change does to what the renderer was told and to what is shown. A child that holds its object, or
is gone, keeps its surplus at every parent. -/
structure Redraws (w w' : World) : Prop where
  equipped : ∀ id, w.Equipped id → w'.Equipped id
  balance : ∀ p c, w.Equipped c → w'.surplus p c = w.surplus p c
  bounded : ∀ p c, w'.surplus p c ≤ w.surplus p c
  silent : ∀ l p c, ¬w'.Equipped p ∨ ¬w'.Equipped c → w'.told l p c = w.told l p c

theorem Persists.equipped (h : Persists w w') (he : w.Equipped id) : w'.Equipped id := by
  refine ⟨Nat.le_trans he.1 h.lastId, fun m hm => ?_⟩
  rcases h.nodes id m hm with ⟨n, hn, hmn⟩ | ⟨hnew, -⟩
  · rw [hmn.object]
    exact he.2 n hn
  · exact absurd he.1 (Nat.not_le_of_lt hnew)

theorem Persists.drawn (h : Persists w w') (hd : w.Drawn) : w'.Drawn := by
  intro id m hm
  rcases h.nodes id m hm with ⟨n, hn, hmn⟩ | ⟨-, hobject, hcount⟩
  · exact (hd id n hn).continues hmn ((id_of_node? hm).trans (id_of_node? hn).symm)
  · exact .of_unused hobject hcount

/-- Two nodes that are shown both hold their objects. -/
theorem Sound.equipped (hs : Sound types w) (h : (w.renderedPair? p c).isSome = true) :
    w.Equipped p ∧ w.Equipped c := by
  have hone : ∀ id, (w.drawing? id).isSome = true → w.Equipped id := by
    intro id hid
    obtain ⟨d, hdraw⟩ := Option.isSome_iff_exists.1 hid
    obtain ⟨n, hn, hd⟩ := Option.bind_eq_some_iff.1 hdraw
    obtain ⟨object, hobject, -⟩ := Option.map_eq_some_iff.1 hd
    refine ⟨hs.issued id (mem_liveIds.2 (isLive_of_node? hn)), fun m hm => ?_⟩
    rw [Option.some.inj (hm.symm.trans hn), hobject]
    rfl
  rw [renderedPair?_eq] at h
  obtain ⟨e, he⟩ := Option.isSome_iff_exists.1 h
  obtain ⟨d, hp, he⟩ := Option.bind_eq_some_iff.1 he
  split at he
  · obtain ⟨d', hc, -⟩ := Option.map_eq_some_iff.1 he
    exact ⟨hone p (by rw [hp]; rfl), hone c (by rw [hc]; rfl)⟩
  · cases he

/-- Nothing is told about nodes without objects. -/
theorem Sound.links_eq_zero (hs : Sound types w) {l l' : Link} {cs : List NodeId} {q : NodeId}
    (h : ¬w.Equipped q ∨ ¬w.Equipped c) : w.links l p cs l' q c = 0 := by
  refine if_neg ?_
  rintro ⟨-, rfl, hpair⟩
  obtain ⟨hq, hc⟩ := hs.equipped hpair
  exact h.elim (fun hq' => hq' hq) fun hc' => hc' hc

namespace Redraws

/-- Surplus that does not change at all. -/
theorem of_surplus (hequipped : ∀ id, w.Equipped id → w'.Equipped id) (hsurplus : w'.surplus = w.surplus)
    (hsilent : ∀ l p c, ¬w.Equipped p ∨ ¬w.Equipped c → w'.told l p c = w.told l p c) : Redraws w w' := by
  refine ⟨hequipped, fun p c _ => by rw [hsurplus], fun p c => Int.le_of_eq (by rw [hsurplus]), fun l p c h => ?_⟩
  exact hsilent l p c (h.imp (mt (hequipped p)) (mt (hequipped c)))

/-- The renderer is told nothing, and what it can know stays the same. -/
theorem of_traces (h : Traces noLinks w w') (hequipped : ∀ id, w.Equipped id → w'.Equipped id) : Redraws w w' := by
  have htold : w'.told = w.told := by
    funext l p c
    exact h.told l p c
  have hsurplus : w'.surplus = w.surplus := by
    funext p c
    rw [surplus, surplus, htold, shown_congr h.drawing]
  exact of_surplus hequipped hsurplus fun l p c _ => by rw [htold]

/-- A node that is destroyed parts from the children that are shown, and is shown no more. -/
theorem destroyed (hs : Sound types w) (hd : w.Drawn) (hn : w.node? n.id = some n)
    (hfree : w.isHeld n.id = false) : Redraws w (w.destroy n) := by
  have hleave : Traces (w.links .part n.id (w.children n.id)) w ((w.takeLeave n).reportParents n.id) := by
    refine (Traces.takeLeave hd hn).before ?_
    obtain heq | ⟨text, heq⟩ := reportParents_cases (w.takeLeave n) n.id <;> rw [heq]
    · exact .refl _
    · exact .enter _ rfl
  have hequipped : ∀ id, w.Equipped id → (w.destroy n).Equipped id := fun id => (Persists.destroy w n).equipped
  rw [destroy] at hequipped ⊢
  generalize (w.takeLeave n).reportParents n.id = v at hleave hequipped ⊢
  have htold : ∀ l p c, (v.remove n).told l p c = w.told l p c + w.links .part n.id (w.children n.id) l p c := by
    intro l p c
    rw [← hleave.told]
    exact (Traces.enter ({ v with nodes := _, registry := _ } : World) (e := .step (.destroyed n.id)) rfl).told l p c
  have hgone : (v.remove n).drawing? n.id = none := by
    rw [drawing?, node?_remove, if_pos rfl]
    rfl
  have hothers : ∀ id, id ≠ n.id → (v.remove n).drawing? id = w.drawing? id := by
    intro id hid
    rw [← hleave.drawing, drawing?, node?_remove, if_neg hid, drawing?]
  refine .of_surplus hequipped ?_ fun l p c h => ?_
  · funext p c
    rw [surplus, surplus, htold, htold]
    by_cases hp : p = n.id
    · -- the node itself: what was shown is what it parts from
      subst hp
      have hunseen : (v.remove n).shown n.id c = 0 := by
        rw [shown_eq, hgone]
        rfl
      rw [hunseen, links_of_ne (.inl (by decide)), links_self, shown]
      split <;> omega
    · have hsame : (v.remove n).shown p c = w.shown p c := by
        by_cases hc : c = n.id
        · -- nobody lists the node
          have hfree' : n.id ∉ w.references := by
            rw [isHeld, Bool.or_eq_false_iff] at hfree
            simpa using hfree.2
          have hnot : n.id ∉ w.children p := fun hmem => hfree' (children_subset_references w p hmem)
          rw [hc, shown_eq, hgone, shown, List.count_eq_zero_of_not_mem hnot]
          cases (v.remove n).drawing? p <;> simp
        · rw [shown_eq, hothers p hp, hothers c hc, ← shown_eq]
      rw [hsame, links_of_ne (.inr hp), links_of_ne (.inr hp)]
      omega
  · rw [htold, hs.links_eq_zero h, Nat.add_zero]

/-- A node that takes other children parts from the old ones that are shown and joins the new ones. -/
theorem relinked (hr : types.Regular) (hs : Sound types w) (hd : w.Drawn) (hn : w.node? n.id = some n)
    (hb : n.behavior = .grouping) (hi : n.initialized = true) (next : List NodeId) (time : Timestamp)
    (after : Aftermath) : Redraws w (w.replaceChildren n.id (w.children n.id) next time after).2 := by
  have hequipped : ∀ id, w.Equipped id →
      (w.replaceChildren n.id (w.children n.id) next time after).2.Equipped id := fun id =>
    (Persists.replaceChildren w n.id (w.children n.id) next time after).equipped
  have hlinked : (w.node? n.id).any (·.initialized) = true := by rw [hn]; exact hi
  rw [replaceChildren, if_pos hlinked] at hequipped ⊢
  -- the old children are given up, the new ones are claimed, and then the list is stored
  have hold := Traces.foldl (fun v c hown => Traces.unlink hown n.id c) hd.owned (w.children n.id)
  have hnew := Traces.foldl (fun v c hown => Traces.link hown n.id c) (hold.owned hd.owned) next
  have hrelink := reparents_relink w n.id (w.children n.id) next
  rw [hold.links] at hnew
  have hboth := hold.trans hnew
  generalize next.foldl (link · n.id ·) ((w.children n.id).foldl (unlink · n.id ·) w) = v
    at hboth hrelink hequipped ⊢
  obtain ⟨f, hf, hk⟩ := hs.exists_children hr (mem_nodes_of_node? hn) hb
  obtain ⟨m, hm, hid, hfm⟩ : ∃ m, v.node? n.id = some m ∧ m.id = n.id ∧ m.field? childrenField = some f := by
    rw [hrelink.node?, hn]
    exact ⟨_, rfl, rfl, hf⟩
  rw [← hid] at hm
  have hstore : (v.storeChildren n.id (w.children n.id) next time after).2 =
      (v.modify n.id (·.store childrenField (.nodes next time))).step
        (.stored n.id childrenField (.nodes next time)) := hid ▸ storeChildren_eq hm hfm hk _ _ _ _
  rw [hstore] at hequipped ⊢
  have htold : ∀ l p c, ((v.modify n.id (·.store childrenField (.nodes next time))).step
      (.stored n.id childrenField (.nodes next time))).told l p c =
      w.told l p c + (w.links .part n.id (w.children n.id) l p c + w.links .join n.id next l p c) := by
    intro l p c
    rw [← hboth.told]
    exact (Traces.enter (v.modify n.id (·.store childrenField (.nodes next time)))
      (e := .step (.stored n.id childrenField (.nodes next time))) rfl).told l p c
  refine .of_surplus hequipped ?_ fun l p c h => ?_
  · funext p c
    have hshown : ((v.modify n.id (·.store childrenField (.nodes next time))).step
        (.stored n.id childrenField (.nodes next time))).shown p c =
        if p = n.id then (if (w.renderedPair? p c).isSome then next.count c else 0) else w.shown p c := by
      have h := shown_storeChildren hm hfm next time p c
      rw [hid, hboth.renderedPair?, shown_congr hboth.drawing] at h
      exact h
    rw [surplus, surplus, htold, htold, hshown]
    by_cases hp : p = n.id
    · subst hp
      rw [if_pos rfl, links_self, links_self, links_of_ne (.inl (by decide)), links_of_ne (.inl (by decide)), shown]
      split <;> omega
    · rw [if_neg hp]
      simp only [links_of_ne (.inr hp)]
      omega
  · rw [htold, hs.links_eq_zero h, hs.links_eq_zero h, Nat.add_zero]

end Redraws

/-! ### The end of a set-up -/

theorem Drawn.modify (hd : w.Drawn) (id : NodeId) {f : Node → Node} (hid : ∀ n, (f n).id = n.id)
    (hf : ∀ n, w.node? id = some n → n.Drawn → (f n).Drawn) : (w.modify id f).Drawn := by
  intro other m hm
  rw [node?_modify w id other hid] at hm
  obtain ⟨n, hn, rfl⟩ := Option.map_eq_some_iff.1 hm
  split
  · rename_i heq
    exact hf n (by rw [← heq, id_of_node? hn, hn]) (hd other n hn)
  · exact hd other n hn

theorem nodes_attachAll (w : World) (p : NodeId) (cs : List NodeId) :
    (cs.foldl (attach · p ·) w).nodes = w.nodes ∧
      (cs.foldl (attach · p ·) w).registry = w.registry := by
  induction cs generalizing w with
  | nil => exact ⟨rfl, rfl⟩
  | cons c rest ih =>
    have hone : (w.attach p c).nodes = w.nodes ∧ (w.attach p c).registry = w.registry := by
      obtain heq | ⟨a, b, heq⟩ := attach_cases w p c <;> rw [heq] <;> exact ⟨rfl, rfl⟩
    exact ⟨(ih _).1.trans hone.1, (ih _).2.trans hone.2⟩

/-- A node that is set up, counted once more and told about. -/
def begin (w : World) (id : NodeId) : World :=
  (w.modify id fun n => { n with initializations := n.initializations + 1 }).step (.settingUp id)

theorem node?_begin (hn : w.node? n.id = some n) :
    (w.begin n.id).node? n.id = some { n with initializations := n.initializations + 1 } :=
  (node?_modify_self w n.id (f := fun n => { n with initializations := n.initializations + 1 }) fun _ => rfl).trans
    (by rw [hn]; rfl)

theorem runSetUp_eq (hn : w.node? n.id = some n) (time : Timestamp) :
    w.runSetUp n.id time =
      (w.begin n.id).setUp { n with initializations := n.initializations + 1 } time := by
  have h : (w.modify n.id fun n => { n with initializations := n.initializations + 1 }).node? n.id =
      some { n with initializations := n.initializations + 1 } := node?_begin hn
  unfold runSetUp
  simp only [h]
  rfl

theorem traces_begin (w : World) (id : NodeId) : Traces noLinks w (w.begin id) :=
  (Traces.modify w id (g := fun n => { n with initializations := n.initializations + 1 }) (fun _ => rfl)
    fun _ _ => rfl).before (.enter _ rfl)

theorem equipped_modify (id : NodeId) {f : Node → Node} (hid : ∀ n, (f n).id = n.id)
    (hf : ∀ n, w.node? id = some n → n.object.isSome = true → (f n).object.isSome = true) {other : NodeId}
    (he : w.Equipped other) : (w.modify id f).Equipped other := by
  refine ⟨he.1, fun m hm => ?_⟩
  rw [node?_modify w id other hid] at hm
  obtain ⟨n, hn, rfl⟩ := Option.map_eq_some_iff.1 hm
  split
  · rename_i heq
    exact hf n (by rw [← heq, id_of_node? hn, hn]) (he.2 n hn)
  · exact he.2 n hn

theorem equipped_begin (he : w.Equipped c) : (w.begin id).Equipped c :=
  equipped_modify (w := w) id (f := fun n => { n with initializations := n.initializations + 1 }) (fun _ => rfl)
    (fun _ _ h => h) he

/-- A node that has no object joins no child. -/
theorem traces_attachAll_of_none (hd : w.Drawn) (hnone : w.drawing? p = none) (cs : List NodeId) :
    Traces noLinks w (cs.foldl (attach · p ·) w) := by
  have h := Traces.foldl (fun v c hown => Traces.attach hown p c) hd.owned cs
  have hbare : w.links .join p cs = noLinks := by
    funext l q c
    simp [World.links, noLinks, renderedPair?_eq, hnone]
  rwa [hbare] at h

theorem Drawn.attachAll (hd : w.Drawn) (p : NodeId) (cs : List NodeId) : (cs.foldl (attach · p ·) w).Drawn := by
  intro id n hn
  exact hd id n ((node?_congr (nodes_attachAll w p cs).1).symm.trans hn)

theorem Equipped.attachAll (he : w.Equipped id) (p : NodeId) (cs : List NodeId) :
    (cs.foldl (attach · p ·) w).Equipped id := by
  obtain ⟨hnodes, hregistry⟩ := nodes_attachAll w p cs
  refine ⟨hregistry ▸ he.1, fun n hn => he.2 n ((node?_congr hnodes).symm.trans hn)⟩

/-- A node that was set up, counted, told about, and given its object. -/
def equip (w : World) (n : Node) : World :=
  ((w.begin n.id).tell (.rendered n.typeName n.id)).modify n.id fun m => { m with object := some n.id }

theorem node?_equip (hn : w.node? n.id = some n) : (w.equip n).node? n.id =
    some { n with initializations := n.initializations + 1, object := some n.id } :=
  (node?_modify_self ((w.begin n.id).tell (.rendered n.typeName n.id)) n.id
    (f := fun m => { m with object := some n.id }) fun _ => rfl).trans (congrArg (Option.map _) (node?_begin hn))

theorem node?_equip_of_ne (w : World) (n : Node) (hid : id ≠ n.id) : (w.equip n).node? id = w.node? id :=
  (node?_modify_of_ne ((w.begin n.id).tell (.rendered n.typeName n.id)) (f := fun m => { m with object := some n.id })
    (fun _ => rfl) hid).trans
    (node?_modify_of_ne w (f := fun m => { m with initializations := m.initializations + 1 }) (fun _ => rfl) hid)

theorem Sound.equip (hs : Sound types w) (n : Node) : Sound types (w.equip n) := by
  have hcounted : Sound types (w.modify n.id fun m => { m with initializations := m.initializations + 1 }) :=
    hs.modify_fields (fun _ => ⟨rfl, rfl, rfl⟩) fun _ => ⟨rfl, rfl⟩
  exact ((hcounted.enter _).enter _).modify_fields (fun _ => ⟨rfl, rfl, rfl⟩) fun _ => ⟨rfl, rfl⟩

/-- A node that has its object and is set up is as it should be. -/
theorem drawn_equip (hd : w.Drawn) (hn : w.node? n.id = some n) (hb : n.behavior = .grouping)
    (hi : n.initialized = true) : (w.equip n).Drawn := by
  intro id m hm
  by_cases hid : id = n.id
  · rw [hid, node?_equip hn] at hm
    obtain rfl := Option.some.inj hm
    exact ⟨fun object h => ⟨(Option.some.inj h).symm, hb, Nat.succ_pos _⟩, fun _ => hi,
      fun _ _ h => absurd h (Option.some_ne_none n.id)⟩
  · exact hd id m ((node?_equip_of_ne w n hid).symm.trans hm)

theorem children_equip (hn : w.node? n.id = some n) : (w.equip n).children n.id = w.children n.id := by
  rw [children, node?_equip hn, children, hn]
  rfl

theorem told_equip (w : World) (n : Node) (l : Link) (p c : NodeId) : (w.equip n).told l p c = w.told l p c :=
  ((traces_begin w n.id).before (.enter _ (e := .event (.rendered n.typeName n.id)) rfl)).told l p c

theorem not_equipped_of_none (hn : w.node? n.id = some n) (hobject : n.object = none) : ¬w.Equipped n.id := by
  intro h
  have hsome := h.2 n hn
  rw [hobject] at hsome
  cases hsome

theorem Equipped.equip (he : w.Equipped id) (hn : w.node? n.id = some n) (hobject : n.object = none) :
    (w.equip n).Equipped id := by
  have hid : id ≠ n.id := by
    rintro rfl
    exact not_equipped_of_none hn hobject he
  exact ⟨he.1, fun m hm => he.2 m ((node?_equip_of_ne w n hid).symm.trans hm)⟩

theorem drawing?_of_none (hn : w.node? n.id = some n) (hobject : n.object = none) : w.drawing? n.id = none := by
  rw [drawing?, hn, Option.bind_some, Node.drawing?, hobject]
  rfl

/-- A node that gets its object changes what other parents show of other children by nothing. -/
theorem shown_equip_of_ne (w : World) (hp : p ≠ n.id) (hc : c ≠ n.id) : (w.equip n).shown p c = w.shown p c := by
  have hothers : ∀ id, id ≠ n.id → (w.equip n).drawing? id = w.drawing? id := by
    intro id hid
    rw [drawing?, node?_equip_of_ne w n hid, drawing?]
  rw [shown_eq, hothers p hp, hothers c hc, ← shown_eq]

/-- The first set-up of a node that gets an object: it joins the children that hold theirs. Where other nodes
list it already, nothing joins, and the surplus drops. -/
theorem redraws_equip (hs : Sound types w) (hd : w.Drawn) (hn : w.node? n.id = some n) (hb : n.behavior = .grouping)
    (hi : n.initialized = true) (hobject : n.object = none) :
    Redraws w (((w.equip n).children n.id).foldl (attach · n.id ·) (w.equip n)) := by
  have hbare := drawing?_of_none hn hobject
  have hjoin := Traces.foldl (fun v c hown => Traces.attach hown n.id c) (drawn_equip hd hn hb hi).owned
    (w.children n.id)
  rw [children_equip hn]
  have htold : ∀ l p c, ((w.children n.id).foldl (attach · n.id ·) (w.equip n)).told l p c =
      w.told l p c + (w.equip n).links .join n.id (w.children n.id) l p c := by
    intro l p c
    rw [hjoin.told, told_equip]
  have hshown : ((w.children n.id).foldl (attach · n.id ·) (w.equip n)).shown = (w.equip n).shown :=
    shown_congr hjoin.drawing
  have hbalance : ∀ p c, p = n.id ∨ c ≠ n.id →
      ((w.children n.id).foldl (attach · n.id ·) (w.equip n)).surplus p c = w.surplus p c := by
    intro p c h
    rw [surplus, surplus, htold, htold, hshown]
    by_cases hp : p = n.id
    · -- the node showed nothing, and what it shows now is what it joins
      subst hp
      have hunseen : w.shown n.id c = 0 := by
        rw [shown_eq, hbare]
        rfl
      rw [links_self, links_of_ne (.inl (by decide)), hunseen, shown, children_equip hn]
      omega
    · rw [links_of_ne (.inr hp), links_of_ne (.inr hp), shown_equip_of_ne w hp (h.resolve_left hp)]
      omega
  refine ⟨fun id he => (he.equip hn hobject).attachAll n.id _, fun p c hc => ?_, fun p c => ?_, fun l p c h => ?_⟩
  · refine hbalance p c (.inr ?_)
    rintro rfl
    exact not_equipped_of_none hn hobject hc
  · by_cases h : p = n.id ∨ c ≠ n.id
    · exact Int.le_of_eq (hbalance p c h)
    · -- another node lists the node already: it shows the node from now on, without a join
      obtain ⟨hp, hc⟩ := not_or.1 h
      rw [not_not.1 hc]
      have hless : w.shown p n.id ≤ (w.equip n).shown p n.id := by
        rw [shown_eq, hbare]
        cases w.drawing? p <;> simp
      rw [surplus, surplus, htold, htold, hshown, links_of_ne (.inr hp), links_of_ne (.inr hp)]
      omega
  · rw [htold, (hs.equip n).links_eq_zero, Nat.add_zero]
    exact h.imp (mt fun he => he.attachAll n.id _) (mt fun he => he.attachAll n.id _)

/-- A node for which the renderer makes no object goes on as before. -/
theorem traces_renderNode (hn : w.node? n.id = some n) (hobject : n.object = none) (hd : w.Drawn)
    (hrefused : n.environment.renders = false ∨ n.typeName.startsWith "No" = true) :
    Traces noLinks w (w.renderNode n) ∧ (w.renderNode n).Drawn ∧ ∀ c, w.Equipped c → (w.renderNode n).Equipped c := by
  unfold renderNode
  split
  · rename_i hrenders
    have hno : n.typeName.startsWith "No" = true := by
      rcases hrefused with h | h
      · rw [h] at hrenders
        cases hrenders
      · exact h
    have hfound : ∀ m, w.node? n.id = some m → m.object = none := by
      intro m hm
      rwa [← Option.some.inj (hn.symm.trans hm)]
    simp only [hno, if_true]
    have htold : Traces noLinks w (w.tell (.rendered n.typeName n.id)) := .enter w rfl
    have hbare : Traces noLinks (w.tell (.rendered n.typeName n.id))
        ((w.tell (.rendered n.typeName n.id)).modify n.id fun n => { n with object := none }) := by
      refine .modify _ n.id (fun _ => rfl) fun m hm => ?_
      rw [Node.drawing?, Node.drawing?, hfound m hm]
      rfl
    refine ⟨htold.before hbare, ?_, fun c hc => ?_⟩
    · refine Drawn.modify (w := w.tell (.rendered n.typeName n.id)) hd n.id (fun _ => rfl) fun m hm hdrawn => ?_
      exact hdrawn.continues ⟨rfl, rfl, rfl, (hfound m hm).symm, rfl, fun h => h⟩ rfl
    · refine equipped_modify (w := w.tell (.rendered n.typeName n.id)) n.id (f := fun n => { n with object := none })
        (fun _ => rfl) (fun m hm hsome => ?_) hc
      rw [hfound m hm] at hsome
      cases hsome
  · exact ⟨.refl w, hd, fun _ h => h⟩

/-- A node whose set-up is counted is as it should be, unless it goes without an object that it should have. -/
theorem Drawn.begin (hd : w.Drawn) (hn : w.node? n.id = some n) (hi : n.initialized = true)
    (hwhole : n.behavior = .grouping → n.object = none →
      n.environment.renders = false ∨ n.typeName.startsWith "No" = true) : (w.begin n.id).Drawn := by
  have hdrawn := hd n.id n hn
  refine Drawn.modify hd n.id (fun _ => rfl) fun m hm _ => ?_
  obtain rfl : n = m := Option.some.inj (hn.symm.trans hm)
  exact ⟨fun object hobject => ⟨(hdrawn.own object hobject).1, (hdrawn.own object hobject).2.1, Nat.succ_pos _⟩,
    fun _ => hi, fun hb _ hobject => hwhole hb hobject⟩

/-- A node that only now gets an object is set up for the first time. -/
theorem Drawn.initializations_eq_zero (hd : w.Drawn) (hn : w.node? n.id = some n) (hb : n.behavior = .grouping)
    (hobject : n.object = none) (hrenders : n.environment.renders = true)
    (hnamed : n.typeName.startsWith "No" = false) : n.initializations = 0 := by
  by_contra hcount
  rcases (hd n.id n hn).whole hb (Nat.pos_of_ne_zero hcount) hobject with h | h
  · exact Bool.false_ne_true (h.symm.trans hrenders)
  · exact Bool.false_ne_true (hnamed.symm.trans h)

theorem renderNode_begin (hrenders : n.environment.renders = true) (hnamed : n.typeName.startsWith "No" = false) :
    (w.begin n.id).renderNode { n with initializations := n.initializations + 1 } = w.equip n := by
  unfold renderNode
  rw [if_pos hrenders]
  simp only [Node.typeName] at hnamed ⊢
  simp only [hnamed, Bool.false_eq_true, if_false]
  rfl

/-- A grouping node that goes on without an object joins no child. -/
theorem redraws_bare (hd : w.Drawn) (hn : w.node? n.id = some n) (hi : n.initialized = true)
    (hobject : n.object = none) (hrefused : n.environment.renders = false ∨ n.typeName.startsWith "No" = true)
    (hv : v = (w.begin n.id).renderNode { n with initializations := n.initializations + 1 }) (cs : List NodeId) :
    (v.Drawn ∧ Redraws w v) ∧
      (cs.foldl (attach · n.id ·) v).Drawn ∧ Redraws w (cs.foldl (attach · n.id ·) v) := by
  have hbegun := traces_begin w n.id
  obtain ⟨hquiet, hdrawn, hequipped⟩ := traces_renderNode (n := { n with initializations := n.initializations + 1 })
    (node?_begin hn) hobject (hd.begin hn hi fun _ _ => hrefused) hrefused
  rw [← hv] at hquiet hdrawn hequipped
  have hbare : v.drawing? n.id = none := by
    rw [hquiet.drawing, hbegun.drawing, drawing?_of_none hn hobject]
  have hall := hbegun.before hquiet
  refine ⟨⟨hdrawn, .of_traces hall fun c hc => hequipped c (equipped_begin hc)⟩, hdrawn.attachAll n.id _,
    .of_traces (hall.before (traces_attachAll_of_none hdrawn hbare _)) fun c hc => ?_⟩
  exact (hequipped c (equipped_begin hc)).attachAll n.id _

/-- The set-up of a grouping node, which may get its object. -/
theorem redraws_setUpChildren (hs : Sound types w) (hd : w.Drawn) (hn : w.node? n.id = some n)
    (hb : n.behavior = .grouping) (hi : n.initialized = true) :
    ((w.begin n.id).setUpChildren n.id).Drawn ∧ Redraws w ((w.begin n.id).setUpChildren n.id) := by
  rw [setUpChildren, node?_begin hn]
  dsimp only
  by_cases hobject : n.object.isNone = true
  · have hnone : n.object = none := Option.isNone_iff_eq_none.1 hobject
    rw [if_pos hobject]
    by_cases hgets : n.environment.renders = true ∧ n.typeName.startsWith "No" = false
    · -- the node gets its object, and this is its first set-up
      have hfirst : ({ n with initializations := n.initializations + 1 } : Node).isFirstInitialization = true := by
        simp [Node.isFirstInitialization, hd.initializations_eq_zero hn hb hnone hgets.1 hgets.2]
      rw [if_pos hfirst, renderNode_begin hgets.1 hgets.2]
      exact ⟨(drawn_equip hd hn hb hi).attachAll n.id _, redraws_equip hs hd hn hb hi hnone⟩
    · -- the node goes on without an object
      rw [not_and_or, Bool.not_eq_true, Bool.not_eq_false] at hgets
      obtain ⟨halone, hjoined⟩ := redraws_bare hd hn hi hnone hgets rfl
        (((w.begin n.id).renderNode { n with initializations := n.initializations + 1 }).children n.id)
      split
      · exact hjoined
      · exact halone
  · -- the node has its object from an earlier set-up
    obtain ⟨object, hown⟩ := Option.ne_none_iff_exists'.1 fun h => hobject (Option.isNone_iff_eq_none.2 h)
    have hcount := ((hd n.id n hn).own object hown).2.2
    have hfirst : ¬({ n with initializations := n.initializations + 1 } : Node).isFirstInitialization = true := by
      simp [Node.isFirstInitialization]
      omega
    rw [if_neg hobject, if_neg hfirst]
    exact ⟨hd.begin hn hi fun _ h => absurd (hown.symm.trans h) (Option.some_ne_none object),
      .of_traces (traces_begin w n.id) fun _ => equipped_begin⟩

/-- Nothing happens if the node is gone. -/
theorem redraws_runSetUp_of_gone (hd : w.Drawn) (hgone : w.node? id = none) (time : Timestamp) :
    (w.runSetUp id time).Drawn ∧ Redraws w (w.runSetUp id time) := by
  have hstill : (w.modify id fun n => { n with initializations := n.initializations + 1 }).node? id = none :=
    (node?_modify_self w id (f := fun n => { n with initializations := n.initializations + 1 }) fun _ => rfl).trans
      (by rw [hgone]; rfl)
  have hrun : w.runSetUp id time = w.modify id fun n => { n with initializations := n.initializations + 1 } := by
    unfold runSetUp
    simp only [hstill]
  rw [hrun]
  refine ⟨hd.modify id (fun _ => rfl) fun n hn => ?_, .of_traces (.modify w id (fun _ => rfl) fun _ _ => rfl)
    fun c hc => equipped_modify id (f := fun n => { n with initializations := n.initializations + 1 })
      (fun _ => rfl) (fun _ _ h => h) hc⟩
  rw [hgone] at hn
  cases hn

/-- The end of a set-up: a node that has no object may get one. -/
theorem redraws_finished (hs : Sound types w) (hd : w.Drawn) (id : NodeId) (time : Timestamp)
    (hset : ∀ n, w.node? id = some n → n.initialized = true) :
    (w.runSetUp id time).Drawn ∧ Redraws w (w.runSetUp id time) := by
  cases hlive : w.node? id with
  | none => exact redraws_runSetUp_of_gone hd hlive time
  | some n =>
    obtain rfl := id_of_node? hlive
    have hi := hset n hlive
    rw [runSetUp_eq hlive time]
    by_cases hb : n.behavior = .grouping
    · have hsetUp : (w.begin n.id).setUp { n with initializations := n.initializations + 1 } time =
          (w.begin n.id).setUpChildren n.id := by
        unfold setUp
        simp only [hb]
      rw [hsetUp]
      exact redraws_setUpChildren hs hd hlive hb hi
    · have hbegin := hd.begin hlive hi fun h => absurd h hb
      have hbegun := traces_begin w n.id
      unfold setUp
      dsimp only
      split
      · exact absurd ‹_› hb
      · exact ⟨hbegin, .of_traces (hbegun.before (.enter _ rfl)) fun _ => equipped_begin⟩
      · exact ⟨hbegin, .of_traces hbegun fun _ => equipped_begin⟩

/-! ### All changes -/

theorem Traces.adoptChildren (hbare : w.drawing? id = none) : Traces noLinks w (w.adoptChildren id).2 := by
  have haccept := Traces.accept w id (w.children id)
  have hclaim : ∀ (l : List NodeId) (v : World), Traces noLinks v (l.foldl (fun w c => w.addParent c id) v) := by
    intro l
    induction l with
    | nil => exact fun v => .refl v
    | cons c rest ih => exact fun v => (ih _).after (.addParent v c id)
  unfold World.adoptChildren
  dsimp only
  split
  · refine (haccept.before ?_).before (hclaim _ _)
    rw [← haccept.drawing] at hbare
    obtain heq | ⟨n, f, -, -, -, heq⟩ := storeChildren_cases _ id _ _ _ _ <;> rw [heq]
    · exact .refl _
    · refine (Traces.modify _ id (fun n => n.store_id _ _) fun n hn => ?_).before (.enter _ rfl)
      rw [drawing?, hn, Option.bind_some] at hbare
      have hobject : n.object = none := Option.map_eq_none_iff.1 hbare
      exact Node.drawing?_of_none hobject (n.store_object _ _)
  · exact haccept.before (hclaim _ _)

theorem Traces.create (w : World) (spec : Specification) (behavior : Behavior) (environment : Environment) :
    Traces noLinks w (w.create spec behavior environment).2 := by
  refine ⟨?_, fun l p c => (Traces.enter w (e := .step (.created w.nextId.1)) rfl).told l p c⟩
  funext id
  rw [drawing?, node?_create, drawing?]
  cases hn : w.node? id with
  | some n => rfl
  | none =>
    -- a new node has no object
    rw [Option.none_or]
    split <;> rfl

theorem Traces.setName (w : World) (id : NodeId) (name : String) : Traces noLinks w (w.setName id name) := by
  obtain ⟨heq, -⟩ | ⟨n, -, -, heq⟩ := setName_cases w id name <;> rw [heq]
  · exact .refl w
  · have hnamed : Traces noLinks w (w.modify id fun n => { n with name }) :=
      .modify w id (fun _ => rfl) fun _ _ => rfl
    exact hnamed.before (.of_nodes rfl rfl)

/-- **What a change does to the surplus.** -/
theorem Change.redraws (hr : types.Regular) (hs : Sound types w) (hd : w.Drawn) (hc : Change types w w') :
    w'.Drawn ∧ Redraws w w' := by
  rcases hc.persists with hp | ⟨id, time, hset, rfl⟩
  swap
  · exact redraws_finished hs hd id time hset
  -- all but three kinds of change leave the links alone
  have hquiet : Traces noLinks w w' → w'.Drawn ∧ Redraws w w' := fun h =>
    ⟨hp.drawn hd, .of_traces h fun _ => hp.equipped⟩
  cases hc with
  | entered e he => exact hquiet (.enter w (Entry.link?_of_isPlain he))
  | cascaded | held | unheld | learned => exact hquiet (.of_nodes rfl rfl)
  | created t environment => exact hquiet (.create w t.layout t.behavior environment)
  | destroyed n hn hfree => exact ⟨hp.drawn hd, .destroyed hs hd hn hfree⟩
  | named id name => exact hquiet (.setName w id name)
  | stored n name old value hn _ _ _ hlist =>
    refine hquiet (.modify w n.id (fun m => m.store_id name value) fun m hm => ?_)
    obtain rfl : n = m := Option.some.inj (hn.symm.trans hm)
    exact (hd n.id n hn).drawing?_store value hlist
  | relinked n next time after hn hb hi => exact ⟨hp.drawn hd, .relinked hr hs hd hn hb hi next time after⟩
  | marked n => exact hquiet (.modify w n.id (fun _ => rfl) fun _ _ => rfl)
  | adopted n hn hb hi =>
    -- a node that is not set up has no object yet, so what it claims is not drawn
    have hobject : n.object = none := (hd n.id n hn).object_eq_none (.inr hi)
    have hmarked : Traces noLinks w ((w.mark n.id).step (.adopting n.id)) :=
      (Traces.modify w n.id (g := fun n => { n with initialized := true }) (fun _ => rfl) fun _ _ => rfl).before
        (.enter _ rfl)
    have hbare : ((w.mark n.id).step (.adopting n.id)).drawing? n.id = none := by
      rw [hmarked.drawing, drawing?_of_none hn hobject]
    exact hquiet (hmarked.before (.adoptChildren hbare))
  | finished id time hset => exact redraws_finished hs hd id time hset
  | extended n name value hn hdynamic =>
    refine hquiet (.modify w n.id (fun _ => rfl) fun m hm => ?_)
    obtain rfl : n = m := Option.some.inj (hn.symm.trans hm)
    have hb : n.behavior ≠ .grouping := by
      intro hb
      rw [Node.capabilities, hb] at hdynamic
      cases hdynamic
    exact Node.drawing?_of_none ((hd n.id n hn).object_eq_none (.inl hb)) rfl
  | reduced id name =>
    refine hquiet (.modify w id (fun _ => rfl) fun n hn => ?_)
    by_cases hb : n.behavior = .grouping
    · have hdynamic := hs.dynamic_eq_nil (mem_nodes_of_node? hn) hb
      simp only [Node.drawing?, Node.nodesIn, Node.field?, Node.dynamicField?, hdynamic, List.filter_nil]
    · exact Node.drawing?_of_none ((hd id n hn).object_eq_none (.inl hb)) rfl
  | connected id output route =>
    obtain ⟨routes, heq⟩ := modify_addConnection_eq w id output route
    exact hquiet (heq ▸ .modify w id (fun _ => rfl) fun _ _ => rfl)
  | disconnected id output route =>
    obtain ⟨routes, heq⟩ := modify_removeConnection_eq w id output route
    exact hquiet (heq ▸ .modify w id (fun _ => rfl) fun _ _ => rfl)
  | forgotten n hn hi =>
    refine hquiet (.modify w n.id (fun _ => rfl) fun m hm => ?_)
    obtain rfl : n = m := Option.some.inj (hn.symm.trans hm)
    exact Node.drawing?_of_none ((hd n.id n hn).object_eq_none (.inr hi)) rfl

/-! ### Runs -/

/-- What holds between the renderer and the lists of children: nothing was told about nodes without objects,
and never more joins than there are occurrences to be shown. -/
structure Mirrors (w : World) : Prop where
  drawn : w.Drawn
  bounded : ∀ p c, w.surplus p c ≤ 0
  silent : ∀ l p c, ¬w.Equipped p ∨ ¬w.Equipped c → w.told l p c = 0

theorem Mirrors.change (hr : types.Regular) (hs : Sound types w) (h : w.Mirrors) (hc : Change types w w') :
    w'.Mirrors := by
  obtain ⟨hdrawn, hredraws⟩ := hc.redraws hr hs h.drawn
  refine ⟨hdrawn, fun p c => Int.le_trans (hredraws.bounded p c) (h.bounded p c), fun l p c hbare => ?_⟩
  rw [hredraws.silent l p c hbare]
  exact h.silent l p c (hbare.imp (mt (hredraws.equipped p)) (mt (hredraws.equipped c)))

theorem Reachable.mirrors (hr : types.Regular) (hw : Reachable types w) : w.Mirrors := by
  have hempty : Mirrors {} := ⟨fun _ _ hn => (nomatch hn), fun _ _ => Int.le_refl _, fun _ _ _ _ => rfl⟩
  exact hw.induction hr (P := Mirrors) hempty fun _ _ hs hc h => h.change hr hs hc

/-- A child that holds its object keeps its surplus at every parent along every run, by induction on it. -/
theorem Leads.surplus (hr : types.Regular) (hs : Sound types u) (hu : u.Mirrors) (h : Leads types u w) :
    w.Mirrors ∧ (u.Equipped c → w.Equipped c ∧ w.surplus p c = u.surplus p c) := by
  suffices hall : Sound types w ∧ w.Mirrors ∧ (u.Equipped c → w.Equipped c ∧ w.surplus p c = u.surplus p c) from hall.2
  induction h with
  | refl => exact ⟨hs, hu, fun hc => ⟨hc, rfl⟩⟩
  | tail _ hchange ih =>
    obtain ⟨hs', hmirrors, hkept⟩ := ih
    obtain ⟨-, hredraws⟩ := hchange.redraws hr hs' hmirrors.drawn
    refine ⟨hs'.change hr hchange, hmirrors.change hr hs' hchange, fun hc => ?_⟩
    obtain ⟨hc', hsame⟩ := hkept hc
    exact ⟨hredraws.equipped c hc', (hredraws.balance p c hc').trans hsame⟩

/-- **What the renderer is told agrees with the lists of children.** Nothing is told about a node before it
holds its object. From a moment on at which a child holds its object and the joins less the partings are the
occurrences that a parent shows, they stay so; in particular if the parent has no object at that moment. At no
moment was the renderer told more joins than that. -/
theorem attachments_mirror_children (hr : types.Regular) (hu : Reachable types u) (hw : Leads types u w)
    (p c : NodeId) :
    (u.Equipped c → u.surplus p c = 0 →
      (w.told .join p c : Int) - w.told .part p c = w.shown p c) ∧
    (u.Equipped c → ¬u.Equipped p → (w.told .join p c : Int) - w.told .part p c = w.shown p c) ∧
    (¬w.Equipped p ∨ ¬w.Equipped c → ∀ l, w.told l p c = 0) ∧
    w.told .join p c ≤ w.told .part p c + w.shown p c := by
  have hs := hu.sound hr
  have hmirrors := hu.mirrors hr
  obtain ⟨hafter, hkept⟩ := hw.surplus (p := p) (c := c) hr hs hmirrors
  have hbalanced : u.Equipped c → u.surplus p c = 0 →
      (w.told .join p c : Int) - w.told .part p c = w.shown p c := by
    intro hc hzero
    have hsame := (hkept hc).2
    rw [hzero, surplus] at hsame
    omega
  refine ⟨hbalanced, fun hc hp => hbalanced hc ?_, fun h l => hafter.silent l p c h, ?_⟩
  · -- a parent without an object shows nothing and was told nothing about
    have hunseen : u.shown p c = 0 := by
      refine if_neg fun hpair => hp (hs.equipped hpair).1
    rw [surplus, hmirrors.silent _ _ _ (.inl hp), hmirrors.silent _ _ _ (.inl hp), hunseen]
    rfl
  · have hbounded := hafter.bounded p c
    rw [surplus] at hbounded
    omega

/-- A group that holds its object, and a child of the group that gets its own only later. -/
def late : World :=
  (Call.setUp ⟨2⟩ .unset).run <|
    (Call.setField ⟨1⟩ childrenField (.nodes [⟨2⟩])).run <|
      (Call.create Catalog.withScenes "Group" { Environment.detached with renders := true }).run <|
        (Call.setUp ⟨1⟩ .unset).run <|
          (Call.create Catalog.withScenes "Group" { Environment.detached with renders := true }).run {}

/-- The child is shown once, but it never joined. -/
example : late.shown ⟨1⟩ ⟨2⟩ = 1 ∧ late.told .join ⟨1⟩ ⟨2⟩ = 0 := by decide +kernel

end World

end SceneGraph
