import SceneGraph.Proofs.Cascade.Assignments

/-!
# Cascades enumerate simple paths

A cascade among passive nodes is an enumeration of trails: the fields that it assigns are, in this
order, the ends of the trails of valid hops that start at the field that was set. The cascade stack
is the trail that led to the field being set, so a field that is refused because it is on the stack
is one that would close a cycle.

* `enumerates_deliverUpTo`: what one delivery assigns while some fields are on the stack.
* `assigned_setField`: the assignments of a whole cascade, and what every field holds afterwards.
-/

namespace SceneGraph

namespace World

variable {w : World} {deliver : Delivery} {n : Node} {name : String} {v : Field} {r : Route}
  {s : Slot}

/-- What the delivery to a field assigns if some fields are on the cascade stack: nothing if the field
is one of them or does not take the value, and else the ends of the trails that go on from it. -/
def reach (w : World) (k : Kind) (path : List Slot) (s : Slot) : List Slot :=
  if s ∉ path ∧ w.takes s k = true then
    (w.hopGraph.trailsFrom (s :: path)).filterMap List.head?
  else []

/-- A delivery that does what it should at every end of a route, with some fields on the stack. -/
def Enumerates (deliver : Delivery) (g : OutGraph Slot) (v : Field) (path : List Slot) : Prop :=
  ∀ w s, w.Passive → w.hopGraph = g → w.cascade = path → s ∈ g.ends → w.isLive s.1 = true →
    Delivered v (w.reach v.kind path s) w (deliver s.1 s.2 v w).2

theorem reach_congr {w' : World} {l : List Slot} (h : Delivered v l w w') :
    w'.reach v.kind = w.reach v.kind := by
  funext path s
  simp only [reach, h.takes, h.hopGraph]

theorem Passive.hold (hw : w.Passive) (id : NodeId) : (w.hold id).Passive :=
  ⟨hw.behavior, fun n hn => List.mem_cons_of_mem _ (hw.held n hn)⟩

theorem Passive.holdAll (hw : w.Passive) (ids : List NodeId) : (w.holdAll ids).Passive :=
  ⟨hw.behavior, fun n hn => List.mem_append_right _ (hw.held n hn)⟩

/-- Handles that are taken for a while go again without consequences. -/
theorem delivered_dropAll {w' : World} {l : List Slot} (ids : List NodeId) (hw : w.Passive)
    (h : Delivered v l (w.holdAll ids) w') : Delivered v l w (w'.dropAll ids) := by
  have hheld : w'.held = ids ++ w.held := h.held
  set w₂ : World := { w' with held := w.held } with hw₂
  have hp : w₂.Passive := hw.of_nodes (by rw [hw₂, h.nodes, map_id_putAll]; rfl) fun _ hid => hid
  have hdrop : w'.dropAll ids = w₂ := by
    unfold dropAll
    rw [hheld, foldl_erase_append]
    exact hp.release ids
  rw [hdrop]
  have hnodes : (w.holdAll ids).nodes = w.nodes := rfl
  exact ⟨h.taken, h.nodes.trans (nodes_putAll_congr hnodes l v), rfl, h.cascade, h.assigned⟩

/-- **One hop** assigns what its target reaches; the journal tells of a refusal. -/
theorem delivered_hop (hd : Enumerates deliver w.hopGraph v w.cascade) (hw : w.Passive)
    (hr : r.slot ∈ w.hopGraph.ends) :
    Delivered v (w.reach v.kind w.cascade r.slot) w (hop deliver n name v w r) := by
  unfold hop
  cases ht : w.node? r.target with
  | none =>
    have hno : w.reach v.kind w.cascade r.slot = [] := by
      refine if_neg fun ⟨_, h⟩ => ?_
      obtain ⟨m, hm, -⟩ := takes_iff.1 h
      exact absurd (hm.symm.trans ht) (by simp)
    rw [hno]
    exact (Delivered.refl w v).enter fun _ _ _ => by simp
  | some target =>
    have hid : target.id = r.target := id_of_node? ht
    have hlive : (w.hold target.id).isLive r.slot.1 = true := isLive_iff.2 ⟨target, ht⟩
    have h := hd (w.hold target.id) r.slot (hw.hold _) rfl rfl hr hlive
    rw [show r.slot.1 = target.id from hid.symm, show r.slot.2 = r.field from rfl] at h
    simp only
    split
    · rename_i w' heq
      rw [heq] at h
      exact delivered_dropAll [target.id] hw (h.enter fun _ _ _ => by simp)
    · rename_i e w' heq
      rw [heq] at h
      have hf := h.enter (e := .step (.followed n.id name target.id r.field v (some e)))
        fun _ _ _ => by simp
      exact delivered_dropAll [target.id] hw (hf.enter fun _ _ _ => by simp)

/-- The hops along several routes assign what their targets reach, one after the other. -/
theorem delivered_follow (routes : List Route) (hd : Enumerates deliver w.hopGraph v w.cascade)
    (hw : w.Passive) (hr : ∀ r ∈ routes, r.slot ∈ w.hopGraph.ends) :
    Delivered v (routes.flatMap fun r => w.reach v.kind w.cascade r.slot) w
      (routes.foldl (hop deliver n name v) w) := by
  induction routes generalizing w with
  | nil => exact Delivered.refl w v
  | cons r rest ih =>
    have h : Delivered v (w.reach v.kind w.cascade r.slot) w (hop deliver n name v w r) :=
      delivered_hop hd hw (hr r List.mem_cons_self)
    rw [List.foldl_cons, List.flatMap_cons]
    refine h.trans ?_
    have hrest := ih (w := hop deliver n name v w r) (by rw [h.hopGraph, h.cascade]; exact hd)
      (h.passive hw) (by rw [h.hopGraph]; exact fun r hr' => hr r (List.mem_cons_of_mem _ hr'))
    rwa [reach_congr h, h.cascade] at hrest

theorem flatMap_ite_nil {α β : Type} (l : List α) (p : α → Prop) [DecidablePred p] (q : α → Bool)
    (f : α → List β) :
    (l.flatMap fun a => if p a ∧ q a = true then f a else []) =
      ((l.filter q).filter (p ·)).flatMap f := by
  induction l with
  | nil => rfl
  | cons a rest ih =>
    rw [List.flatMap_cons, ih]
    by_cases hq : q a = true <;> by_cases hp : p a <;> simp [hq, hp]

/-- A field that takes the value is reached, and after it what the routes leaving it reach. -/
theorem reach_eq_cons {k : Kind} {path : List Slot} (hn : w.node? s.1 = some n)
    (ht : w.takes s k = true) (hp : s ∉ path) :
    w.reach k path s = s ::
      if (n.access? s.2).any (·.get) then
        (n.routesFrom s.2).flatMap fun r => w.reach k (s :: path) r.slot
      else [] := by
  obtain ⟨m, hm, -, hk⟩ := takes_iff.1 ht
  obtain rfl : n = m := Option.some.inj (hn.symm.trans hm)
  have hnext : w.hopGraph.next s =
      if (n.access? s.2).any (·.get) then ((n.routesFrom s.2).map Route.slot).filter (w.takes · k)
      else [] := by
    simp only [hopGraph, hops, hn, hk, Option.any_some]
  unfold reach
  rw [if_pos ⟨hp, ht⟩, OutGraph.trailsFrom_eq, List.filterMap_cons_some (List.head?_cons),
    List.filterMap_flatMap, OutGraph.extensions, hnext]
  congr 1
  split
  · have h := flatMap_ite_nil ((n.routesFrom s.2).map Route.slot) (· ∉ s :: path) (w.takes · k)
      fun b => (w.hopGraph.trailsFrom (b :: s :: path)).filterMap List.head?
    rw [List.flatMap_map] at h
    convert h.symm
  · rfl

/-- What follows after a field took a value assigns what the routes leaving the field reach. -/
theorem delivered_passOn {m : Node} (released : List NodeId)
    (hd : Enumerates deliver w.hopGraph v w.cascade) (hw : w.Passive)
    (hm : w.node? n.id = some m) (hv : m.field? name = some v) :
    Delivered v
      (if (m.access? name).any (·.get) then
        (m.routesFrom name).flatMap fun r => w.reach v.kind w.cascade r.slot
      else [])
      w (passOn deliver n name ⟨released, []⟩ w) := by
  have hsettle : ∀ w : World, w.Passive → settle deliver n ⟨released, []⟩ w = w :=
    fun w hw => hw.release released
  by_cases hc : ((m.access? name).any (·.get) && !(m.routesFrom name).isEmpty) = true
  · have hdispatch : w.dispatch? n.id name = some ⟨m.routesFrom name, v⟩ := by
      simp only [dispatch?, hm, if_pos hc, hv, Option.map_some]
    rw [Bool.and_eq_true] at hc
    rw [passOn, hdispatch, if_pos hc.1]
    apply delivered_dropAll _ hw
    have hpassive := hw.holdAll v.references
    dsimp only
    rw [hsettle _ hpassive]
    exact delivered_follow (w := w.holdAll v.references) _ hd hpassive fun r hr =>
      slot_mem_routeEnds (mem_nodes_of_node? hm) hr
  · have hdispatch : w.dispatch? n.id name = none := by
      simp only [dispatch?, hm, if_neg hc]
    rw [passOn, hdispatch, hsettle _ hw]
    have hnil : (if (m.access? name).any (·.get) = true then
        (m.routesFrom name).flatMap fun r => w.reach v.kind w.cascade r.slot else []) = [] := by
      split
      · rename_i hg
        have : m.routesFrom name = [] := by simpa [hg] using hc
        rw [this]; rfl
      · rfl
    rw [hnil]
    exact Delivered.refl w v

/-- **One delivery**, after its field was put on the stack, assigns what the field reaches. -/
theorem delivered_conclude (path : List Slot)
    (hd : Enumerates deliver w.hopGraph v (s :: path)) (hw : w.Passive)
    (hcascade : w.cascade = s :: path) (hn : w.node? s.1 = some n) (hp : s ∉ path) :
    Delivered v (w.reach v.kind path s) w (conclude deliver n s.2 (w.receive n s.2 v)).2 ∧
      ((conclude deliver n s.2 (w.receive n s.2 v)).1 = .ok () ↔ w.takes s v.kind = true) := by
  obtain ⟨id, name⟩ := s
  obtain rfl : n.id = id := id_of_node? hn
  cases ht : w.takes (n.id, name) v.kind with
  | false =>
    obtain ⟨e, he⟩ := receive_of_not_takes (s := (n.id, name)) hw hn ht
    have hnil : w.reach v.kind path (n.id, name) = [] := if_neg (by simp [ht])
    simp only at he
    rw [hnil, he]
    simp only [conclude, hw.release]
    exact ⟨Delivered.refl w v, (fun h => by cases h), fun h => by cases h⟩
  | true =>
    obtain ⟨released, hr⟩ := receive_of_takes (s := (n.id, name)) hw hn ht
    simp only at hr
    rw [hr, conclude, reach_eq_cons hn ht hp]
    refine ⟨?_, fun _ => rfl, fun _ => rfl⟩
    set w₁ := (w.put (n.id, name) v).step (.stored n.id name v) with hw₁
    have h₁ : Delivered v [(n.id, name)] w w₁ :=
      ⟨by simpa using ht, rfl, rfl, rfl, by rw [hw₁, assigned_stored]; rfl⟩
    have hm : w₁.node? n.id = some (n.store name v) := by
      rw [node?_congr h₁.nodes]
      exact (node?_modify_self w n.id fun _ => Node.store_id _ _ _).trans (congrArg _ hn)
    have hv : (n.store name v).field? name = some v := by
      obtain ⟨m, hm', -, hk⟩ := takes_iff.1 ht
      obtain rfl : n = m := Option.some.inj (hn.symm.trans hm')
      obtain ⟨old, hold, -⟩ := Option.map_eq_some_iff.1 hk
      rw [Node.field?_store, if_pos rfl, hold, Option.map_some]
    have hd₁ : Enumerates deliver w₁.hopGraph v w₁.cascade := by
      rw [h₁.hopGraph, h₁.cascade, hcascade]
      exact hd
    have h₂ := delivered_passOn released hd₁ (h₁.passive hw) hm hv
    rw [reach_congr h₁, h₁.cascade, hcascade, Node.access?_store, Node.routesFrom_store] at h₂
    exact h₁.trans h₂

/-- The same with the field put on the stack before and taken off afterwards. -/
theorem delivered_enterCascade (hd : Enumerates deliver w.hopGraph v (s :: w.cascade))
    (hw : w.Passive) (hn : w.node? s.1 = some n) (hp : s ∉ w.cascade) :
    let w₁ := { w with cascade := s :: w.cascade }.step (.entered s.1 s.2)
    let r := conclude deliver n s.2 (w₁.receive n s.2 v)
    Delivered v (w.reach v.kind w.cascade s) w r.2.leaveCascade ∧
      (r.1 = .ok () ↔ w.takes s v.kind = true) := by
  intro w₁ r
  have h₁ : w₁.assigned = w.assigned := assigned_enter _ fun _ _ _ => by simp
  obtain ⟨h, hok⟩ := delivered_conclude (w := w₁) (s := s) w.cascade hd
    ⟨hw.behavior, hw.held⟩ rfl hn hp
  refine ⟨?_, hok⟩
  have hnodes : w₁.nodes = w.nodes := rfl
  have hleave : r.2.leaveCascade.assigned = r.2.assigned :=
    assigned_enter _ fun _ _ _ => by simp
  exact ⟨h.taken, h.nodes.trans (nodes_putAll_congr hnodes _ v), h.held,
    by simp only [leaveCascade, step, enter, r, h.cascade]; rfl, by rw [hleave, h.assigned, h₁]; rfl⟩

/-- The measure that bounds a delivery: the ends of routes that are not on the stack. -/
theorem enumerates_deliverUpTo (depth : Nat) (g : OutGraph Slot) (v : Field) (path : List Slot)
    (hdepth : (g.unvisited path).length ≤ depth) : Enumerates (deliverUpTo depth) g v path := by
  induction depth generalizing path with
  | zero =>
    intro w s hw hg hcascade hs hlive
    -- every end of a route is on the stack, so there is nothing left to deliver to
    have hmem : s ∈ path := by
      by_contra hp
      have : s ∈ g.unvisited path := by simp [OutGraph.unvisited, hs, hp]
      have := List.length_pos_of_mem this
      omega
    rw [reach, if_neg fun h => h.1 hmem]
    exact Delivered.refl w v
  | succ depth ih =>
    intro w s hw hg hcascade hs hlive
    obtain ⟨n, hn⟩ := isLive_iff.1 hlive
    unfold deliverUpTo
    rw [hn]
    simp only [enterCascade, hcascade]
    by_cases hp : s ∈ path
    · rw [reach, if_neg fun h => h.1 hp, if_pos (by simpa using hp)]
      exact Delivered.refl w v
    · rw [if_neg (by simpa using hp)]
      have hdepth' : (g.unvisited (s :: path)).length ≤ depth := by
        have := OutGraph.length_unvisited_lt (g := g) hs hp
        omega
      subst hg hcascade
      obtain ⟨h, -⟩ := delivered_enterCascade (ih _ hdepth') hw hn hp
      exact h

theorem nodup_hops (hr : w.RoutesDistinct) (s : Slot) : (w.hops s).Nodup := by
  unfold hops
  split
  · exact List.nodup_nil
  rename_i n hn
  split
  · refine ((hr n (mem_nodes_of_node? hn) s.2).map ?_).filter _
    rintro ⟨_, _⟩ ⟨_, _⟩ h
    simpa [Route.slot] using h
  · exact List.nodup_nil

/-- Fields that took a value hold it, and no other field has changed. -/
theorem fieldAt_putAll {l : List Slot} (h : ∀ s ∈ l, w.takes s v.kind = true) (t : Slot) :
    (w.putAll l v).fieldAt t = if t ∈ l then some v else w.fieldAt t := by
  induction l generalizing w with
  | nil => simp [putAll]
  | cons s rest ih =>
    have hs := h s List.mem_cons_self
    have hrest : ∀ t ∈ rest, (w.put s v).takes t v.kind = true := by
      rw [takes_put hs]
      exact fun t ht => h t (List.mem_cons_of_mem _ ht)
    have hsome : (w.fieldAt s).map (fun _ => v) = some v := by
      obtain ⟨n, hn, -, hk⟩ := takes_iff.1 hs
      obtain ⟨old, hold, -⟩ := Option.map_eq_some_iff.1 hk
      simp [fieldAt, hn, hold]
    refine (ih hrest).trans ?_
    rw [fieldAt_put, hsome]
    by_cases ht : t = s <;> by_cases hr : t ∈ rest <;> simp [ht, hr]

theorem length_unvisited_le (w : World) (s : Slot) :
    (w.hopGraph.unvisited [s]).length ≤ (w.nodes.flatMap (·.connections)).length := by
  refine (List.length_filter_le _ _).trans ?_
  simp [hopGraph, routeEnds]

/-- A set from outside any cascade, as one delivery with the field on the stack. -/
theorem delivered_setField {a : NodeId} {f : String} (hw : w.Passive) (hidle : w.cascade = [])
    (hlive : w.isLive a = true) :
    Delivered v (w.reach v.kind [] (a, f)) w (w.setField a f v).2 ∧
      ((w.setField a f v).1 = .ok () ↔ w.takes (a, f) v.kind = true) := by
  obtain ⟨n, hn⟩ := isLive_iff.1 hlive
  have hd := enumerates_deliverUpTo (w.nodes.flatMap (·.connections)).length w.hopGraph v [(a, f)]
    (w.length_unvisited_le (a, f))
  have h := delivered_enterCascade (s := (a, f)) (hidle ▸ hd) hw hn (by simp [hidle])
  unfold setField cascadeDepth deliverUpTo
  rw [hn]
  simp only [enterCascade, hidle, List.contains_nil, Bool.false_eq_true, if_false] at h ⊢
  exact h

/-- What a whole cascade assigns, if the value is taken. -/
theorem assigned_setField_of_takes {a : NodeId} {f : String} (hw : w.Passive)
    (hidle : w.cascade = []) (ht : w.takes (a, f) v.kind = true) :
    (w.setField a f v).2.assigned =
        w.assigned ++ (w.trails (a, f)).filterMap (fun p => p.head?.map (·, v)) ∧
      ∀ s, (w.setField a f v).2.fieldAt s =
        if ∃ p ∈ w.trails (a, f), p.head? = some s then some v else w.fieldAt s := by
  obtain ⟨n, hn, -⟩ := takes_iff.1 ht
  obtain ⟨h, -⟩ := delivered_setField (v := v) (f := f) hw hidle (isLive_iff.2 ⟨n, hn⟩)
  have hreach : w.reach v.kind [] (a, f) = (w.trails (a, f)).filterMap List.head? :=
    if_pos ⟨List.not_mem_nil, ht⟩
  rw [hreach] at h
  refine ⟨by rw [h.assigned, List.map_filterMap], fun s => ?_⟩
  have hnodes : (w.setField a f v).2.fieldAt s =
      (w.putAll ((w.trails (a, f)).filterMap List.head?) v).fieldAt s := by
    simp only [fieldAt, node?_congr h.nodes]
  rw [hnodes, fieldAt_putAll h.taken]
  simp only [List.mem_filterMap]

theorem mem_trails {p : List Slot} :
    p ∈ w.trails s ↔ w.hopGraph.IsTrail p ∧ p.getLast? = some s := by
  rw [trails, OutGraph.mem_trailsFrom (List.cons_ne_nil _ _) ⟨List.isChain_singleton _, by simp⟩,
    and_comm, List.getLast?_eq_some_iff]
  exact and_congr_right fun _ => ⟨fun ⟨q, hq⟩ => ⟨q, hq.symm⟩, fun ⟨q, hq⟩ => ⟨q, hq.symm⟩⟩

/-- A field in the middle of a trail is the end of a shorter one. -/
theorem exists_trail_ending {t : Slot} :
    (∃ p ∈ w.trails s, p.head? = some t) ↔ ∃ p ∈ w.trails s, t ∈ p := by
  constructor
  · rintro ⟨p, hp, ht⟩
    exact ⟨p, hp, List.mem_of_head? ht⟩
  · rintro ⟨p, hp, ht⟩
    obtain ⟨before, after, rfl⟩ := List.append_of_mem ht
    obtain ⟨htrail, hlast⟩ := mem_trails.1 hp
    refine ⟨t :: after, mem_trails.2 ⟨htrail.of_suffix (List.suffix_append _ _), ?_⟩, rfl⟩
    simpa using hlast

end World

/-! ### Routes that are no hops -/

/-- A node with only some of the routes that leave its fields. -/
def Node.keepRoutes (n : Node) (p : String → Route → Bool) : Node :=
  { n with routes := n.routes.map fun (output, routes) => (output, routes.filter (p output)) }

theorem Node.routesFrom_keepRoutes (n : Node) (p : String → Route → Bool) (output : String) :
    (n.keepRoutes p).routesFrom output = (n.routesFrom output).filter (p output) := by
  unfold Node.routesFrom Node.keepRoutes
  rw [List.find?_map]
  change ((((n.routes.find? (·.1 == output)).map _).map _).getD []) = _
  cases h : n.routes.find? (·.1 == output) with
  | none => rfl
  | some e =>
    obtain rfl : e.1 = output := by simpa using List.find?_some h
    rfl

namespace World

variable {w : World} {deliver : Delivery} {n : Node} {name : String} {v : Field} {r : Route}
  {s : Slot}

/-- The world without the routes that are not valid hops. -/
def withoutIdleRoutes (w : World) : World :=
  { w with nodes := w.nodes.map fun n =>
      n.keepRoutes fun output r => r.slot ∈ w.hops (n.id, output) }

theorem node?_withoutIdleRoutes (w : World) (id : NodeId) :
    w.withoutIdleRoutes.node? id =
      (w.node? id).map fun n => n.keepRoutes fun output r => r.slot ∈ w.hops (n.id, output) := by
  unfold node? withoutIdleRoutes
  rw [List.find?_map]
  rfl

theorem takes_withoutIdleRoutes (w : World) : w.withoutIdleRoutes.takes = w.takes := by
  funext s k
  unfold takes
  rw [node?_withoutIdleRoutes]
  cases w.node? s.1 <;> rfl

theorem hops_of_node (hn : w.node? s.1 = some n) :
    w.hops s =
      if (n.access? s.2).any (·.get) then
        ((n.routesFrom s.2).map Route.slot).filter fun t =>
          ((n.field? s.2).map (·.kind)).any (w.takes t)
      else [] := by
  rw [hops, hn]

theorem hops_withoutIdleRoutes (w : World) : w.withoutIdleRoutes.hops = w.hops := by
  funext s
  cases hn : w.node? s.1 with
  | none => simp only [hops, node?_withoutIdleRoutes, hn, Option.map_none]
  | some n =>
    have h := hops_of_node hn
    have hn' := (node?_withoutIdleRoutes w s.1).trans (congrArg _ hn)
    rw [hops_of_node hn', takes_withoutIdleRoutes, Node.routesFrom_keepRoutes, id_of_node? hn]
    change (if (n.access? s.2).any (·.get) = true then
      (((n.routesFrom s.2).filter (·.slot ∈ w.hops s)).map Route.slot).filter (fun t =>
        ((n.field? s.2).map (·.kind)).any (w.takes t)) else []) = _
    by_cases hg : (n.access? s.2).any (·.get) = true
    · rw [if_pos hg] at h ⊢
      rw [h, List.filter_map, List.filter_map, List.filter_filter]
      congr 1
      apply List.filter_congr
      intro r hr
      simp only [Function.comp, Bool.and_eq_left_iff_imp, decide_eq_true_eq]
      exact fun ht => List.mem_map_of_mem (List.mem_filter.2 ⟨hr, ht⟩)
    · rw [if_neg hg, h, if_neg hg]

/-- **A cascade enumerates the simple paths of valid hops.** Among passive nodes, and while nothing
else is being set, a value that a field takes is assigned to the ends of all trails of valid hops
that start at the field, in depth-first preorder and once for each trail. Afterwards the fields on
such trails hold the value with its time, and all other fields hold what they held before. Without
the routes that are no valid hops the same happens. -/
theorem assigned_setField {a : NodeId} {f : String} (hw : w.Passive) (hidle : w.cascade = [])
    (hroutes : w.RoutesDistinct) (hlive : w.isLive a = true)
    (hok : (w.setField a f v).1 = .ok ()) :
    (w.setField a f v).2.assigned =
        w.assigned ++ (w.trails (a, f)).filterMap (fun p => p.head?.map (·, v)) ∧
      (∀ p, p ∈ w.trails (a, f) ↔ w.hopGraph.IsTrail p ∧ p.getLast? = some (a, f)) ∧
      (w.trails (a, f)).Nodup ∧
      (∀ s, (w.setField a f v).2.fieldAt s =
        if ∃ p ∈ w.trails (a, f), s ∈ p then some v else w.fieldAt s) ∧
      (w.withoutIdleRoutes.setField a f v).2.assigned = (w.setField a f v).2.assigned ∧
      ∀ s, (w.withoutIdleRoutes.setField a f v).2.fieldAt s = (w.setField a f v).2.fieldAt s := by
  have ht := (delivered_setField hw hidle hlive).2.1 hok
  obtain ⟨hassigned, hfields⟩ := assigned_setField_of_takes hw hidle ht
  have hw' : w.withoutIdleRoutes.Passive := hw.of_nodes
    (by simp [withoutIdleRoutes, Node.keepRoutes]) fun _ hid => hid
  have ht' : w.withoutIdleRoutes.takes (a, f) v.kind = true := by rw [takes_withoutIdleRoutes]; exact ht
  obtain ⟨hassigned', hfields'⟩ := assigned_setField_of_takes hw' hidle ht'
  have htrails : w.withoutIdleRoutes.trails (a, f) = w.trails (a, f) :=
    OutGraph.trailsFrom_congr (hops_withoutIdleRoutes w) _
  refine ⟨hassigned, fun p => mem_trails, OutGraph.nodup_trailsFrom (nodup_hops hroutes) _,
    fun s => ?_, ?_, fun s => ?_⟩
  · rw [hfields]
    simp only [exists_trail_ending]
  · rw [hassigned', hassigned, htrails]; rfl
  · rw [hfields', hfields, htrails]
    congr 1
    simp only [fieldAt, node?_withoutIdleRoutes]
    cases w.node? s.1 <;> rfl

/-! ### A diamond within a cycle -/

/-- Three nodes of one type: the first leads to the second and the third, the second to the third, and
the third back to the first. Two more routes lead to a node that is gone and to a field of another
kind. -/
def diamond : World :=
  let spec : Specification :=
    ⟨"Switch", [⟨"on", .getSet, .single .boolean false⟩, ⟨"count", .getSet, .single .int 0⟩]⟩
  let node (id : Nat) (routes : List Route) : Node :=
    { Node.fresh ⟨id⟩ spec .plain .detached with routes := [("on", routes)] }
  { nodes := [node 1 [⟨⟨2⟩, "on"⟩, ⟨⟨9⟩, "on"⟩, ⟨⟨2⟩, "count"⟩, ⟨⟨3⟩, "on"⟩],
      node 2 [⟨⟨3⟩, "on"⟩], node 3 [⟨⟨1⟩, "on"⟩]]
    held := [⟨1⟩, ⟨2⟩, ⟨3⟩] }

theorem routesDistinct_diamond : diamond.RoutesDistinct := by
  intro n hn output
  have hall : ∀ n ∈ diamond.nodes, ∀ e ∈ n.routes, e.2.Nodup := by decide +kernel
  unfold Node.routesFrom
  cases h : n.routes.find? (·.1 == output) with
  | none => exact List.nodup_nil
  | some e => exact hall n hn e (List.mem_of_find?_eq_some h)

theorem trails_diamond :
    diamond.trails (⟨1⟩, "on") =
      [[(⟨1⟩, "on")], [(⟨2⟩, "on"), (⟨1⟩, "on")], [(⟨3⟩, "on"), (⟨2⟩, "on"), (⟨1⟩, "on")],
        [(⟨3⟩, "on"), (⟨1⟩, "on")]] := by
  have h₁ : diamond.hopGraph.extensions [(⟨1⟩, "on")] = [(⟨2⟩, "on"), (⟨3⟩, "on")] := by
    decide +kernel
  have h₂ : diamond.hopGraph.extensions [(⟨2⟩, "on"), (⟨1⟩, "on")] = [(⟨3⟩, "on")] := by
    decide +kernel
  have h₃ : diamond.hopGraph.extensions [(⟨3⟩, "on"), (⟨2⟩, "on"), (⟨1⟩, "on")] = [] := by
    decide +kernel
  have h₄ : diamond.hopGraph.extensions [(⟨3⟩, "on"), (⟨1⟩, "on")] = [] := by decide +kernel
  rw [trails, OutGraph.trailsFrom_eq, h₁]
  simp only [List.flatMap_cons, List.flatMap_nil, OutGraph.trailsFrom_eq _ [_, _],
    OutGraph.trailsFrom_eq _ [_, _, _], h₂, h₃, h₄, List.append_nil, List.cons_append,
    List.nil_append]

/-- The field of the third node is set twice, once along each of the two ways to it. -/
theorem assigned_setField_diamond :
    diamond.Passive ∧ diamond.cascade = [] ∧ diamond.RoutesDistinct ∧
      diamond.isLive ⟨1⟩ = true ∧
      (diamond.setField ⟨1⟩ "on" (.single .boolean true)).1 = .ok () ∧
      (diamond.setField ⟨1⟩ "on" (.single .boolean true)).2.assigned.map (·.1) =
        [(⟨1⟩, "on"), (⟨2⟩, "on"), (⟨3⟩, "on"), (⟨3⟩, "on")] := by
  have hp : diamond.Passive := ⟨by decide +kernel, by decide +kernel⟩
  have hl : diamond.isLive ⟨1⟩ = true := by decide +kernel
  have hok := (delivered_setField (v := .single .boolean true) (f := "on") hp rfl hl).2.2
    (by decide +kernel)
  refine ⟨hp, rfl, routesDistinct_diamond, hl, hok, ?_⟩
  rw [(assigned_setField hp rfl routesDistinct_diamond hl hok).1, trails_diamond]
  rfl

end World

end SceneGraph
