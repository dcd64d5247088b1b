import SceneGraph.Proofs.World.Lookup

/-!
# What holds of a cascade because it holds of its parts

A `CascadeRule` lists what is asked of the parts of a cascade: letting go of nodes, what a node does
with a value, entering and leaving the cascade stack, following a route. The rule then holds of whole
cascades, however deep.

* `CascadeRule.launch`, `CascadeRule.nest`: of one level of a cascade, if it holds of the levels below.
* `CascadeRule.deliverUpTo`, `CascadeRule.setField`, `CascadeRule.emitField`: of whole cascades.
-/

namespace SceneGraph

/-- A field of a node. -/
abbrev Slot := NodeId × String

/-- The field that a route leads to. -/
def Route.slot (r : Route) : Slot := (r.target, r.field)

namespace World

theorem enterCascade_eq_some {w w' : World} {id : NodeId} {name : String} (h : w.enterCascade id name = some w') :
    (id, name) ∉ w.cascade ∧
      w' = { w with cascade := (id, name) :: w.cascade }.step (.entered id name) := by
  unfold enterCascade at h
  split at h
  · cases h
  · rename_i hfree
    exact ⟨by simpa using hfree, (Option.some.inj h).symm⟩

theorem nodes_enterCascade {w w' : World} {id : NodeId} {name : String} (h : w.enterCascade id name = some w') :
    w'.nodes = w.nodes := by
  obtain ⟨-, rfl⟩ := enterCascade_eq_some h
  rfl

/-- One level of a cascade: a field is changed while it is on the cascade stack, and what goes out of
it is delivered as told. -/
def launch (react : World → Node → Except NodeError Unit × Aftermath × World) (deliver : Delivery)
    (id : NodeId) (name : String) (w : World) : Except NodeError Unit × World :=
  match w.node? id with
  | none => (.ok (), w)
  | some n =>
    match w.enterCascade id name with
    | none => (.ok (), w)
    | some w =>
      let (result, w) := conclude deliver n name (react w n)
      (result, w.leaveCascade)

/-- One level of a cascade at which a field is set from outside. -/
def nest (deliver : Delivery) : Delivery := fun id name value =>
  launch (fun w n => w.receive n name value) deliver id name

theorem deliverUpTo_succ (depth : Nat) : deliverUpTo (depth + 1) = nest (deliverUpTo depth) := rfl

theorem emitField_eq (w : World) (id : NodeId) (name : String) (value : Field) :
    w.emitField id name value =
      launch (fun w n => w.produce n name value) (deliverUpTo w.cascadeDepth) id name w := by
  unfold emitField launch
  cases w.node? id with
  | none => rfl
  | some n =>
    cases hin : w.enterCascade id name with
    | none => rfl
    | some w' =>
      have hdepth : w'.cascadeDepth = w.cascadeDepth := by
        rw [cascadeDepth, nodes_enterCascade hin, cascadeDepth]
      simp only [hdepth]

end World

/-- What is asked of the parts of a cascade. -/
structure CascadeRule where
  /-- Holds of the world at which a part begins. -/
  Inv : World → Prop
  /-- The value may be on its way in the world. -/
  Fit : World → Field → Prop
  /-- The nodes may be held for a while. -/
  Holdable : World → List NodeId → Prop
  /-- What a part does. -/
  Rel : World → World → Prop
  /-- The field takes the value, if its node is there. -/
  Suits : World → Slot → Field → Prop
  /-- The value may go out of the field along the route. -/
  Due : Slot → Route → Field → Prop
  refl : ∀ w, Rel w w
  trans : ∀ {u v w}, Rel u v → Rel v w → Rel u w
  inv_rel : ∀ {v w}, Inv v → Rel v w → Inv w
  fit_rel : ∀ {v w value}, Inv v → Rel v w → Fit v value → Fit w value
  log : ∀ w level text, level ≠ .error → Rel w (w.log level text)
  release : ∀ {w} ids, Inv w → Rel w (World.release ids w)
  holdable : ∀ {w n}, Inv w → w.node? n.id = some n → Holdable w [n.id]
  inv_held : ∀ {w ids}, Inv w → Holdable w ids → Inv (w.holdAll ids)
  fit_held : ∀ {w value} ids, Fit w value → Fit (w.holdAll ids) value
  held : ∀ {v w ids}, Inv v → Holdable v ids → Rel (v.holdAll ids) w → Rel v (w.dropAll ids)
  inv_entered : ∀ {v w id name}, v.enterCascade id name = some w → Inv v → Inv w
  fit_entered : ∀ {v w id name value}, v.enterCascade id name = some w → Fit v value → Fit w value
  suits_entered : ∀ {v w id name s value}, v.enterCascade id name = some w →
    Suits v s value → Suits w s value
  left : ∀ {u v w id name}, u.enterCascade id name = some v → Rel v w → Rel u w.leaveCascade
  receive : ∀ {w n name value}, Inv w → w.node? n.id = some n → Fit w value →
    Rel w (w.receive n name value).2.2 ∧
      (Suits w (n.id, name) value → (w.receive n name value).1 = .ok ())
  dispatched : ∀ {w id name d}, Inv w → w.dispatch? id name = some d →
    Holdable w d.value.references ∧ Fit (w.holdAll d.value.references) d.value ∧
      ∀ r ∈ d.routes, Due (id, name) r d.value
  followed : ∀ {v s r value error} w, Inv v → Due s r value → (Suits v r.slot value → error = none) →
    Rel w (w.step (.followed s.1 s.2 r.target r.field value error))

namespace CascadeRule

open World

variable {ρ : CascadeRule} {deliver : Delivery} {w w' : World} {name : String} {value : Field}

/-- A rule that asks nothing of worlds and values. -/
def unconditional (Rel : World → World → Prop) (refl : ∀ w, Rel w w)
    (trans : ∀ {u v w}, Rel u v → Rel v w → Rel u w) (log : ∀ w level text, Rel w (w.log level text))
    (release : ∀ w ids, Rel w (World.release ids w))
    (held : ∀ {v w} ids, Rel (v.holdAll ids) w → Rel v (w.dropAll ids))
    (left : ∀ {u v w id name}, u.enterCascade id name = some v → Rel v w → Rel u w.leaveCascade)
    (receive : ∀ {w} n name value, w.node? n.id = some n → Rel w (w.receive n name value).2.2)
    (followed : ∀ w (s : Slot) (r : Route) value error,
      Rel w (w.step (.followed s.1 s.2 r.target r.field value error))) : CascadeRule where
  Inv _ := True
  Fit _ _ := True
  Holdable _ _ := True
  Rel := Rel
  Suits _ _ _ := False
  Due _ _ _ := True
  refl := refl
  trans := trans
  inv_rel _ _ := trivial
  fit_rel _ _ _ := trivial
  log w level text _ := log w level text
  release {w} ids _ := release w ids
  holdable _ _ := trivial
  inv_held _ _ := trivial
  fit_held _ _ := trivial
  held {_ _ ids} _ _ h := held ids h
  inv_entered _ _ := trivial
  fit_entered _ _ := trivial
  suits_entered _ h := h
  left := left
  receive {_ n name value} _ hn _ := ⟨receive n name value hn, False.elim⟩
  dispatched _ _ := ⟨trivial, trivial, fun _ _ => trivial⟩
  followed {_ s r value error} w _ _ _ := followed w s r value error

/-- A delivery that keeps to the rule. -/
def Sustains (ρ : CascadeRule) (deliver : Delivery) : Prop :=
  ∀ id name value w, ρ.Inv w → ρ.Fit w value → ρ.Rel w (deliver id name value w).2 ∧
    (ρ.Suits w (id, name) value → (deliver id name value w).1 = .ok ())

/-- Parts that keep to the rule one after the other, wherever the ones before have led. -/
theorem foldl {α : Type} {act : World → α → World} {l : List α}
    (hact : ∀ a ∈ l, ∀ v, ρ.Rel w v → ρ.Rel v (act v a)) : ρ.Rel w (l.foldl act w) := by
  suffices h : ∀ v, ρ.Rel w v → ρ.Rel w (l.foldl act v) from h w (ρ.refl w)
  induction l with
  | nil => exact fun v h => h
  | cons a rest ih =>
    intro v h
    exact ih (fun b hb => hact b (List.mem_cons_of_mem a hb)) _
      (ρ.trans h (hact a List.mem_cons_self v h))

theorem hop (hd : ρ.Sustains deliver) (hi : ρ.Inv w) (hf : ρ.Fit w value) {n : Node} {route : Route}
    (hdue : ρ.Due (n.id, name) route value) : ρ.Rel w (hop deliver n name value w route) := by
  unfold World.hop
  split
  · exact ρ.log w _ _ (by decide)
  rename_i target htarget
  have hid : target.id = route.target := id_of_node? htarget
  have hold : ρ.Holdable w [target.id] := ρ.holdable hi (hid ▸ htarget)
  have hi' : ρ.Inv (w.hold target.id) := ρ.inv_held hi hold
  obtain ⟨hrel, hsuits⟩ := hd target.id route.field value (w.hold target.id) hi'
    (ρ.fit_held [target.id] hf)
  have hfollowed : ∀ error v, (ρ.Suits (w.hold target.id) (target.id, route.field) value →
      error = none) → ρ.Rel v (v.step (.followed n.id name target.id route.field value error)) := by
    intro error v h
    rw [hid] at h ⊢
    exact ρ.followed v (hid ▸ hi') hdue h
  split
  · rename_i heq
    rw [heq] at hrel
    exact ρ.held hi hold (ρ.trans hrel (hfollowed none _ fun _ => rfl))
  · rename_i e v heq
    rw [heq] at hrel hsuits
    exact ρ.held hi hold (ρ.trans (ρ.trans hrel
      (hfollowed (some e) _ fun h => nomatch hsuits h)) (ρ.log _ _ _ (by decide)))

theorem follow (hd : ρ.Sustains deliver) (hi : ρ.Inv w) {d : Dispatch} (hf : ρ.Fit w d.value)
    {n : Node} (hdue : ∀ r ∈ d.routes, ρ.Due (n.id, name) r d.value) :
    ρ.Rel w (follow deliver n name d w) :=
  foldl fun r hr _ h => hop hd (ρ.inv_rel hi h) (ρ.fit_rel hi h hf) (hdue r hr)

/-- What goes out of a field is followed, while its nodes are held, after something else was done. -/
theorem holding (hd : ρ.Sustains deliver) (hi : ρ.Inv w) {n : Node} {d : Dispatch}
    (hdispatch : w.dispatch? n.id name = some d) {act : World → World}
    (hact : ∀ v, ρ.Inv v → ρ.Rel v (act v)) :
    ρ.Rel w (holding d (fun v => World.follow deliver n name d (act v)) w) := by
  obtain ⟨hold, hfit, hdue⟩ := ρ.dispatched hi hdispatch
  have hi' := ρ.inv_held hi hold
  have h := hact _ hi'
  exact ρ.held hi hold (ρ.trans h (follow hd (ρ.inv_rel hi' h) (ρ.fit_rel hi' h hfit) hdue))

theorem sendEmitted (hd : ρ.Sustains deliver) (hi : ρ.Inv w) (n : Node) (name : String) :
    ρ.Rel w (sendEmitted deliver n w name) := by
  unfold World.sendEmitted
  split
  · exact ρ.refl w
  rename_i w' hin
  split
  · exact ρ.left hin (ρ.refl w')
  rename_i d hdispatch
  exact ρ.left hin (holding hd (ρ.inv_entered hin hi) hdispatch fun v _ => ρ.refl v)

theorem settle (hd : ρ.Sustains deliver) (hi : ρ.Inv w) (n : Node) (after : Aftermath) :
    ρ.Rel w (settle deliver n after w) := by
  have h := ρ.release after.released hi
  have hi' := ρ.inv_rel hi h
  exact ρ.trans h (foldl fun name _ _ h => sendEmitted hd (ρ.inv_rel hi' h) n name)

theorem passOn (hd : ρ.Sustains deliver) (hi : ρ.Inv w) (n : Node) (name : String)
    (after : Aftermath) : ρ.Rel w (passOn deliver n name after w) := by
  unfold World.passOn
  split
  · exact settle hd hi n after
  · rename_i d hdispatch
    exact holding hd hi hdispatch fun v hv => settle hd hv n after

theorem conclude (hd : ρ.Sustains deliver) (hi : ρ.Inv w) (n : Node) (name : String)
    {r : Except NodeError Unit × Aftermath × World} (h : ρ.Rel w r.2.2) :
    ρ.Rel w (conclude deliver n name r).2 ∧ (conclude deliver n name r).1 = r.1 := by
  have hi' := ρ.inv_rel hi h
  obtain ⟨result, after, w'⟩ := r
  cases result with
  | error e => exact ⟨ρ.trans h (ρ.release after.released hi'), rfl⟩
  | ok u => exact ⟨ρ.trans h (passOn hd hi' n name after), rfl⟩

/-- One level of a cascade keeps to the rule if what the node does and what is delivered do. -/
theorem launch (hd : ρ.Sustains deliver) (hi : ρ.Inv w) {id : NodeId} (takes : Prop)
    {react : World → Node → Except NodeError Unit × Aftermath × World}
    (hreact : ∀ n w', w'.node? n.id = some n → n.id = id → w.enterCascade id name = some w' →
      ρ.Rel w' (react w' n).2.2 ∧ (takes → (react w' n).1 = .ok ())) :
    ρ.Rel w (launch react deliver id name w).2 ∧
      (takes → (World.launch react deliver id name w).1 = .ok ()) := by
  unfold World.launch
  split
  · exact ⟨ρ.refl w, fun _ => rfl⟩
  rename_i n hn
  split
  · exact ⟨ρ.refl w, fun _ => rfl⟩
  rename_i w' hin
  have hid : n.id = id := id_of_node? hn
  have hn' : w'.node? n.id = some n := by rw [hid, node?_congr (nodes_enterCascade hin), hn]
  obtain ⟨hrel, hok⟩ := hreact n w' hn' hid hin
  obtain ⟨hconclude, hresult⟩ := conclude hd (ρ.inv_entered hin hi) n name hrel
  exact ⟨ρ.left hin hconclude, fun ht => hresult.trans (hok ht)⟩

theorem nest (hd : ρ.Sustains deliver) : ρ.Sustains (nest deliver) := by
  intro id name value w hi hf
  refine launch hd hi _ fun n w' hn hid hin => ?_
  subst hid
  have hreceive : ρ.Rel w' (w'.receive n name value).2.2 ∧
      (ρ.Suits w' (n.id, name) value → (w'.receive n name value).1 = .ok ()) :=
    ρ.receive (ρ.inv_entered hin hi) hn (ρ.fit_entered hin hf)
  exact ⟨hreceive.1, fun hs => hreceive.2 (ρ.suits_entered hin hs)⟩

/-- **A rule for the parts of a cascade holds of cascades of any depth.** -/
theorem deliverUpTo (ρ : CascadeRule) (depth : Nat) : ρ.Sustains (deliverUpTo depth) := by
  induction depth with
  | zero => exact fun _ _ _ w _ _ => ⟨ρ.refl w, fun _ => rfl⟩
  | succ depth ih => exact nest ih

theorem setField (ρ : CascadeRule) (hi : ρ.Inv w) (hf : ρ.Fit w value) (id : NodeId) (name : String) :
    ρ.Rel w (w.setField id name value).2 := (ρ.deliverUpTo _ id name value w hi hf).1

/-- An output that is stored and sent out. -/
theorem emitField (ρ : CascadeRule) (hi : ρ.Inv w) {id : NodeId}
    (hproduce : ∀ n w', w'.node? n.id = some n → n.id = id → w.enterCascade id name = some w' →
      ρ.Rel w' (w'.produce n name value).2.2) : ρ.Rel w (w.emitField id name value).2 := by
  rw [emitField_eq]
  exact (launch (ρ.deliverUpTo _) hi False fun n w' hn hid hin =>
    ⟨hproduce n w' hn hid hin, False.elim⟩).1

end CascadeRule

end SceneGraph
