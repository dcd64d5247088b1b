import SceneGraph.Proofs.Cascade.Refusals

/-!
# What a reaction stores

A node that reacts to a value stores only into fields of its own: the field that was set, the outputs that
are to be sent out, or the list of children that another field changes. It stores into each of them at most
once, so that in the end they hold what the journal tells of (`World.Stores`).

* `World.stores_receive`: what a node stores when a value is set from outside.
* `World.Sound.filter_input`: a filter takes values at its input only.
* `World.preserves_release`: letting go of nodes stores nothing.
-/

namespace SceneGraph

/-- The only field of a filter that can be set is its input. -/
theorem Catalog.input_of_filter : ∀ t ∈ withScenes, t.behavior = .filter →
    ∀ e ∈ t.layout.entries, e.access.set = true → e.name = "set_boolean" := by decide

/-- The entry tells that a field took over a value. -/
def Entry.isStored : Entry → Bool
  | .step (.stored ..) => true
  | _ => false

namespace World

variable {types : Catalog} {u v w w' : World} {n : Node} {id : NodeId} {name : String} {value : Field}
  {touched touched' : String → Prop}

/-- Only some fields of one node take over values, each at most once: in the end it holds what the journal
tells of. -/
structure Stores (id : NodeId) (touched : String → Prop) (w w' : World) : Prop where
  others : ∀ s : Slot, (s.1 = id → ¬ touched s.2) → w'.fieldAt s = w.fieldAt s
  journal : ∃ news, w'.journal = news ++ w.journal ∧ ∀ (s : Slot) value,
    .step (.stored s.1 s.2 value) ∈ news → s.1 = id ∧ touched s.2 ∧ w'.fieldAt s = some value

/-- No field takes over a value. -/
abbrev StoresNothing (w w' : World) : Prop := ∀ id, Stores id (fun _ => False) w w'

/-! ### Fields that take over values -/

theorem fieldAt_congr (h : w'.nodes = w.nodes) (s : Slot) : w'.fieldAt s = w.fieldAt s := by
  rw [fieldAt, node?_congr h, fieldAt]

/-- A change of a node that leaves its fields alone. -/
theorem fieldAt_modify (w : World) (id : NodeId) {f : Node → Node} (hid : ∀ n, (f n).id = n.id)
    (hf : ∀ n, (f n).field? = n.field?) (s : Slot) : (w.modify id f).fieldAt s = w.fieldAt s := by
  rw [fieldAt, node?_modify w id s.1 hid, fieldAt]
  cases hn : w.node? s.1 with
  | none => rfl
  | some n =>
    simp only [Option.map_some, Option.bind_some]
    split
    · rw [hf]
    · rfl

namespace Stores

theorem refl (w : World) : Stores id touched w w := ⟨fun _ _ => rfl, [], rfl, by simp⟩

theorem mono (h : Stores id touched w w') (hsub : ∀ f, touched f → touched' f) : Stores id touched' w w' := by
  obtain ⟨hothers, news, hnews, hstored⟩ := h
  refine ⟨fun s hs => hothers s fun hid htouched => hs hid (hsub _ htouched), news, hnews, fun s f hf => ?_⟩
  obtain ⟨hid, htouched, hfield⟩ := hstored s f hf
  exact ⟨hid, hsub _ htouched, hfield⟩

/-- What is stored first is still there in the end if it is not touched again. -/
theorem trans (h : Stores id touched u v) (h' : Stores id touched' v w)
    (hdisjoint : ∀ f, touched f → ¬ touched' f) : Stores id (fun f => touched f ∨ touched' f) u w := by
  obtain ⟨hothers, news, hnews, hstored⟩ := h
  obtain ⟨hothers', more, hmore, hstored'⟩ := h'
  refine ⟨fun s hs => ?_, more ++ news, by rw [hmore, hnews, List.append_assoc], fun s f hf => ?_⟩
  · have hlater := hothers' s fun hid htouched => hs hid (.inr htouched)
    exact hlater.trans (hothers s fun hid htouched => hs hid (.inl htouched))
  · rcases List.mem_append.1 hf with hf | hf
    · obtain ⟨hid, htouched, hfield⟩ := hstored' s f hf
      exact ⟨hid, .inr htouched, hfield⟩
    · obtain ⟨hid, htouched, hfield⟩ := hstored s f hf
      exact ⟨hid, .inl htouched, (hothers' s fun _ => hdisjoint _ htouched).trans hfield⟩

theorem before (h : Stores id touched v w) (h' : StoresNothing u v) : Stores id touched u w :=
  ((h' id).trans h fun _ hf => hf.elim).mono fun _ hf => hf.resolve_left not_false

theorem after (h : Stores id touched u v) (h' : StoresNothing v w) : Stores id touched u w :=
  (h.trans (h' id) fun _ _ hf => hf).mono fun _ hf => hf.resolve_right not_false

/-- A field that is there takes over a value. -/
theorem store (hn : w.node? id = some n) {old : Field} (hold : n.field? name = some old) (value : Field) :
    Stores id (· = name) w ((w.modify id (·.store name value)).step (.stored id name value)) := by
  refine ⟨fun s hs => ?_, [.step (.stored id name value)], rfl, fun s f hf => ?_⟩
  · have hne : s ≠ (id, name) := fun h => hs (congrArg Prod.fst h) (congrArg Prod.snd h)
    exact (fieldAt_put w (id, name) s value).trans (if_neg hne)
  · obtain ⟨hid, hname, rfl⟩ := Step.stored.inj (Entry.step.inj (List.mem_singleton.1 hf))
    obtain rfl : s = (id, name) := Prod.ext hid hname
    have hfield : w.fieldAt (id, name) = some old := by rw [fieldAt, hn]; exact hold
    refine ⟨rfl, rfl, (fieldAt_put w (id, name) (id, name) f).trans ?_⟩
    rw [if_pos rfl, hfield]
    rfl

end Stores

namespace StoresNothing

theorem refl (w : World) : StoresNothing w w := fun _ => .refl w

theorem trans (h : StoresNothing u v) (h' : StoresNothing v w) : StoresNothing u w := fun id => (h' id).before h

theorem enter (w : World) {e : Entry} (he : e.isStored = false) : StoresNothing w (w.enter e) := by
  refine fun _ => ⟨fun _ _ => rfl, [e], rfl, fun s f hf => ?_⟩
  rw [← List.mem_singleton.1 hf] at he
  cases he

theorem modify (w : World) (id : NodeId) {f : Node → Node} (hid : ∀ n, (f n).id = n.id)
    (hf : ∀ n, (f n).field? = n.field?) : StoresNothing w (w.modify id f) :=
  fun _ => ⟨fun s _ => fieldAt_modify w id hid hf s, [], rfl, by simp⟩

theorem foldl {α : Type} {act : World → α → World} (hact : ∀ w a, StoresNothing w (act w a)) (w : World)
    (l : List α) : StoresNothing w (l.foldl act w) := by
  induction l generalizing w with
  | nil => exact refl w
  | cons a rest ih => exact (hact w a).trans (ih (act w a))

end StoresNothing

/-! ### Reactions -/

theorem stores_assign (w : World) (id : NodeId) (name : String) (value : Field) (after : Aftermath) :
    Stores id (· = name) w (w.assign id name value after).2.2 := by
  obtain heq | ⟨n, old, hn, hold, -, heq⟩ := assign_cases w id name value after <;> rw [heq]
  · exact .refl w
  · exact .store hn hold _

theorem emitted_assign (w : World) (id : NodeId) (name : String) (value : Field) (after : Aftermath) :
    (w.assign id name value after).2.1.emitted = after.emitted := by
  obtain heq | ⟨n, old, -, -, -, heq⟩ := assign_cases w id name value after <;> rw [heq]
  rfl

theorem stores_emit (w : World) (id : NodeId) (name : String) (value : Field) (after : Aftermath) :
    Stores id (· = name) w (w.emit id name value after).2.2 := by
  rw [emit_world]
  exact stores_assign w id name value after

/-- An output that takes a value is sent out, after the ones before it. -/
theorem emitted_emit {after : Aftermath} (h : (w.emit id name value after).1 = true) :
    (w.emit id name value after).2.1.emitted = (after.emit name).emitted := by
  have hassign : (w.assign id name value after).2.1.emitted = after.emitted := emitted_assign w id name value after
  unfold emit at h ⊢
  generalize w.assign id name value after = r at hassign h ⊢
  obtain ⟨taken, rest, v⟩ := r
  cases taken with
  | true =>
    change (rest.emit name).emitted = (after.emit name).emitted
    simp only [Aftermath.emit, show rest.emitted = after.emitted from hassign]
    split
    · exact hassign
    · rfl
  | false => cases h

theorem stores_emitBoth (w : World) (id : NodeId) {a b : String × Field} (hne : a.1 ≠ b.1) :
    Stores id (fun f => f = a.1 ∨ f = b.1) w (w.emitBoth id a b).2.2 := by
  have h := stores_emit w id a.1 a.2 {}
  unfold emitBoth
  split
  · rename_i rest v heq
    rw [heq] at h
    exact h.trans (stores_emit v id b.1 b.2 rest) fun f hf hf' => hne (hf.symm.trans hf')
  · exact h.mono fun f hf => .inl hf

theorem emitted_emitBoth {a b : String × Field} (hne : a.1 ≠ b.1) (h : (w.emitBoth id a b).1 = true) :
    (w.emitBoth id a b).2.1.emitted = [a.1, b.1] := by
  have hfirst : (w.emit id a.1 a.2 {}).1 = true →
      (w.emit id a.1 a.2 {}).2.1.emitted = [a.1] := emitted_emit
  unfold emitBoth at h ⊢
  generalize w.emit id a.1 a.2 {} = r at h hfirst ⊢
  obtain ⟨taken, rest, v⟩ := r
  cases taken with
  | true =>
    have hrest : rest.emitted = [a.1] := hfirst rfl
    have hsecond := emitted_emit h
    have hnew : rest.emitted.contains b.1 = false := by simpa [hrest] using hne.symm
    rw [Aftermath.emit, hnew, hrest] at hsecond
    exact hsecond
  | false => cases h

/-- A filter stores into the two outputs that it sends out. -/
theorem stores_filterInput (w : World) (id : NodeId) (value : Field)
    (h : (w.filterInput id "set_boolean" value).1 = true) :
    Stores id (· ∈ (w.filterInput id "set_boolean" value).2.1.emitted) w
        (w.filterInput id "set_boolean" value).2.2 ∧
      "set_boolean" ∉ (w.filterInput id "set_boolean" value).2.1.emitted := by
  unfold filterInput at h ⊢
  rw [if_neg (not_not.2 rfl)] at h ⊢
  cases hb : value.single? .boolean with
  | none =>
    rw [hb] at h
    cases h
  | some b =>
    rw [hb] at h
    dsimp only at h ⊢
    have hne : (if b then "inputTrue" else "inputFalse") ≠ "inputNegate" := by
      cases b <;> decide
    rw [emitted_emitBoth hne h]
    refine ⟨(stores_emitBoth w id hne).mono fun f hf => by simpa using hf, ?_⟩
    cases b <;> simp

theorem storesNothing_accept (w : World) (id : NodeId) (proposed : List NodeId) :
    StoresNothing w (w.accept id proposed).2.2 := by
  refine .foldl (fun w c => ?_) w _
  obtain heq | ⟨text, heq⟩ := logRejected_cases w id c <;> rw [heq]
  · exact .refl w
  · exact .enter w rfl

theorem storesNothing_detach (w : World) (p c : NodeId) : StoresNothing w (w.detach p c) := by
  obtain heq | ⟨a, b, heq⟩ := detach_cases w p c <;> rw [heq]
  · exact .refl w
  · exact .enter w rfl

theorem storesNothing_unlink (w : World) (p c : NodeId) : StoresNothing w (w.unlink p c) := by
  have h : StoresNothing w (w.removeParent c p) := .modify w c (fun _ => rfl) fun _ => rfl
  exact h.trans (storesNothing_detach _ p c)

theorem storesNothing_attach (w : World) (p c : NodeId) : StoresNothing w (w.attach p c) := by
  obtain heq | ⟨a, b, heq⟩ := attach_cases w p c <;> rw [heq]
  · exact .refl w
  · exact .enter w rfl

theorem storesNothing_link (w : World) (p c : NodeId) : StoresNothing w (w.link p c) := by
  have h : StoresNothing w (w.addParent c p) := .modify w c (fun _ => rfl) fun _ => rfl
  exact h.trans (storesNothing_attach _ p c)

theorem stores_replaceChildren (w : World) (id : NodeId) (old new : List NodeId) (time : Timestamp)
    (after : Aftermath) :
    Stores id (· = childrenField) w (w.replaceChildren id old new time after).2 := by
  have hstore : ∀ v : World, Stores id (· = childrenField) v (v.storeChildren id old new time after).2 := by
    intro v
    obtain heq | ⟨n, f, hn, hfield, -, heq⟩ := storeChildren_cases v id old new time after <;> rw [heq]
    · exact .refl v
    · exact .store hn hfield _
  have hlink : StoresNothing w (new.foldl (link · id ·) (old.foldl (unlink · id ·) w)) :=
    (StoresNothing.foldl (fun w c => storesNothing_unlink w id c) w old).trans
      (StoresNothing.foldl (fun w c => storesNothing_link w id c) _ new)
  unfold replaceChildren
  dsimp only
  split
  · exact (hstore _).before hlink
  · exact hstore w

/-- Whichever field changes them, children are stored as a list, and none of it is left to be sent out. -/
theorem stores_changeChildren (w : World) (id : NodeId) (name : String) (value : Field) :
    Stores id (· = childrenField) w (w.changeChildren id name value).2.2 ∧
      (w.changeChildren id name value).2.1.emitted = [] := by
  have hreplace : ∀ v (old new : List NodeId) (released : List NodeId), StoresNothing w v →
      Stores id (· = childrenField) w
          (v.replaceChildren id old new value.timestamp { released }).2 ∧
        (v.replaceChildren id old new value.timestamp { released }).1.emitted = [] := by
    intro v old new released hv
    refine ⟨(stores_replaceChildren v id old new _ _).before hv, ?_⟩
    rw [replaceChildren, storeChildren_fst]
    rfl
  unfold changeChildren
  split
  · exact ⟨.refl w, rfl⟩
  dsimp only
  split
  · exact hreplace _ _ _ _ (storesNothing_accept w id _)
  split
  · exact hreplace _ _ _ _ (storesNothing_accept w id _)
  · exact hreplace _ _ _ _ (.refl w)

theorem storesNothing_noticeChange (w : World) (id : NodeId) (name : String) :
    StoresNothing w (w.noticeChange id name) := by
  obtain heq | ⟨value, heq⟩ := noticeChange_cases w id name <;> rw [heq]
  · exact .refl w
  · exact .enter w rfl

/-- A filter takes values at its input only. -/
theorem Sound.filter_input (hs : Sound types w) (helem : types.Elementary) (hn : n ∈ w.nodes)
    (hb : n.behavior = .filter) (hset : (n.access? name).any (·.set) = true) : name = "set_boolean" := by
  obtain ⟨t, ht, hspec, hbehavior⟩ := hs.typed n hn
  rw [hb] at hbehavior
  have hbuiltin : t ∈ Catalog.withScenes := by
    rcases helem t ht with ht | ht | ht | ht
    · exact ht
    all_goals rw [ht] at hbehavior; cases hbehavior
  have hown : n.dynamic = [] := by
    by_contra hd
    have hdynamic := hs.own n hn hd
    rw [Node.capabilities, hb] at hdynamic
    cases hdynamic
  unfold Node.access? at hset
  cases hentry : n.spec.entry? name with
  | some e =>
    rw [hentry] at hset
    have hname : e.name = name := by simpa using List.find?_some hentry
    rw [← hname]
    refine Catalog.input_of_filter t hbuiltin hbehavior.symm e ?_ hset
    rw [← hspec]
    exact List.mem_of_find?_eq_some hentry
  | none =>
    rw [hentry, Node.dynamicField?, hown] at hset
    cases hset

/-- A change of the list of children that another field of the node asks for. -/
def IsAside (name field : String) : Prop :=
  field = childrenField ∧ (name = addChildrenField ∨ name = removeChildrenField)

/-- What a behaviour stores: into the field that was set or into outputs that are sent out, unless the
children of a group are added or removed. Only a filter has outputs, and its input is none of them. -/
theorem stores_changeField (hs : Sound types w) (helem : types.Elementary) (hn : w.node? n.id = some n)
    (hset : (n.access? name).any (·.set) = true) (h : (w.changeField n name value).1 = true) :
    Stores n.id (fun f => f = name ∨ f ∈ (w.changeField n name value).2.1.emitted ∨ IsAside name f) w
        (w.changeField n name value).2.2 ∧
      ((w.changeField n name value).2.1.emitted ≠ [] → n.behavior = .filter) ∧
      name ∉ (w.changeField n name value).2.1.emitted := by
  have hmem := mem_nodes_of_node? hn
  have hassign := stores_assign w n.id name value {}
  have hemitted := emitted_assign w n.id name value {}
  unfold changeField at h ⊢
  split
  · split
    · rename_i hname
      obtain ⟨hstores, hnone⟩ := stores_changeChildren w n.id name value
      rw [hnone]
      refine ⟨hstores.mono fun f hf => ?_, fun hne => absurd rfl hne, by simp⟩
      rcases hname with rfl | hname | hname
      · exact .inl hf
      · exact .inr (.inr ⟨hf, .inl hname⟩)
      · exact .inr (.inr ⟨hf, .inr hname⟩)
    · rw [hemitted]
      exact ⟨hassign.mono fun f hf => .inl hf, fun hne => absurd rfl hne, by simp⟩
  · rename_i hb
    obtain rfl := hs.filter_input helem hmem hb hset
    rw [hb] at h
    obtain ⟨hstores, hinput⟩ := stores_filterInput w n.id value h
    exact ⟨hstores.mono fun f hf => .inr (.inl hf), fun _ => hb, hinput⟩
  · rename_i c hb
    exact absurd hb (hs.not_recorder helem hmem c)
  · rw [hemitted]
    exact ⟨hassign.mono fun f hf => .inl hf, fun hne => absurd rfl hne, by simp⟩

/-- **What a node stores that takes a value**: the field that was set, outputs that it sends out, or a list of
children that is changed through another field. -/
theorem stores_receive (hs : Sound types w) (helem : types.Elementary) (hn : w.node? n.id = some n)
    (hok : (w.receive n name value).1 = .ok ()) :
    (n.access? name).any (·.set) = true ∧
      Stores n.id (fun f => f = name ∨ f ∈ (w.receive n name value).2.1.emitted ∨ IsAside name f) w
        (w.receive n name value).2.2 ∧
      ((w.receive n name value).2.1.emitted ≠ [] → n.behavior = .filter) ∧
      name ∉ (w.receive n name value).2.1.emitted := by
  have hassign := stores_assign w n.id name value {}
  have hemitted := emitted_assign w n.id name value {}
  have hchange : (n.access? name).any (·.set) = true → (w.changeField n name value).1 = true → _ :=
    stores_changeField hs helem hn
  unfold receive at hok ⊢
  cases haccess : n.access? name with
  | none =>
    rw [haccess] at hok
    cases hok
  | some access =>
    rw [haccess] at hok hchange
    dsimp only at hok ⊢
    by_cases hset : access.set = true
    · refine ⟨hset, ?_⟩
      rw [hset, if_neg (by decide)] at hok ⊢
      split
      · rename_i hexplicit
        rw [if_pos hexplicit] at hok
        -- the behaviour takes the value
        have htaken := hchange hset
        generalize w.changeField n name value = r at hok htaken ⊢
        obtain ⟨taken, after, v⟩ := r
        cases taken with
        | true => exact htaken rfl
        | false => cases hok
      · rename_i hexplicit
        rw [if_neg hexplicit] at hok
        split at hok
        · cases hok
        · split at hok
          · cases hok
          -- the field takes the value as it is
          · rename_i hkind
            rw [if_neg hkind]
            dsimp only
            rw [hemitted]
            refine ⟨?_, fun hne => absurd rfl hne, by simp⟩
            have hstored : Stores n.id (fun f => f = name ∨ f ∈ ([] : List String) ∨ IsAside name f) w
                (w.assign n.id name value {}).2.2 := hassign.mono fun f hf => .inl hf
            split
            · exact hstored.after (storesNothing_noticeChange _ _ _)
            · exact hstored
    · rw [if_pos (by simpa using hset)] at hok
      cases hok

/-! ### Letting go -/

theorem storesNothing_takeLeave (w : World) (n : Node) : StoresNothing w (w.takeLeave n) := by
  obtain heq | heq | heq := takeLeave_cases w n <;> rw [heq]
  · exact .refl w
  · exact .enter w rfl
  · exact .foldl (fun w c => storesNothing_unlink w n.id c) w _

/-- Nothing is stored, and the nodes that are left hold what they held. -/
structure Preserves (w w' : World) : Prop where
  fields : ∀ s : Slot, w'.isLive s.1 = true → w.isLive s.1 = true ∧ w'.fieldAt s = w.fieldAt s
  journal : ∃ news, w'.journal = news ++ w.journal ∧ ∀ e ∈ news, e.isStored = false

namespace Preserves

theorem refl (w : World) : Preserves w w := ⟨fun _ hs => ⟨hs, rfl⟩, [], rfl, by simp⟩

theorem trans (h : Preserves u v) (h' : Preserves v w) : Preserves u w := by
  obtain ⟨hfields, news, hnews, hquiet⟩ := h
  obtain ⟨hfields', more, hmore, hquiet'⟩ := h'
  refine ⟨fun s hs => ?_, more ++ news, by rw [hmore, hnews, List.append_assoc], fun e he => ?_⟩
  · obtain ⟨hv, hfield'⟩ := hfields' s hs
    obtain ⟨hu, hfield⟩ := hfields s hv
    exact ⟨hu, hfield'.trans hfield⟩
  · exact (List.mem_append.1 he).elim (hquiet' e) (hquiet e)

theorem enter (w : World) {e : Entry} (he : e.isStored = false) : Preserves w (w.enter e) :=
  ⟨fun _ hs => ⟨hs, rfl⟩, [e], rfl, by simpa using he⟩

theorem of_storesNothing (h : StoresNothing w w') (hlive : w'.liveIds = w.liveIds) : Preserves w w' := by
  obtain ⟨hfields, news, hnews, hstored⟩ := h .nil
  refine ⟨fun s hs => ⟨by rwa [isLive_congr hlive] at hs, hfields s fun _ hf => hf⟩, news, hnews, fun e he => ?_⟩
  unfold Entry.isStored
  split
  · rename_i id name value
    exact (hstored (id, name) value he).2.1.elim
  · rfl

end Preserves

theorem preserves_destroy (w : World) (n : Node) : Preserves w (w.destroy n) := by
  have hleave : Preserves w (w.takeLeave n) :=
    .of_storesNothing (storesNothing_takeLeave w n) (reparents_takeLeave w n).liveIds
  have hreport : ∀ v : World, Preserves v (v.reportParents n.id) := by
    intro v
    obtain heq | ⟨text, heq⟩ := reportParents_cases v n.id <;> rw [heq]
    · exact .refl v
    · exact .enter v rfl
  have hremove : ∀ v : World, Preserves v (v.remove n) := by
    refine fun v => ⟨fun s hs => ?_, [.step (.destroyed n.id)], rfl, by simp [Entry.isStored]⟩
    obtain ⟨m, hm⟩ := isLive_iff.1 hs
    have hleft := node?_remove v n s.1
    by_cases hid : s.1 = n.id
    · rw [if_pos hid, hm] at hleft
      cases hleft
    · rw [if_neg hid] at hleft
      exact ⟨isLive_of_node? (hleft ▸ hm), by rw [fieldAt, hleft, fieldAt]⟩
  exact (hleave.trans (hreport _)).trans (hremove _)

/-- Letting go of nodes stores nothing. -/
theorem preserves_release (ids : List NodeId) (w : World) : Preserves w (release ids w) :=
  release_induction (I := Preserves w) (fun v n _ _ h => h.trans (preserves_destroy v n)) ids (.refl w)

end World

end SceneGraph
