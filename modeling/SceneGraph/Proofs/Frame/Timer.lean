import SceneGraph.Proofs.Frame.FanOut
import Mathlib.Data.List.Chain

/-!
# The signals of a timer

A timer keeps nothing in mind but its own output `isActive`. What it does is read off the journal: the frames that
reach it and the values that its outputs take (`World.signals`). However frames, changes of its settings and cascades
follow each other, the signals are in order (`Signal.InOrder`): the timer turns itself on and off by turns, tells of
progress only while it is on, and ends its progress before it turns itself off.

* `Signal.InOrder.frame`, `progress`, `switch`: what may come next.
* `passesBy_unfolds`: what unfolds without the timer neither sends a signal nor changes what the timer is.
* `Gave.emitOutput`, `Gave.update`, `Gave.call`: one output, one frame, one call.
* `timer_signals_inOrder`: any calls.
* `isActive_update`: whether a timer is on after a frame.
-/

namespace SceneGraph

/-- The truth value of a field; false if it holds none. -/
def Field.flag (f : Field) : Bool :=
  match f.single? .boolean with
  | some (b : Bool) => b
  | none => false

/-- What the journal tells of a timer. -/
inductive Signal where
  /-- A frame reaches it. -/
  | frame
  /-- One of its outputs takes a value. -/
  | output (name : String) (value : Field)

theorem Field.flag_single (b : Bool) (time : Timestamp) : (Field.single .boolean b time).flag = b := rfl

namespace Signal

/-- The outputs of a timer. -/
def outputs : List String := ["isActive", "fraction_changed", "time"]

/-- What the signal tells of the timer's activity. -/
def activity? : Signal → Option Bool
  | .output name value => if name = "isActive" then some value.flag else none
  | .frame => none

/-- The values of `isActive`. -/
def activities (s : List Signal) : List Bool := s.filterMap activity?

/-- The value of `isActive` after some signals. -/
def active (initial : Bool) (s : List Signal) : Bool := (activities s).getLastD initial

/-- Signals in an order in which a timer may give them that was active, or not, before. -/
structure InOrder (initial : Bool) (s : List Signal) : Prop where
  /-- The values of `isActive` alternate, beginning with the opposite of the one before. -/
  alternates : (initial :: activities s).IsChain (· ≠ ·)
  /-- The other outputs take values only while `isActive` is true. -/
  whileActive : ∀ before name value after, s = before ++ .output name value :: after → name ≠ "isActive" →
    active initial before = true
  /-- Right before `isActive` turns false, and in the same frame, the fraction is 1. -/
  closes : ∀ before value after, s = before ++ .output "isActive" value :: after → value.flag = false →
    ∃ earlier, before = earlier ++ [.output "fraction_changed" (.single .float (1 : Float32) value.timestamp)]

variable {initial : Bool} {s : List Signal} {x : Signal} {name : String} {value : Field}

theorem activities_concat (s : List Signal) (x : Signal) :
    activities (s ++ [x]) = activities s ++ x.activity?.toList := by
  rw [activities, List.filterMap_append, activities]
  cases hx : x.activity? <;> simp [hx]

theorem active_concat (initial : Bool) (s : List Signal) (x : Signal) :
    active initial (s ++ [x]) = x.activity?.getD (active initial s) := by
  rw [active, activities_concat]
  cases x.activity? with
  | none => rw [Option.toList_none, List.append_nil]; rfl
  | some b => exact List.getLastD_concat

namespace InOrder

theorem nil (initial : Bool) : InOrder initial [] :=
  ⟨.singleton initial, fun _ _ _ _ h => by simp at h, fun _ _ _ h => by simp at h⟩

/-- What is asked of one more signal. -/
theorem concat (h : InOrder initial s) (hchange : ∀ b ∈ x.activity?, active initial s ≠ b)
    (hprogress : ∀ name value, x = .output name value → name ≠ "isActive" → active initial s = true)
    (hcloses : ∀ value, x = .output "isActive" value → value.flag = false →
      ∃ earlier, s = earlier ++ [.output "fraction_changed" (.single .float (1 : Float32) value.timestamp)]) :
    InOrder initial (s ++ [x]) where
  alternates := by
    rw [activities_concat, ← List.cons_append, List.isChain_append]
    refine ⟨h.alternates, ?_, fun a ha b hb => ?_⟩
    · cases x.activity? <;> simp
    · have ha' : active initial s = a := by
        rw [List.getLast?_cons, Option.mem_some_iff] at ha
        rw [active, List.getLastD_eq_getLast?, ha]
      have hb' : b ∈ x.activity? := by
        cases hx : x.activity? <;> simp [hx] at hb ⊢
        exact hb
      exact ha' ▸ hchange b hb'
  whileActive before name value after heq hname := by
    obtain ⟨rfl, hx, -⟩ | ⟨rest, -, hs⟩ := concat_eq_append_cons heq
    · exact hprogress name value hx hname
    · exact h.whileActive before name value rest hs hname
  closes before value after heq hflag := by
    obtain ⟨rfl, hx, -⟩ | ⟨rest, -, hs⟩ := concat_eq_append_cons heq
    · exact hcloses value hx hflag
    · exact h.closes before value rest hs hflag

theorem frame (h : InOrder initial s) : InOrder initial (s ++ [.frame]) :=
  h.concat (fun _ hb => nomatch hb) (fun _ _ hx => nomatch hx) fun _ hx => nomatch hx

/-- A timer that is on may tell of progress. -/
theorem progress (h : InOrder initial s) (hactive : active initial s = true) (hname : name ≠ "isActive")
    (value : Field) : InOrder initial (s ++ [.output name value]) := by
  refine h.concat (fun b hb => ?_) (fun _ _ _ _ => hactive) fun value hx => absurd (Signal.output.inj hx).1 hname
  rw [activity?, if_neg hname] at hb
  cases hb

/-- A timer may turn itself on when it is off, and off when it is on and its progress is ended. -/
theorem switch (h : InOrder initial s) (hflag : value.flag = !active initial s)
    (hcloses : value.flag = false →
      ∃ earlier, s = earlier ++ [.output "fraction_changed" (.single .float (1 : Float32) value.timestamp)]) :
    InOrder initial (s ++ [.output "isActive" value]) := by
  refine h.concat (fun b hb => ?_) (fun _ _ hx hname => absurd (Signal.output.inj hx).1.symm hname)
    fun value' hx => (Signal.output.inj hx).2 ▸ hcloses
  obtain rfl : value.flag = b := by simpa [activity?] using hb
  simp [hflag]

end InOrder

end Signal

/-- Whether a timer is on after a frame, if it was on, or not, before. -/
def TimerPhase.activity (active : Bool) : TimerPhase → Bool
  | before => active
  | running _ => true
  | finished => false

/-- The signal that an entry tells of, if it is one of the node's. -/
def Entry.signal? (id : NodeId) : Entry → Option Signal
  | .step (.updating i) => if i = id then some .frame else none
  | .step (.stored i name value) => if i = id ∧ name ∈ Signal.outputs then some (.output name value) else none
  | _ => none

/-! ### Timers -/

namespace Node

variable {m n : Node} {name : String} {f value : Field}

/-- A node of the type `TimeSensor`, whose fields are there and of their kinds. -/
structure IsTimer (n : Node) : Prop where
  behavior : n.behavior = .timer
  layout : (Catalog.standard.type? "TimeSensor").map NodeType.layout = some n.spec
  holds : ∀ name e, n.spec.entry? name = some e → ∃ f, n.field? name = some f ∧ f.kind = e.initial.kind

theorem flag_eq (hf : n.field? name = some f) (hkind : f.kind = ⟨.boolean, .single⟩) : n.flag name = f.flag := by
  unfold flag value fieldOfKind Field.flag
  rw [hf]
  dsimp only
  rw [if_pos hkind]
  dsimp only
  cases f.single? .boolean <;> rfl

namespace IsTimer

/-- The fields of a timer are of the kinds of its type. -/
theorem of_kinds (hbehavior : n.behavior = .timer)
    (hlayout : (Catalog.standard.type? "TimeSensor").map NodeType.layout = some n.spec)
    (hkinds : n.fields.map (·.kind) = n.spec.entries.map (·.initial.kind)) : n.IsTimer where
  behavior := hbehavior
  layout := hlayout
  holds name e he := by
    have hkind : n.kind? name = some e.initial.kind := by rw [kind?, he]
    exact Option.map_eq_some_iff.1 ((kind?_eq_map hkinds name).symm.trans hkind)

/-- The outputs of a timer, whose kinds are known, cannot be set from outside. -/
theorem output (h : n.IsTimer) (hname : name ∈ Signal.outputs) :
    n.access? name = some .getOnly ∧ (∃ i, n.spec.index? name = some i) ∧
      ∃ e, n.spec.entry? name = some e ∧ e.initial.kind =
        if name = "isActive" then ⟨.boolean, .single⟩
        else if name = "fraction_changed" then ⟨.float, .single⟩ else ⟨.time, .single⟩ := by
  unfold access?
  rw [← Option.some.inj h.layout]
  simp only [Signal.outputs, List.mem_cons, List.not_mem_nil, or_false] at hname
  obtain rfl | rfl | rfl := hname <;> exact ⟨rfl, ⟨_, rfl⟩, _, rfl, rfl⟩

/-- No field of a timer holds references. -/
theorem kind_ne_node (h : n.IsTimer) {e : FieldSpec} (he : n.spec.entry? name = some e) :
    e.initial.kind.type ≠ .node := by
  have hall : ∀ e ∈ n.spec.entries, e.initial.kind.type ≠ .node := by
    rw [← Option.some.inj h.layout]
    simp [NodeType.layout, Field.single]
  exact hall e (List.mem_of_find?_eq_some he)

theorem not_takes (h : n.IsTimer) (hname : name ∈ Signal.outputs) : ¬n.Takes name := by
  unfold Takes
  rw [h.behavior, (h.output hname).1]
  simp [Behavior.reacts, Access.getOnly]

/-- A timer keeps its values when something else about it changes. -/
theorem field?_of_succeeds (h : n.IsTimer) (hm : m.Succeeds n) {e : FieldSpec} (he : n.spec.entry? name = some e) :
    m.field? name = n.field? name := by
  obtain ⟨f, hf, hkind⟩ := h.holds name e he
  have hspec : m.spec = n.spec := congrArg Identity.spec hm.identity
  cases hi : n.spec.index? name with
  | none => rw [Specification.entry?_eq_none_iff.2 hi] at he; cases he
  | some i =>
    obtain ⟨hlt, -, -⟩ := Specification.entry?_of_index? hi
    rw [field?, hi] at hf
    rw [field?, hspec, hi, field?, hi]
    exact (hm.fields i f hlt hf (hkind ▸ h.kind_ne_node he)).trans hf.symm

/-- `isActive` holds a truth value. -/
theorem isActive (h : n.IsTimer) : ∃ f, n.field? "isActive" = some f ∧ f.kind = ⟨.boolean, .single⟩ := by
  obtain ⟨-, -, e, he, hkind⟩ := h.output (List.mem_cons_self ..)
  obtain ⟨f, hf, hfkind⟩ := h.holds _ e he
  exact ⟨f, hf, hfkind.trans hkind⟩

theorem flag_of_field? (h : n.IsTimer) (hm : m.field? "isActive" = n.field? "isActive") :
    m.flag "isActive" = n.flag "isActive" := by
  obtain ⟨f, hf, hkind⟩ := h.isActive
  rw [flag_eq hf hkind, flag_eq (hm.trans hf) hkind]

/-- An output that took a value tells what the signals tell. -/
theorem flag_store (h : n.IsTimer) {initial : Bool} {s : List Signal}
    (hflag : n.flag "isActive" = Signal.active initial s) {old : Field} (hold : n.field? name = some old) (hkind : old.kind = value.kind) :
    (n.store name value).flag "isActive" = Signal.active initial (s ++ [.output name value]) := by
  obtain ⟨f, hf, hfkind⟩ := h.isActive
  rw [Signal.active_concat]
  by_cases hname : name = "isActive"
  · subst hname
    have hstored : (n.store "isActive" value).field? "isActive" = some value := by
      rw [field?_store, if_pos rfl, hold]
      rfl
    obtain rfl := Option.some.inj (hf.symm.trans hold)
    exact flag_eq hstored (hkind.symm.trans hfkind)
  · have hother : (n.store name value).field? "isActive" = n.field? "isActive" := by
      rw [field?_store, if_neg (Ne.symm hname)]
    rw [h.flag_of_field? hother, hflag, Signal.activity?, if_neg hname]
    rfl

theorem of_succeeds (h : n.IsTimer) (hm : m.Succeeds n) : m.IsTimer where
  behavior := (congrArg Identity.behavior hm.identity).trans h.behavior
  layout := h.layout.trans (congrArg (some ·.spec) hm.identity).symm
  holds name e he := by
    rw [show m.spec = n.spec from congrArg Identity.spec hm.identity] at he
    rw [h.field?_of_succeeds hm he]
    exact h.holds name e he

theorem store (h : n.IsTimer) {old : Field} (hold : n.field? name = some old) (hkind : old.kind = value.kind) :
    (n.store name value).IsTimer where
  behavior := (n.store_behavior name value).trans h.behavior
  layout := (n.store_spec name value).symm ▸ h.layout
  holds other e he := by
    rw [store_spec] at he
    obtain ⟨f, hf, hfkind⟩ := h.holds other e he
    rw [field?_store]
    split
    · rename_i heq
      subst heq
      obtain rfl := Option.some.inj (hf.symm.trans hold)
      exact ⟨value, by rw [hold]; rfl, hkind.symm.trans hfkind⟩
    · exact ⟨f, hf, hfkind⟩

end IsTimer

end Node

namespace World

variable {own : Slot → Prop} {u v w w' : World} {n m : Node} {id : NodeId} {name : String} {value : Field}
  {initial : Bool} {past s : List Signal}

/-- The signals of a node, the first one first. -/
def signals (w : World) (id : NodeId) : List Signal := w.journal.reverse.filterMap (Entry.signal? id)

theorem signals_enter (w : World) (e : Entry) (id : NodeId) :
    (w.enter e).signals id = w.signals id ++ (e.signal? id).toList := by
  change (e :: w.journal).reverse.filterMap (Entry.signal? id) = _
  rw [List.reverse_cons, List.filterMap_append, signals]
  cases he : e.signal? id <;> simp [he]

/-! ### What passes a timer by -/

/-- A timer sends no signal, and keeps its activity if it stays. -/
def PassesBy (id : NodeId) (w w' : World) : Prop :=
  (∀ n, w.node? id = some n → n.IsTimer) →
    w'.signals id = w.signals id ∧ ∀ m, w'.node? id = some m → m.IsTimer ∧
      ∃ n, w.node? id = some n ∧ m.flag "isActive" = n.flag "isActive"

namespace PassesBy

theorem trans (h : PassesBy id u v) (h' : PassesBy id v w) : PassesBy id u w := by
  intro htimer
  obtain ⟨hsignals, hv⟩ := h htimer
  obtain ⟨hsignals', hw⟩ := h' fun n hn => (hv n hn).1
  refine ⟨hsignals'.trans hsignals, fun m hm => ?_⟩
  obtain ⟨hm', k, hk, hflag'⟩ := hw m hm
  obtain ⟨-, n, hn, hflag⟩ := hv k hk
  exact ⟨hm', n, hn, hflag'.trans hflag⟩

/-- The node stays as it is. -/
theorem of_node? (hnode : w'.node? id = w.node? id) (hsignals : w'.signals id = w.signals id) : PassesBy id w w' :=
  fun htimer => ⟨hsignals, fun m hm => ⟨htimer m (hnode ▸ hm), m, hnode ▸ hm, rfl⟩⟩

theorem refl (w : World) : PassesBy id w w := .of_node? rfl rfl

theorem enter (w : World) {e : Entry} (he : e.signal? id = none) : PassesBy id w (w.enter e) := by
  refine .of_node? rfl ?_
  rw [signals_enter, he]
  exact List.append_nil _

/-- A node changes into one that succeeds it. -/
theorem modify (w : World) (a : NodeId) {f : Node → Node} (hf : ∀ n, (f n).Succeeds n) :
    PassesBy id w (w.modify a f) := by
  refine fun htimer => ⟨rfl, fun m hm => ?_⟩
  rw [node?_modify w a id fun n => congrArg Identity.id (hf n).identity] at hm
  obtain ⟨n, hn, rfl⟩ := Option.map_eq_some_iff.1 hm
  have hn' := htimer n hn
  split
  · obtain ⟨-, -, e, he, -⟩ := hn'.output (List.mem_cons_self ..)
    exact ⟨hn'.of_succeeds (hf n), n, hn, hn'.flag_of_field? (hn'.field?_of_succeeds (hf n) he)⟩
  · exact ⟨hn', n, hn, rfl⟩

end PassesBy

/-- A field of the timer that is no output takes a value, or a field of another node does. -/
theorem passesBy_store {old : Field} (hn : w.node? n.id = some n) (hold : n.field? name = some old)
    (hkind : old.kind = value.kind) (hname : n.id = id → name ∉ Signal.outputs) :
    PassesBy id w ((w.modify n.id (·.store name value)).step (.stored n.id name value)) := by
  intro htimer
  refine ⟨?_, fun m hm => ?_⟩
  · have hnone : (Entry.step (.stored n.id name value)).signal? id = none := if_neg fun h => hname h.1 h.2
    refine (signals_enter _ _ id).trans ?_
    rw [hnone]
    exact List.append_nil _
  change (w.modify n.id (·.store name value)).node? id = some m at hm
  rw [node?_modify w n.id id fun k => k.store_id name value] at hm
  obtain ⟨k, hk, rfl⟩ := Option.map_eq_some_iff.1 hm
  split
  · rename_i hid
    obtain rfl : n = k := Option.some.inj (hn.symm.trans (hid ▸ id_of_node? hk ▸ hk))
    have hother : "isActive" ≠ name := fun heq => hname (id_of_node? hk) (heq ▸ List.mem_cons_self ..)
    have hfield : (n.store name value).field? "isActive" = n.field? "isActive" := by
      rw [Node.field?_store, if_neg hother]
    exact ⟨(htimer n hk).store hold hkind, n, hk, (htimer n hk).flag_of_field? hfield⟩
  · exact ⟨htimer k hk, k, hk, rfl⟩

theorem passesBy_destroy (w : World) (n : Node) : PassesBy id w (w.destroy n) := by
  intro htimer
  have hsignals : Writes (Entry.signal? id · = none) w (w.destroy n) := by
    refine (writes_destroy w n).mono fun e he => ?_
    obtain he | rfl := he
    · unfold Entry.isNote at he
      split at he <;> first | rfl | cases he
    · rfl
  refine ⟨hsignals.filterMap_journal, fun m hm => ?_⟩
  rw [node?_destroy] at hm
  split at hm
  · cases hm
  · obtain ⟨k, hk, rfl⟩ := Option.map_eq_some_iff.1 hm
    have hk' := htimer k hk
    exact ⟨hk'.of_succeeds (.of_fields rfl rfl), k, hk, rfl⟩

/-- **What unfolds passes a timer by**, unless the timer stores something of its own accord: its outputs cannot be set
from outside. -/
theorem passesBy_unfolds (h : Unfolds own w w') (hown : ∀ s, own s → s.1 ≠ id) : PassesBy id w w' := by
  induction h with
  | refl w => exact .refl w
  | trans _ _ ih ih' => exact ih.trans ih'
  | @enter w e he =>
    refine .enter w ?_
    unfold Entry.isNote at he
    split at he <;> first | rfl | cases he
  | modify w a hf => exact .modify w a hf
  | @store w n name old value hn hold hkind hname =>
    intro htimer
    refine passesBy_store hn hold hkind (fun hid hout => ?_) htimer
    have hn' : n.IsTimer := htimer n (hid ▸ hn)
    exact hname.elim (hn'.not_takes hout) fun hs => hown _ hs hid
  | destroy _ _ => exact passesBy_destroy _ _
  | holding ids _ ih => exact ih
  | @entered u v w a name hin _ ih =>
    obtain ⟨-, rfl⟩ := enterCascade_eq_some hin
    have hentered : PassesBy id u ({ u with cascade := (a, name) :: u.cascade }.step (.entered a name)) :=
      .of_node? rfl ((signals_enter { u with cascade := (a, name) :: u.cascade } _ id).trans (List.append_nil _))
    have hleft : PassesBy id w w.leaveCascade :=
      .of_node? rfl ((signals_enter { w with cascade := w.cascade.tail } _ id).trans (List.append_nil _))
    exact (hentered.trans ih).trans hleft

/-! ### Outputs of a timer -/

/-- Since its `past` a timer gave some signals, in order, and is as they left it, between two calls. -/
structure Gave (id : NodeId) (initial : Bool) (past s : List Signal) (w : World) : Prop where
  signals : w.signals id = past ++ s
  inOrder : Signal.InOrder initial s
  timer : ∀ n, w.node? id = some n → n.IsTimer ∧ n.flag "isActive" = Signal.active initial s
  idle : w.cascade = []
  /-- No other node comes to its id. -/
  issued : id.value ≤ w.registry.lastId

namespace Gave

theorem passesBy (h : Gave id initial past s w) (hpass : PassesBy id w w') (hcascade : w'.cascade = w.cascade)
    (hlast : w.registry.lastId ≤ w'.registry.lastId) : Gave id initial past s w' := by
  obtain ⟨hsignals, hnode⟩ := hpass fun n hn => (h.timer n hn).1
  refine ⟨hsignals.trans h.signals, h.inOrder, fun m hm => ?_, hcascade.trans h.idle, h.issued.trans hlast⟩
  obtain ⟨hm', n, hn, hflag⟩ := hnode m hm
  exact ⟨hm', hflag.trans (h.timer n hn).2⟩

/-- **An output that takes a value is one more signal**, whatever becomes of the cascade that it starts. -/
theorem emitOutput (h : Gave id initial past s w) (hn : w.node? id = some n) (hid : m.id = id)
    (hname : name ∈ Signal.outputs) (hkind : value.kind =
      if name = "isActive" then ⟨.boolean, .single⟩
      else if name = "fraction_changed" then ⟨.float, .single⟩ else ⟨.time, .single⟩)
    (hnext : Signal.InOrder initial (s ++ [.output name value])) :
    Gave id initial past (s ++ [.output name value]) (w.emitOutput m name value) := by
  obtain rfl := id_of_node? hn
  obtain ⟨htimer, hflag⟩ := h.timer n hn
  obtain ⟨-, -, e, he, hekind⟩ := htimer.output hname
  obtain ⟨old, hold, holdkind⟩ := htimer.holds name e he
  have hsame : old.kind = value.kind := holdkind.trans (hekind.trans hkind.symm)
  obtain ⟨v, hv, hemit⟩ := emitField_of_kind hn (by simp [h.idle]) hold hsame
  have hresult : w.emitOutput m name value = v.leaveCascade := by rw [World.emitOutput, hid, hemit]
  -- the world right after the output took the value
  generalize ht : (({ w with cascade := (n.id, name) :: w.cascade }.step (.entered n.id name)).modify n.id
    (·.store name value)).step (.stored n.id name value) = t at hv
  have hnode : t.node? n.id = some (n.store name value) := by
    rw [← ht]
    refine (node?_modify_self _ n.id fun k => k.store_id name value).trans ?_
    exact congrArg (Option.map _) hn
  have hsignals : t.signals n.id = past ++ (s ++ [.output name value]) := by
    have hsignal : (Entry.step (.stored n.id name value)).signal? n.id = some (.output name value) :=
      if_pos ⟨rfl, hname⟩
    have hentered := signals_enter { w with cascade := (n.id, name) :: w.cascade } (.step (.entered n.id name)) n.id
    have hstored := signals_enter (({ w with cascade := (n.id, name) :: w.cascade }.step (.entered n.id name)).modify n.id
      (·.store name value)) (.step (.stored n.id name value)) n.id
    rw [hsignal] at hstored
    rw [← ht, ← List.append_assoc, ← h.signals]
    exact hstored.trans (congrArg (· ++ [Signal.output name value]) (hentered.trans (List.append_nil _)))
  have hstored : (n.store name value).IsTimer := htimer.store hold hsame
  obtain ⟨hlater, hstays⟩ := passesBy_unfolds hv (fun _ => False.elim) fun k hk =>
    Option.some.inj (hnode.symm.trans hk) ▸ hstored
  rw [hresult]
  refine { inOrder := hnext, signals := ?signals, timer := fun k hk => ?timer, idle := ?idle, issued := ?issued }
  case signals =>
    exact (signals_enter { v with cascade := v.cascade.tail } _ _).trans
      ((List.append_nil _).trans (hlater.trans hsignals))
  case timer =>
    obtain ⟨hk', k', hk'', hkflag⟩ := hstays k hk
    obtain rfl := Option.some.inj (hnode.symm.trans hk'')
    exact ⟨hk', hkflag.trans (htimer.flag_store hflag hold hsame)⟩
  case idle =>
    have hcascade : v.cascade = (n.id, name) :: w.cascade := by rw [hv.cascade, ← ht]; rfl
    exact (congrArg List.tail hcascade).trans h.idle
  case issued =>
    have hlast : v.registry.lastId = w.registry.lastId := by rw [hv.lastId, ← ht]; rfl
    exact h.issued.trans (Nat.le_of_eq hlast.symm)

theorem emitOutput_of_gone (hgone : w.node? m.id = none) (name : String) (value : Field) :
    w.emitOutput m name value = w := by
  rw [World.emitOutput, emitField, hgone]

/-- An output other than `isActive`, while the timer is on. The node may be gone by then. -/
theorem progress (h : Gave id initial past s w) (hactive : Signal.active initial s = true) (hid : m.id = id)
    (hname : name ∈ Signal.outputs) (hother : name ≠ "isActive")
    (hkind : value.kind = if name = "fraction_changed" then ⟨.float, .single⟩ else ⟨.time, .single⟩) :
    ∃ s', Gave id initial past s' (w.emitOutput m name value) ∧ Signal.active initial s' = true := by
  cases hn : w.node? id with
  | none =>
    rw [emitOutput_of_gone (hid ▸ hn)]
    exact ⟨s, h, hactive⟩
  | some n =>
    refine ⟨_, h.emitOutput hn hid hname ?_ (h.inOrder.progress hactive hother value), ?_⟩
    · rw [if_neg hother, hkind]
    · rw [Signal.active_concat, Signal.activity?, if_neg hother]
      exact hactive

/-- The timer is on, or turns itself on. -/
theorem turnOn (h : Gave n.id initial past s w) (hn : w.node? n.id = some n) (time : Timestamp) :
    ∃ s', Gave n.id initial past s'
      (if n.flag "isActive" then w else w.emitOutput n "isActive" (.single .boolean true time)) ∧
        Signal.active initial s' = true := by
  have hflag : n.flag "isActive" = Signal.active initial s := (h.timer n hn).2
  split
  · rename_i hon
    exact ⟨s, h, hflag ▸ hon⟩
  · rename_i hoff
    have hfalse : Signal.active initial s = false := hflag ▸ Bool.eq_false_iff.2 hoff
    refine ⟨_, h.emitOutput hn rfl (by decide) rfl (h.inOrder.switch ?_ nofun), ?_⟩
    · rw [hfalse, Field.flag_single]
      rfl
    · rw [Signal.active_concat]
      rfl

/-- A timer that runs is on when it tells of its progress, and stays on. -/
theorem run (h : Gave n.id initial past s w) (hn : w.node? n.id = some n) (fraction : Float32) (time : Timestamp) :
    ∃ s', Gave n.id initial past s'
      (((if n.flag "isActive" then w else w.emitOutput n "isActive" (.single .boolean true time)).emitOutput n
        "fraction_changed" (.single .float fraction time)).emitOutput n "time" (.single .time time.seconds time)) ∧
          Signal.active initial s' = true := by
  obtain ⟨s₁, h₁, hs₁⟩ := h.turnOn hn time
  generalize (if n.flag "isActive" then w else w.emitOutput n "isActive" (.single .boolean true time)) = w₁ at h₁ ⊢
  obtain ⟨s₂, h₂, hs₂⟩ : ∃ s', Gave n.id initial past s'
      (w₁.emitOutput n "fraction_changed" (.single .float fraction time)) ∧ Signal.active initial s' = true :=
    h₁.progress hs₁ rfl (by decide) (by decide) rfl
  generalize w₁.emitOutput n "fraction_changed" (.single .float fraction time) = w₂ at h₂ ⊢
  exact h₂.progress hs₂ rfl (by decide) (by decide) rfl

/-- A timer whose time is over ends its progress and turns itself off. It may be gone in between. -/
theorem finish (h : Gave n.id initial past s w) (hn : w.node? n.id = some n) (hactive : Signal.active initial s = true)
    (time : Timestamp) :
    ∃ s', Gave n.id initial past s'
      ((w.emitOutput n "fraction_changed" (.single .float (1 : Float32) time)).emitOutput n "isActive"
        (.single .boolean false time)) ∧
      (((w.emitOutput n "fraction_changed" (.single .float (1 : Float32) time)).emitOutput n "isActive"
        (.single .boolean false time)).isLive n.id = true → Signal.active initial s' = false) := by
  have h₁ : Gave n.id initial past (s ++ [.output "fraction_changed" (.single .float (1 : Float32) time)])
      (w.emitOutput n "fraction_changed" (.single .float (1 : Float32) time)) :=
    h.emitOutput hn rfl (by decide) rfl (h.inOrder.progress hactive (by decide) _)
  generalize w.emitOutput n "fraction_changed" (.single .float (1 : Float32) time) = w₁ at h₁ ⊢
  cases hn₁ : w₁.node? n.id with
  | none =>
    rw [emitOutput_of_gone hn₁]
    refine ⟨_, h₁, fun hlive => ?_⟩
    obtain ⟨k, hk⟩ := isLive_iff.1 hlive
    cases hn₁.symm.trans hk
  | some n₁ =>
    have hs₁ : Signal.active initial (s ++ [.output "fraction_changed" (.single .float (1 : Float32) time)]) = true := by
      rw [Signal.active_concat]
      exact hactive
    -- the end of its progress is the last signal, as it must be before the timer turns itself off
    refine ⟨_, h₁.emitOutput hn₁ rfl (by decide) rfl (h₁.inOrder.switch ?_ fun _ => ⟨s, rfl⟩), fun _ => ?_⟩
    · rw [hs₁, Field.flag_single]
      rfl
    · rw [Signal.active_concat]
      rfl

/-- **One frame**: while the timer runs it turns itself on before it tells of progress, and when its time is over it
ends its progress before it turns itself off. -/
theorem updateTimer (h : Gave n.id initial past s w) (hn : w.node? n.id = some n) (time : Timestamp) :
    ∃ s', Gave n.id initial past s' (w.updateTimer n time) ∧
      ∀ settings, n.flag "enabled" = true → timerSettings n = .ok settings →
        (w.updateTimer n time).isLive n.id = true →
          Signal.active initial s' = (settings.phase time.seconds).activity (Signal.active initial s) := by
  have hflag : n.flag "isActive" = Signal.active initial s := (h.timer n hn).2
  unfold World.updateTimer
  split
  · rename_i hdisabled
    exact ⟨s, h, fun _ henabled => absurd henabled (by simpa using hdisabled)⟩
  split
  · rename_i e he
    exact ⟨s, h.passesBy (.enter w rfl) rfl (Nat.le_refl _), fun settings _ hok => nomatch he.symm.trans hok⟩
  rename_i settings hsettings
  dsimp only
  have hphase : ∀ {p : TimerPhase} {s' : List Signal} {w' : World}, settings.phase time.seconds = p →
      (w'.isLive n.id = true → Signal.active initial s' = p.activity (Signal.active initial s)) →
      ∀ settings', n.flag "enabled" = true → timerSettings n = .ok settings' → w'.isLive n.id = true →
        Signal.active initial s' = (settings'.phase time.seconds).activity (Signal.active initial s) := by
    intro p s' w' hp hlive settings' _ hok hl
    obtain rfl := Except.ok.inj (hok.symm.trans hsettings)
    exact hp ▸ hlive hl
  split
  · rename_i hbefore
    exact ⟨s, h, hphase hbefore fun _ => rfl⟩
  · rename_i fraction hrunning
    obtain ⟨s', h', hs'⟩ := h.run hn fraction time
    exact ⟨s', h', hphase hrunning fun _ => hs'⟩
  · rename_i hfinished
    split
    · rename_i hon
      obtain ⟨s', h', hs'⟩ := h.finish hn (hflag ▸ hon) time
      exact ⟨s', h', hphase hfinished hs'⟩
    · rename_i hoff
      have hs : Signal.active initial s = false := hflag ▸ Bool.eq_false_iff.2 hoff
      exact ⟨s, h, hphase hfinished fun _ => hs⟩

/-- A frame reaches the timer. -/
theorem update (h : Gave id initial past s w) (hn : w.node? id = some n) (time : Timestamp) :
    ∃ s', Gave id initial past s' (w.update id time) ∧
      ∀ settings, n.flag "enabled" = true → timerSettings n = .ok settings → (w.update id time).isLive id = true →
        Signal.active initial s' = (settings.phase time.seconds).activity (Signal.active initial s) := by
  obtain rfl := id_of_node? hn
  have hframe : Gave n.id initial past (s ++ [.frame]) (w.step (.updating n.id)) := by
    refine ⟨?_, h.inOrder.frame, fun k hk => ?_, h.idle, h.issued⟩
    · rw [World.step, signals_enter, h.signals, Entry.signal?, if_pos rfl, List.append_assoc]
      rfl
    · rw [Signal.active_concat]
      exact h.timer k hk
  have hupdate : w.update n.id time = (w.step (.updating n.id)).updateTimer n time := by
    rw [World.update, hn]
    dsimp only
    rw [(h.timer n hn).1.behavior]
  obtain ⟨s', hs', hactive⟩ := hframe.updateTimer hn time
  rw [Signal.active_concat] at hactive
  rw [hupdate]
  exact ⟨s', hs', hactive⟩

end Gave

/-! ### Calls -/

/-- A call that lets a node take part in a frame. -/
def Call.IsFrame (id : NodeId) : Call → Prop
  | update a _ => a = id
  | _ => False

/-- A node that is made is another one. -/
theorem passesBy_create (hissued : id.value ≤ w.registry.lastId) (table : List Specification) (spec : Specification)
    (b : Behavior) (env : Environment) :
    PassesBy id w ({ w with specifications := table }.create spec b env).2 := by
  refine .of_node? ?_ ((signals_enter _ _ id).trans (List.append_nil _))
  have hnew : ({ w with specifications := table } : World).nextId.1 ≠ id := fun heq =>
    absurd (congrArg NodeId.value heq) (Nat.ne_of_gt (Nat.lt_succ_of_le hissued))
  rw [node?_create, if_neg hnew, Option.or_none]
  rfl

/-- A timer that gets another name goes on. -/
theorem passesBy_setName (w : World) (a : NodeId) (name : String) : PassesBy id w (w.setName a name) := by
  obtain ⟨heq, -⟩ | ⟨n, -, -, heq⟩ := setName_cases w a name <;> rw [heq]
  · exact .refl w
  · refine fun htimer => ⟨rfl, fun m hm => ?_⟩
    have hnamed := node?_modify w a id (f := fun n => { n with name }) fun _ => rfl
    obtain ⟨k, hk, rfl⟩ := Option.map_eq_some_iff.1 (hnamed.symm.trans hm)
    have hk' := htimer k hk
    refine ⟨?_, k, hk, ?_⟩
    · split
      · exact ⟨hk'.behavior, hk'.layout, hk'.holds⟩
      · exact hk'
    · split <;> rfl

theorem passesBy_turn (w : World) (a : NodeId) {st : Step} (hst : (Entry.step st).signal? id = none) :
    PassesBy id w (Call.turn w a st) := by
  unfold Call.turn
  split
  · exact .enter w hst
  · exact .refl w

/-- A call that is no frame of the timer is opened without it. -/
theorem passesBy_opened (hissued : id.value ≤ w.registry.lastId) {c : Call} (hc : ¬c.IsFrame id) :
    PassesBy id w (c.opened w) := by
  cases c with
  | create catalog typeName env =>
    change PassesBy id w ((Call.create catalog typeName env).run w)
    obtain heq | ⟨table, spec, b, heq⟩ := run_create w catalog typeName env <;> rw [heq]
    · exact .refl w
    · exact passesBy_create hissued table spec b env
  | createScene library filename renders time =>
    obtain ⟨table, spec, b, env, heq⟩ := createScene_eq w library filename renders time
    rw [Call.opened, Call.run, heq]
    exact passesBy_create hissued table spec b env
  | setName a name => exact passesBy_setName w a name
  | discard a => exact passesBy_setName w a ""
  | update a time => exact passesBy_turn w a (if_neg hc)
  | mouse | key => exact passesBy_turn w _ rfl
  | hold | drop => exact .of_node? rfl rfl
  | _ => exact .refl w

/-- The outputs of a node are left to its behaviour. -/
def Call.LeavesOutputs (id : NodeId) : Call → Prop
  | emitField a _ _ | initField a _ _ => a ≠ id
  | _ => True

namespace Gave

/-- **One call.** -/
theorem call (h : Gave id initial past s w) {c : Call} (hc : c.LeavesOutputs id) :
    ∃ s', Gave id initial past s' (c.run w) := by
  have hpass : ∀ c : Call, ¬c.IsFrame id → (∀ s, c.Owns s → s.1 ≠ id) →
      Gave id initial past s (c.run w) := by
    intro c hframe hown
    obtain ⟨hcascade, hlast⟩ := c.cascade_run w
    exact h.passesBy ((passesBy_opened h.issued hframe).trans (passesBy_unfolds (c.unfolds w) hown)) hcascade hlast
  cases c with
  | update a time =>
    by_cases ha : a = id
    · subst ha
      cases hn : w.node? a with
      | none =>
        rw [Call.run, World.update, hn]
        exact ⟨s, h⟩
      | some n =>
        obtain ⟨s', hs', -⟩ := h.update hn time
        exact ⟨s', hs'⟩
    · exact ⟨s, hpass _ ha fun _ hs => hs ▸ ha⟩
  | mouse a e now =>
    by_cases ha : a = id
    · subst ha
      rw [Call.run, mouseEvent]
      cases hn : w.node? a with
      | none => exact ⟨s, h⟩
      | some n =>
        dsimp only
        rw [(h.timer n hn).1.behavior]
        exact ⟨s, h.passesBy (.enter w rfl) rfl (Nat.le_refl _)⟩
    · exact ⟨s, hpass _ not_false fun _ hs => hs ▸ ha⟩
  | emitField a name value => exact ⟨s, hpass _ not_false fun _ hs => hs ▸ hc⟩
  | initField a name value => exact ⟨s, hpass _ not_false fun _ hs => hs ▸ hc⟩
  | _ => exact ⟨s, hpass _ not_false fun _ => False.elim⟩

/-- Any calls, one after the other. -/
theorem calls (h : Gave id initial past s w) {cs : List Call} (hcs : ∀ c ∈ cs, c.LeavesOutputs id) :
    ∃ s', Gave id initial past s' (cs.foldl (fun w c => c.run w) w) := by
  induction cs generalizing w s with
  | nil => exact ⟨s, h⟩
  | cons c rest ih =>
    obtain ⟨s', h'⟩ := h.call (hcs c List.mem_cons_self)
    exact ih h' fun c hc => hcs c (List.mem_cons_of_mem _ hc)

/-- Where a timer begins. -/
theorem start (hn : w.node? id = some n) (htimer : n.IsTimer) (hidle : w.cascade = [])
    (hissued : id.value ≤ w.registry.lastId) : Gave id (n.flag "isActive") (w.signals id) [] w :=
  ⟨(List.append_nil _).symm, .nil _, fun _ hm => Option.some.inj (hn.symm.trans hm) ▸ ⟨htimer, rfl⟩, hidle, hissued⟩

end Gave

/-- What becomes of a world in which the outputs of a node are left to it: calls, frames and input follow each
other. -/
inductive Usage (id : NodeId) : World → World → Prop
  | refl (w : World) : Usage id w w
  | call {w v : World} (h : Usage id w v) (c : Call) (hc : c.LeavesOutputs id) : Usage id w (c.run v)
  | frame {w v : World} (h : Usage id w v) (time : Timestamp) (library : Option String) :
      Usage id w (v.updateAll time library)
  | mouse {w v : World} (h : Usage id w v) (e : MouseEvent) (now : Timestamp) : Usage id w (v.mouseEventAll e now).2
  | key {w v : World} (h : Usage id w v) (e : KeyEvent) : Usage id w (v.keyEventAll e).2

/-- By induction on the run; a fan-out is a sequence of calls. -/
theorem Gave.usage (h : Gave id initial past s w) (husage : Usage id w w') : ∃ s', Gave id initial past s' w' := by
  have hturns : ∀ (ids : List NodeId) (c : NodeId → Call), (∀ a, (c a).LeavesOutputs id) →
      ∀ d ∈ turnCalls ids c, d.LeavesOutputs id := by
    intro ids c hc d hd
    obtain ⟨a, rfl | rfl | rfl⟩ := mem_turnCalls hd
    · trivial
    · exact hc a
    · trivial
  induction husage with
  | refl => exact ⟨s, h⟩
  | call _ c hc ih =>
    obtain ⟨s', h'⟩ := ih
    exact h'.call hc
  | frame _ time library ih =>
    obtain ⟨s', h'⟩ := ih
    exact updateAll_eq_calls _ time library ▸ h'.calls (hturns _ _ fun _ => trivial)
  | mouse _ e now ih =>
    obtain ⟨s', h'⟩ := ih
    exact mouseEventAll_eq_calls _ e now ▸ h'.calls (hturns _ _ fun _ => trivial)
  | key _ e ih =>
    obtain ⟨s', h'⟩ := ih
    exact keyEventAll_eq_calls _ e ▸ h'.calls (hturns _ _ fun _ => trivial)

/-- **The event protocol of timers.** Whatever is called between frames, and whatever the values of the timer's fields
are at the start: as long as its outputs are left to it, the values of `isActive` alternate, beginning with the
opposite of what `isActive` was; the fraction and the time are told only while `isActive` is true; and right before
`isActive` turns false, in the same frame, the fraction is 1. A timer that is still there is as active as its last
signal says. -/
theorem timer_signals_inOrder (hn : w.node? id = some n) (htimer : n.IsTimer) (hidle : w.cascade = [])
    (hissued : id.value ≤ w.registry.lastId) (husage : Usage id w w') :
    ∃ s, w'.signals id = w.signals id ++ s ∧ Signal.InOrder (n.flag "isActive") s ∧
      ∀ m, w'.node? id = some m → m.flag "isActive" = Signal.active (n.flag "isActive") s := by
  obtain ⟨s, h⟩ := (Gave.start hn htimer hidle hissued).usage husage
  exact ⟨s, h.signals, h.inOrder, fun m hm => (h.timer m hm).2⟩

/-- A timer whose time sets its own start runs in a loop for two frames. -/
theorem timer_signals_inOrder_loop : ∃ w n w', w.node? ⟨1⟩ = some n ∧ n.IsTimer ∧ n.flag "isActive" = false ∧
    w.cascade = [] ∧ Usage ⟨1⟩ w w' ∧ ∃ s, w'.signals ⟨1⟩ = w.signals ⟨1⟩ ++ s ∧ Signal.InOrder false s ∧
      ∀ m, w'.node? ⟨1⟩ = some m → m.flag "isActive" = Signal.active false s := by
  obtain ⟨n, hn, htimer, hflag⟩ :
      ∃ n, ((Call.create Catalog.standard "TimeSensor" .detached).run {}).node? ⟨1⟩ = some n ∧ n.IsTimer ∧ n.flag "isActive" = false := ⟨_, rfl, .of_kinds rfl rfl rfl, rfl⟩
  have hused : ∀ w : World, Usage ⟨1⟩ w
      ((((Call.setField ⟨1⟩ "loop" (.single .boolean true ⟨0⟩)).run
        ((Call.addConnection ⟨1⟩ "time" ⟨⟨1⟩, "startTime"⟩).run w)).updateAll ⟨0.5⟩ none).updateAll ⟨0.75⟩ none) := by
    intro w
    have hrouted : Usage ⟨1⟩ w ((Call.addConnection ⟨1⟩ "time" ⟨⟨1⟩, "startTime"⟩).run w) :=
      (Usage.refl w).call (.addConnection ⟨1⟩ "time" ⟨⟨1⟩, "startTime"⟩) trivial
    exact ((hrouted.call (.setField ⟨1⟩ "loop" (.single .boolean true ⟨0⟩)) trivial).frame _ none).frame _ none
  exact ⟨_, n, _, hn, htimer, hflag, rfl, hused _,
    hflag ▸ timer_signals_inOrder hn htimer rfl (Nat.le_refl 1) (hused _)⟩

/-- **Activity after a frame.** A timer that is enabled is active while it runs and not once its time is over. Before
it starts, and as long as its cycle is empty, it stays as it is: a timer that was active stays so even if its start
is moved behind the time of the frame. -/
theorem isActive_update (hn : w.node? id = some n) (htimer : n.IsTimer) (hidle : w.cascade = [])
    (hissued : id.value ≤ w.registry.lastId) (henabled : n.flag "enabled" = true) {settings : TimerSettings}
    (hsettings : timerSettings n = .ok settings) {time : Timestamp} (hm : (w.update id time).node? id = some m) :
    m.flag "isActive" = (settings.phase time.seconds).activity (n.flag "isActive") := by
  obtain ⟨s, h, hactive⟩ := (Gave.start hn htimer hidle hissued).update hn time
  exact (h.timer m hm).2.trans (hactive settings henabled hsettings (isLive_of_node? hm))

end World

end SceneGraph
