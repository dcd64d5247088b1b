import SceneGraph.Proofs.World.Reachable

/-!
# What the renderer is told

The renderer is told when the object of a child joins the object of its parent and when it parts from it. It
can know of the objects of nodes, of the scenes that are rendered, and of the lists of children
(`World.drawing?`).

* `World.told`, `World.shown`: how often the renderer was told about two nodes, and how often one of them
  lists the other.
* `Traces`: what a part of a run tells the renderer.
-/

namespace SceneGraph

/-- What the renderer is told about two objects. -/
inductive Link where
  | join | part
  deriving DecidableEq

/-- The objects that the renderer is told about, if it is told that one joins or parts from another. -/
def Entry.link? : Entry → Option (Link × NodeId × NodeId)
  | .event (.attached parent child) => some (.join, parent, child)
  | .event (.detached parent child) => some (.part, parent, child)
  | _ => none

theorem Entry.link?_of_isPlain {e : Entry} (h : e.isPlain = true) : e.link? = none := by
  unfold link?
  split
  · cases h
  · cases h
  · rfl

/-- What the renderer can know of a node that holds an object. -/
structure Drawing where
  object : NodeId
  renders : Bool
  children : List NodeId

namespace Node

def drawing? (n : Node) : Option Drawing :=
  n.object.map fun object => ⟨object, n.environment.renders, n.nodesIn childrenField⟩

/-- A node gets its object when it is set up for the first time, or never. The object has the node's id. -/
structure Drawn (n : Node) : Prop where
  own : ∀ object, n.object = some object → object = n.id ∧ n.behavior = .grouping ∧ 0 < n.initializations
  begun : 0 < n.initializations → n.initialized = true
  whole : n.behavior = .grouping → 0 < n.initializations → n.object = none →
    n.environment.renders = false ∨ n.typeName.startsWith "No" = true

theorem Drawn.continues {m n : Node} (h : n.Drawn) (hm : m.Continues n) (hid : m.id = n.id) : m.Drawn where
  own object hobject := by
    rw [hid, hm.behavior, hm.initializations]
    exact h.own object (hm.object.symm.trans hobject)
  begun hcount := hm.marked (h.begun (hm.initializations ▸ hcount))
  whole hb hcount hobject := by
    rw [hm.environment, typeName, hm.spec]
    exact h.whole (hm.behavior.symm.trans hb) (hm.initializations ▸ hcount) (hm.object.symm.trans hobject)

/-- Whatever happens to a node without an object, the renderer knows nothing of it. -/
theorem drawing?_of_none {m n : Node} (hobject : n.object = none) (h : m.object = n.object) :
    m.drawing? = n.drawing? := by
  rw [drawing?, drawing?, h, hobject]
  rfl

theorem Drawn.object_eq_none {n : Node} (h : n.Drawn) (hn : n.behavior ≠ .grouping ∨ n.initialized = false) :
    n.object = none := by
  rw [Option.eq_none_iff_forall_ne_some]
  intro object hobject
  obtain ⟨-, hb, hcount⟩ := h.own object hobject
  rcases hn with hn | hn
  · exact hn hb
  · rw [h.begun hcount] at hn
    cases hn

theorem Drawn.of_unused {n : Node} (hobject : n.object = none) (hcount : n.initializations = 0) : n.Drawn where
  own object h := by
    rw [hobject] at h
    cases h
  begun h := by omega
  whole _ h := by omega

/-- Fields that are not the list of children of a node that holds an object are none of the renderer's
business. -/
theorem Drawn.drawing?_store {n : Node} (h : n.Drawn) {name : String} (value : Field)
    (hlist : n.behavior = .grouping → n.initialized = true → name ≠ childrenField) :
    (n.store name value).drawing? = n.drawing? := by
  cases hobject : n.object with
  | none => exact drawing?_of_none hobject (n.store_object name value)
  | some object =>
    obtain ⟨-, hb, hcount⟩ := h.own object hobject
    have hname := hlist hb (h.begun hcount)
    rw [drawing?, drawing?, n.store_object, n.store_environment, nodesIn, field?_store,
      if_neg (Ne.symm hname), ← nodesIn]

end Node

namespace World

variable {types : Catalog} {u w w' w'' : World} {n : Node} {p c id : NodeId}

/-- How often the renderer was told that the object of a child joins or parts from that of a parent. -/
def told (w : World) (l : Link) (parent child : NodeId) : Nat :=
  w.journal.countP (·.link? = some (l, parent, child))

/-- How often a parent lists a child, if both hold objects and the parent is rendered. -/
def shown (w : World) (parent child : NodeId) : Nat :=
  if (w.renderedPair? parent child).isSome then (w.children parent).count child else 0

/-- By how much the renderer was told more joins than there are occurrences to be shown. -/
def surplus (w : World) (parent child : NodeId) : Int :=
  w.told .join parent child - w.told .part parent child - w.shown parent child

/-- The node holds its object, or it is gone. -/
def Equipped (w : World) (id : NodeId) : Prop :=
  id.value ≤ w.registry.lastId ∧ ∀ n, w.node? id = some n → n.object.isSome = true

/-- Every node gets its object when it is set up for the first time, or never. -/
def Drawn (w : World) : Prop := ∀ id n, w.node? id = some n → n.Drawn

def drawing? (w : World) (id : NodeId) : Option Drawing := (w.node? id).bind Node.drawing?

/-- Objects have the ids of their nodes. -/
def Owned (w : World) : Prop := ∀ id d, w.drawing? id = some d → d.object = id

/-! ### What is shown -/

theorem Drawn.owned (hd : w.Drawn) : w.Owned := by
  intro id d h
  obtain ⟨n, hn, hdraw⟩ := Option.bind_eq_some_iff.1 h
  obtain ⟨object, hobject, rfl⟩ := Option.map_eq_some_iff.1 hdraw
  exact ((hd id n hn).own object hobject).1.trans (id_of_node? hn)

theorem renderedPair?_eq (w : World) (p c : NodeId) :
    w.renderedPair? p c = (w.drawing? p).bind fun d =>
      if d.renders then (w.drawing? c).map fun e => (d.object, e.object) else none := by
  unfold renderedPair? drawing? Node.drawing?
  cases w.node? p with
  | none => rfl
  | some n =>
    cases w.node? c with
    | none =>
      cases hobject : n.object <;> simp [hobject]
    | some m =>
      cases hobject : n.object <;> cases hchild : m.object <;> simp [hobject, hchild]

theorem shown_eq (w : World) (p c : NodeId) :
    w.shown p c = ((w.drawing? p).map fun d =>
      if d.renders && (w.drawing? c).isSome then d.children.count c else 0).getD 0 := by
  rw [shown, renderedPair?_eq]
  cases hp : w.drawing? p with
  | none => rfl
  | some d =>
    obtain ⟨n, hn, hdraw⟩ := Option.bind_eq_some_iff.1 hp
    obtain ⟨object, -, rfl⟩ := Option.map_eq_some_iff.1 hdraw
    rw [children, hn]
    cases n.environment.renders <;> simp

theorem renderedPair?_modify (w : World) (id : NodeId) {f : Node → Node}
    (hf : ∀ n, (f n).id = n.id ∧ (f n).object = n.object ∧ (f n).environment = n.environment) :
    (w.modify id f).renderedPair? = w.renderedPair? := by
  have hnode : ∀ n : Node, (if n.id = id then f n else n).object = n.object ∧
      (if n.id = id then f n else n).environment = n.environment := by
    intro n
    split
    · exact (hf n).2
    · exact ⟨rfl, rfl⟩
  funext p c
  unfold renderedPair?
  rw [node?_modify w id p fun n => (hf n).1, node?_modify w id c fun n => (hf n).1]
  cases w.node? p with
  | none => rfl
  | some n =>
    cases w.node? c with
    | none => rfl
    | some m => simp only [Option.map_some, (hnode n).1, (hnode n).2, (hnode m).1]

/-- After other children are stored, those are shown. -/
theorem shown_storeChildren {old : Field} (hn : w.node? n.id = some n)
    (hold : n.field? childrenField = some old) (next : List NodeId) (time : Timestamp) (p c : NodeId) :
    (w.modify n.id (·.store childrenField (.nodes next time))).shown p c =
      if p = n.id then (if (w.renderedPair? p c).isSome then next.count c else 0) else w.shown p c := by
  have hid : ∀ m : Node, (m.store childrenField (.nodes next time)).id = m.id := fun m => m.store_id _ _
  have hpair := renderedPair?_modify w n.id fun m =>
    ⟨hid m, m.store_object childrenField (.nodes next time), m.store_environment childrenField (.nodes next time)⟩
  rw [shown, hpair, children]
  by_cases hp : p = n.id
  · have hlisted : (n.store childrenField (.nodes next time)).nodesIn childrenField = next :=
      Node.nodesIn_store hold next time
    rw [if_pos hp, hp, node?_modify_self w n.id hid, hn, Option.map_some, Option.map_some, Option.getD_some, hlisted]
  · rw [if_neg hp, node?_modify_of_ne w hid hp]
    rfl

/-- The renderer knows nodes by their ids. -/
theorem Owned.pair (hown : w.Owned) {a b : NodeId} (h : w.renderedPair? p c = some (a, b)) : a = p ∧ b = c := by
  rw [renderedPair?_eq] at h
  obtain ⟨d, hp, h⟩ := Option.bind_eq_some_iff.1 h
  split at h
  · obtain ⟨e, hc, heq⟩ := Option.map_eq_some_iff.1 h
    obtain ⟨rfl, rfl⟩ := Prod.mk.inj heq
    exact ⟨hown p d hp, hown c e hc⟩
  · cases h

theorem shown_congr (h : w'.drawing? = w.drawing?) : w'.shown = w.shown := by
  funext p c
  rw [shown_eq, shown_eq, h]

/-! ### What the renderer is told -/

/-- A part of a run that tells the renderer so many joins and partings, and changes nothing else that the
renderer can know. -/
structure Traces (links : Link → NodeId → NodeId → Nat) (w w' : World) : Prop where
  drawing : w'.drawing? = w.drawing?
  told : ∀ l p c, w'.told l p c = w.told l p c + links l p c

/-- Nothing is told. -/
def noLinks : Link → NodeId → NodeId → Nat := fun _ _ _ => 0

/-- The links between a parent and some children, as far as they are shown. -/
def links (w : World) (l : Link) (p : NodeId) (cs : List NodeId) : Link → NodeId → NodeId → Nat := fun l' q c =>
  if l' = l ∧ q = p ∧ (w.renderedPair? p c).isSome = true then cs.count c else 0

theorem links_self (w : World) (l : Link) (p c : NodeId) (cs : List NodeId) :
    w.links l p cs l p c = if (w.renderedPair? p c).isSome = true then cs.count c else 0 := by
  rw [links]
  congr 1
  simp

theorem links_of_ne {l l' : Link} {q : NodeId} (h : l' ≠ l ∨ q ≠ p) (cs : List NodeId) : w.links l p cs l' q c = 0 :=
  if_neg fun hsame => h.elim (fun hl => hl hsame.1) fun hq => hq hsame.2.1

namespace Traces

variable {f f' : Link → NodeId → NodeId → Nat}

theorem of_nodes (hn : w'.nodes = w.nodes) (hj : w'.journal = w.journal) : Traces noLinks w w' := by
  refine ⟨?_, fun l p c => ?_⟩
  · funext id
    rw [drawing?, node?_congr hn, drawing?]
  · rw [World.told, hj]
    rfl

theorem refl (w : World) : Traces noLinks w w := of_nodes rfl rfl

theorem trans (h : Traces f w w') (h' : Traces f' w' w'') :
    Traces (fun l p c => f l p c + f' l p c) w w'' := by
  refine ⟨h'.drawing.trans h.drawing, fun l p c => ?_⟩
  rw [h'.told, h.told, Nat.add_assoc]

/-- A part that tells the renderer nothing comes first. -/
theorem after (h' : Traces f w' w'') (h : Traces noLinks w w') : Traces f w w'' := by
  simpa [noLinks] using h.trans h'

/-- A part that tells the renderer nothing comes last. -/
theorem before (h : Traces f w w') (h' : Traces noLinks w' w'') : Traces f w w'' := h.trans h'

theorem enter (w : World) {e : Entry} (he : e.link? = none) : Traces noLinks w (w.enter e) := by
  refine ⟨rfl, fun l p c => ?_⟩
  rw [World.told, World.enter, List.countP_cons_of_neg (by simp [he])]
  rfl

theorem modify (w : World) (id : NodeId) {g : Node → Node} (hid : ∀ n, (g n).id = n.id)
    (hg : ∀ n, w.node? id = some n → (g n).drawing? = n.drawing?) : Traces noLinks w (w.modify id g) := by
  refine ⟨?_, fun _ _ _ => rfl⟩
  funext other
  rw [drawing?, node?_modify w id other hid, drawing?]
  cases hn : w.node? other with
  | none => rfl
  | some n =>
    change Node.drawing? (if n.id = id then g n else n) = n.drawing?
    split
    · rename_i heq
      exact hg n (by rw [← heq, id_of_node? hn, hn])
    · rfl

theorem renderedPair? (h : Traces f w w') : w'.renderedPair? = w.renderedPair? := by
  funext p c
  rw [renderedPair?_eq, renderedPair?_eq, h.drawing]

theorem links (h : Traces f w w') : w'.links = w.links := by
  funext l p cs l' q c
  rw [World.links, World.links, h.renderedPair?]

theorem owned (h : Traces f w w') (hown : w.Owned) : w'.Owned := by
  rw [Owned, h.drawing]
  exact hown

/-- The renderer is told the ids of two nodes if both hold objects. -/
theorem tell (hown : w.Owned) {l : Link} {event : NodeId → NodeId → Event}
    (hevent : ∀ a b, Entry.link? (.event (event a b)) = some (l, a, b)) (p c : NodeId) :
    Traces (w.links l p [c]) w
      (match w.renderedPair? p c with | some (a, b) => w.tell (event a b) | none => w) := by
  cases hpair : w.renderedPair? p c with
  | none =>
    have hnone : w.links l p [c] = noLinks := by
      funext l' q d
      by_cases hd : d = c
      · simp [World.links, noLinks, hd, hpair]
      · simp [World.links, noLinks, Ne.symm hd]
    rw [hnone]
    exact .refl w
  | some e =>
    obtain ⟨a, b⟩ := e
    obtain ⟨rfl, rfl⟩ := hown.pair hpair
    refine ⟨rfl, fun l' q d => ?_⟩
    change (Entry.event (event a b) :: w.journal).countP (·.link? = some (l', q, d)) = _
    have hsame : some (l, a, b) = some (l', q, d) ↔ (l' = l ∧ q = a) ∧ d = b := by
      constructor
      · intro h
        cases h
        exact ⟨⟨rfl, rfl⟩, rfl⟩
      · rintro ⟨⟨rfl, rfl⟩, rfl⟩
        rfl
    rw [List.countP_cons, hevent, World.links]
    congr 1
    by_cases hd : d = b
    · subst hd
      simp [hsame, hpair]
    · simp [hsame, hd, Ne.symm hd]

theorem attach (hown : w.Owned) (p c : NodeId) : Traces (w.links .join p [c]) w (w.attach p c) :=
  tell hown (fun _ _ => rfl) p c

theorem detach (hown : w.Owned) (p c : NodeId) : Traces (w.links .part p [c]) w (w.detach p c) :=
  tell hown (fun _ _ => rfl) p c

/-- Links with one child after the other. -/
theorem foldl {act : World → NodeId → World} {l : Link} {p : NodeId}
    (hact : ∀ v c, v.Owned → Traces (v.links l p [c]) v (act v c)) (hown : w.Owned) (cs : List NodeId) :
    Traces (w.links l p cs) w (cs.foldl act w) := by
  induction cs generalizing w with
  | nil =>
    have hnone : w.links l p [] = noLinks := by
      funext l' q d
      simp [World.links, noLinks]
    rw [hnone]
    exact .refl w
  | cons c rest ih =>
    have hfirst := hact w c hown
    have hrest := ih (hfirst.owned hown)
    have hsum : w.links l p (c :: rest) =
        fun l' q d => w.links l p [c] l' q d + (act w c).links l p rest l' q d := by
      funext l' q d
      rw [hfirst.links, World.links, World.links, World.links]
      split
      · rw [List.count_cons, List.count_singleton, Nat.add_comm]
      · rfl
    rw [hsum]
    exact hfirst.trans hrest

theorem removeParent (w : World) (c p : NodeId) : Traces noLinks w (w.removeParent c p) :=
  .modify w c (fun _ => rfl) fun _ _ => rfl

theorem addParent (w : World) (c p : NodeId) : Traces noLinks w (w.addParent c p) :=
  .modify w c (fun _ => rfl) fun _ _ => rfl

theorem unlink (hown : w.Owned) (p c : NodeId) : Traces (w.links .part p [c]) w (w.unlink p c) := by
  have h := removeParent w c p
  rw [← h.links]
  exact (detach (h.owned hown) p c).after h

theorem link (hown : w.Owned) (p c : NodeId) : Traces (w.links .join p [c]) w (w.link p c) := by
  have h := addParent w c p
  rw [← h.links]
  exact (attach (h.owned hown) p c).after h

theorem accept (w : World) (p : NodeId) (proposed : List NodeId) : Traces noLinks w (w.accept p proposed).2.2 := by
  have hlog : ∀ (l : List NodeId) (v : World), Traces noLinks v (l.foldl (logRejected · p ·) v) := by
    intro l
    induction l with
    | nil => exact fun v => .refl v
    | cons c rest ih =>
      intro v
      refine (ih (v.logRejected p c)).after ?_
      obtain heq | ⟨text, heq⟩ := logRejected_cases v p c <;> rw [heq]
      · exact .refl v
      · exact .enter v rfl
  exact hlog _ w

/-- A node that goes takes leave of the children that are shown. -/
theorem takeLeave (hd : w.Drawn) (hn : w.node? n.id = some n) :
    Traces (w.links .part n.id (w.children n.id)) w (w.takeLeave n) := by
  have hbare : n.object = none → w.links .part n.id (w.children n.id) = noLinks := by
    intro hobject
    have hnone : ∀ c, w.renderedPair? n.id c = none := by
      intro c
      rw [renderedPair?_eq, drawing?, hn, Option.bind_some, Node.drawing?, hobject]
      rfl
    funext l' q c
    simp [World.links, noLinks, hnone]
  have hdrawn := hd n.id n hn
  by_cases hset : n.behavior = .grouping ∧ n.initialized = true
  · have hchildren : w.children n.id = n.nodesIn childrenField := by rw [World.children, hn]; rfl
    rw [World.takeLeave, hset.1, hchildren]
    dsimp only
    rw [leaveChildren, if_pos hset.2]
    exact foldl (fun v c hown => unlink hown n.id c) hd.owned _
  · -- only a grouping node that was set up holds an object
    have hobject : n.object = none := hdrawn.object_eq_none (by simpa [imp_iff_not_or] using hset)
    rw [hbare hobject, World.takeLeave]
    split
    · rename_i hb
      rw [leaveChildren, if_neg fun hi => hset ⟨hb, hi⟩]
      exact .refl w
    · exact .enter w rfl
    · exact .refl w

end Traces

end World

end SceneGraph
