import Mathlib.Data.List.ReduceOption
import SceneGraph.Proofs.Grouping.DepthFirst
import SceneGraph.Proofs.World.Registration

/-!
# Which children are rejected

A grouping node that is set up and takes a new list of children rejects those from which lists of children
lead down to it, itself included, and nobody else. It looks for them upwards, along lists of parents, which
mirror the lists of children (`mem_ancestors_iff`).

What nobody but the old list held goes then. A node that goes takes itself off the parents of its children, and
these may be any nodes; whoever is left loses nothing else (`World.Sheds`).

* `sheds_release`: letting go, by induction on the nodes that go.
* `exists_setField_children`: a list of children is taken in two parts: links are changed, then the old list is
  let go of.
* `setField_children`: exactly the nodes above are rejected, and nothing else changes.
* `setField_children_parent_lost`: a node in neither of the lists may lose a parent.
-/

namespace SceneGraph

open Relation

namespace Node

variable {n : Node} {p : NodeId} {old new : List NodeId}

/-- A node after a grouping node that is set up took other children. -/
def relinked (n : Node) (p : NodeId) (old new : List NodeId) (time : Timestamp) : Node :=
  { (if n.id = p then n.store childrenField (.nodes new time) else n) with
    parents := (addParent p)^[new.count n.id] ((removeParent p)^[old.count n.id] n.parents) }

/-- Fields and lists of parents have nothing to do with each other. -/
theorem store_setParents (n : Node) (name : String) (f : Field) (ps : List (NodeId × Nat)) :
    ({ n with parents := ps } : Node).store name f = { n.store name f with parents := ps } := by
  unfold store
  cases n.spec.index? name <;> rfl

theorem routesFrom_relinked (n : Node) (p : NodeId) (old new : List NodeId) (time : Timestamp) (name : String) :
    (n.relinked p old new time).routesFrom name = n.routesFrom name := by
  unfold relinked
  split
  · exact n.routesFrom_store ..
  · rfl

theorem field?_relinked_self {f : Field} (hf : n.field? childrenField = some f) (old new : List NodeId)
    (time : Timestamp) : (n.relinked n.id old new time).field? childrenField = some (.nodes new time) := by
  have hstored : (n.store childrenField (.nodes new time)).field? childrenField = some (.nodes new time) := by
    rw [field?_store, if_pos rfl, hf]
    rfl
  rw [relinked, if_pos rfl]
  exact hstored

theorem relinked_of_ne (h : n.id ≠ p) (old new : List NodeId) (time : Timestamp) :
    n.relinked p old new time = { n with parents := (n.relinked p old new time).parents } := by
  rw [relinked, if_neg h]

theorem parents_relinked (hold : n.id ∉ old) (hnew : n.id ∉ new) (p : NodeId) (time : Timestamp) :
    (n.relinked p old new time).parents = n.parents := by
  rw [relinked, List.count_eq_zero.2 hold, List.count_eq_zero.2 hnew]
  rfl

end Node

namespace World

variable {types : Catalog} {w w' v : World} {id p c : NodeId} {n m : Node} {name : String} {time : Timestamp}

/-! ### Who is above a node -/

theorem claims_iff_groups (hs : Sound types w) : w.Claims p c ↔ w.Groups p c := by
  constructor
  · intro h
    obtain ⟨g, hg, rfl, hb, hi⟩ := exists_of_mem_claimed h
    rw [Claims, claimed_of_grouping hs hg hb, if_pos hi] at h
    exact ⟨g, node?_of_mem hs.distinct hg, hb, hi, h⟩
  · rintro ⟨g, hg, hb, hi, hc⟩
    have hclaimed := claimed_of_grouping hs (mem_nodes_of_node? hg) hb
    rw [id_of_node? hg, if_pos hi] at hclaimed
    rw [Claims, hclaimed]
    exact hc

namespace Coherent

/-- **The ancestors of a node** are those from which lists of children lead down to it. -/
theorem mem_ancestors_iff (h : Coherent types w) : p ∈ w.ancestors c ↔ ReflTransGen w.Groups p c := by
  have hgroups : ∀ a b, w.Claims a b ↔ w.Groups a b := fun a b => claims_iff_groups h.sound
  constructor
  · exact fun hp => ReflTransGen.mono (fun a b => (hgroups a b).1) _ _ (claims_of_mem_ancestors h.counts hp)
  · exact fun hp => mem_ancestors h.sound h.counts (ReflTransGen.mono (fun a b => (hgroups a b).2) _ _ hp)

theorem isLive_parent (h : Coherent types w) (hn : w.node? id = some n) {e : NodeId × Nat} (he : e ∈ n.parents) :
    w.isLive e.1 = true := by
  have hclaim := (h.counts.mem_parentIds_iff (mem_nodes_of_node? hn) e.1).1 (List.mem_map_of_mem he)
  obtain ⟨g, hg, hid, -⟩ := exists_of_mem_claimed hclaim
  rw [← hid]
  exact isLive_of_node? (node?_of_mem h.sound.distinct hg)

end Coherent

/-- What a grouping node lists is not above it. -/
theorem Reachable.not_above (hr : types.Regular) (hw : Reachable types w) (h : w.Groups p c) :
    ¬ ReflTransGen w.Groups c p := by
  have hclaims : ∀ a b, w.Groups a b → w.Claims a b := fun a b => (claims_iff_groups (hw.sound hr)).2
  exact fun hback => hw.acyclic hr p (.head' (hclaims p c h) (ReflTransGen.mono hclaims _ _ hback))

/-! ### Letting go -/

/-- Some nodes have gone. Whoever is left has lost those among its parents, and nothing else. -/
structure Sheds (w w' : World) : Prop where
  held : w'.held = w.held
  nodes : ∀ id m, w'.node? id = some m → ∃ n, w.node? id = some n ∧
    m = { n with parents := n.parents.filter fun e => w'.isLive e.1 }

namespace Sheds

theorem refl (h : Coherent types w) : Sheds w w where
  held := rfl
  nodes id n hn := by
    have hparents : n.parents.filter (fun e => w.isLive e.1) = n.parents :=
      List.filter_eq_self.2 fun _ he => h.isLive_parent hn he
    exact ⟨n, hn, by rw [hparents]⟩

/-- When one more node goes, it takes itself off the parents of its children. -/
theorem destroy (hv : Coherent types v) (hn : v.node? n.id = some n) (h : Sheds w v) : Sheds w (v.destroy n) where
  held := (held_destroy v n).trans h.held
  nodes id m hm := by
    rw [node?_destroy] at hm
    split at hm
    · cases hm
    obtain ⟨k, hk, rfl⟩ := Option.map_eq_some_iff.1 hm
    obtain ⟨l, hl, hkl⟩ := h.nodes id k hk
    refine ⟨l, hl, ?_⟩
    obtain ⟨hcounted, hcounts⟩ := hv.counts k (mem_nodes_of_node? hk)
    -- it does so as often as it is counted there, so nothing of it is left
    have hlost : (Node.removeParent n.id)^[n.claimed.count k.id] k.parents = k.parents.filter (·.1 != n.id) := by
      rw [← claimed_eq hn, ← hcounts]
      exact Node.iterate_removeParent hcounted n.id
    rw [hlost, hkl, List.filter_filter]
    simp only [isLive_destroy, Bool.and_comm]

end Sheds

/-- **Letting go** takes nodes away, and from those that are left it takes them as parents. -/
theorem sheds_release (hr : types.Regular) (h : Coherent types w) (ids : List NodeId) :
    Coherent types (release ids w) ∧ Sheds w (release ids w) :=
  release_induction (I := fun v => Coherent types v ∧ Sheds w v)
    (fun v n hn hfree hv => ⟨hv.1.leads hr (.single (.destroyed v n hn hfree)), hv.2.destroy hv.1 hn⟩) ids ⟨h, .refl h⟩

/-- A node goes only if it was let go of, or with another one that referred to it. By induction on what is let go
of. -/
theorem exists_of_gone_release (ids : List NodeId) (w : World) {x : NodeId} (hx : w.isLive x = true)
    (hgone : (release ids w).isLive x = false) :
    ∃ c ∈ ids, ReflTransGen (fun a b => (release ids w).isLive a = false ∧ b ∈ w.referencesOf a) c x := by
  fun_induction World.release ids w with
  | case1 w =>
    rw [hx] at hgone
    cases hgone
  | case2 w id rest _ ih =>
    obtain ⟨c, hc, hway⟩ := ih hx hgone
    exact ⟨c, List.mem_cons_of_mem _ hc, hway⟩
  | case3 w id rest _ _ ih =>
    obtain ⟨c, hc, hway⟩ := ih hx hgone
    exact ⟨c, List.mem_cons_of_mem _ hc, hway⟩
  | case4 w id rest _ n hn ih =>
    obtain rfl := id_of_node? hn
    by_cases hself : x = n.id
    · exact ⟨n.id, List.mem_cons_self, hself ▸ .refl⟩
    obtain ⟨c, hc, hway⟩ := ih (by simp [isLive_destroy, hx, hself]) hgone
    have hrefers : ∀ a, (w.destroy n).referencesOf a ⊆ w.referencesOf a := by
      intro a b hb
      rw [referencesOf, node?_destroy] at hb
      split at hb
      · cases hb
      · rwa [Option.map_map] at hb
    have hbefore : ReflTransGen (fun a b => (release (n.references ++ rest) (w.destroy n)).isLive a = false ∧
        b ∈ w.referencesOf a) c x := ReflTransGen.mono (fun a b hab => ⟨hab.1, hrefers a hab.2⟩) _ _ hway
    rcases List.mem_append.1 hc with hc | hc
    · refine ⟨n.id, List.mem_cons_self, .head ⟨?_, (referencesOf_eq hn).symm ▸ hc⟩ hbefore⟩
      refine Bool.eq_false_iff.2 fun hlive => ?_
      have hdestroyed := (calm_release (n.references ++ rest) (w.destroy n)).isLive hlive
      simp [isLive_destroy] at hdestroyed
    · exact ⟨c, List.mem_cons_of_mem _ hc, hbefore⟩

/-! ### Taking a list of children -/

theorem node?_replaceChildren {f : Field} (hn : w.node? n.id = some n) (hi : n.initialized = true)
    (hf : n.field? childrenField = some f) (hk : f.kind = ⟨.node, .multi⟩) (old new : List NodeId) (time : Timestamp)
    (after : Aftermath) (x : NodeId) :
    (w.replaceChildren n.id old new time after).2.node? x = (w.node? x).map (·.relinked n.id old new time) := by
  have hlinked : (w.node? n.id).any (·.initialized) = true := by
    rw [hn]
    exact hi
  have hrelink := reparents_relink w n.id old new
  rw [replaceChildren, if_pos hlinked]
  generalize new.foldl (link · n.id ·) (old.foldl (unlink · n.id ·) w) = v at hrelink ⊢
  obtain ⟨k, hk', hkid, hkf⟩ : ∃ k, v.node? n.id = some k ∧ k.id = n.id ∧ k.field? childrenField = some f := by
    rw [hrelink.node?, hn]
    exact ⟨_, rfl, rfl, hf⟩
  rw [← hkid] at hk'
  have hstore := storeChildren_eq hk' hkf hk old new time after
  rw [hkid] at hstore
  rw [hstore]
  change (v.modify n.id _).node? x = _
  rw [node?_modify v n.id x fun m => m.store_id _ _, hrelink.node?, Option.map_map]
  congr 1
  funext m
  dsimp only [Function.comp, Node.relinked]
  split
  · rw [Node.store_setParents]
  · rfl

/-- A list of children is always taken, without those that are ancestors. -/
theorem changeChildren_eq {value : Field} (hkind : value.kind = ⟨.node, .multi⟩) (w : World) (id : NodeId) :
    w.changeChildren id childrenField value =
      (true, { released := value.references.filter ((w.ancestors id).contains ·) ++ w.children id },
        ((w.accept id value.references).2.2.replaceChildren id (w.children id)
          (value.references.filter (!(w.ancestors id).contains ·)) value.timestamp
          { released := value.references.filter ((w.ancestors id).contains ·) }).2) := by
  unfold changeChildren
  rw [if_neg (not_not.2 hkind)]
  dsimp only
  rw [if_pos rfl, replaceChildren, storeChildren_fst]
  rfl

theorem node?_changeChildren (hr : types.Regular) (hs : Sound types w) (hn : w.node? n.id = some n)
    (hb : n.behavior = .grouping) (hi : n.initialized = true) {value : Field} (hkind : value.kind = ⟨.node, .multi⟩)
    (x : NodeId) :
    (w.changeChildren n.id childrenField value).2.2.node? x = (w.node? x).map (·.relinked n.id (w.children n.id)
      (value.references.filter (!(w.ancestors n.id).contains ·)) value.timestamp) := by
  obtain ⟨f, hf, hk⟩ := hs.exists_children hr (mem_nodes_of_node? hn) hb
  obtain ⟨-, hquiet⟩ := accept_spec w n.id value.references
  have hn' : (w.accept n.id value.references).2.2.node? n.id = some n := by
    rw [hquiet.node?, hn]
    rfl
  rw [changeChildren_eq hkind, node?_replaceChildren hn' hi hf hk, hquiet.node?, Option.map_map]
  rfl

/-- Lists of children are left to the behaviour of a grouping node, which takes them. -/
theorem receive_of_changeChildren {access : Access} (haccess : n.access? name = some access) (hset : access.set = true)
    (hexplicit : access.explicit = true) (hb : n.behavior = .grouping)
    (hname : name = childrenField ∨ name = addChildrenField ∨ name = removeChildrenField) {value : Field}
    {after : Aftermath} (h : w.changeChildren n.id name value = (true, after, w')) :
    w.receive n name value = (.ok (), after, w') := by
  unfold receive
  rw [haccess]
  dsimp only
  rw [hset, if_neg (by decide), if_pos hexplicit, changeField, hb]
  dsimp only
  rw [if_pos hname, h]

/-- A value that a node takes outside every cascade and that goes nowhere from there: all that is left to do is to let
go of what was replaced. -/
theorem setField_of_receive (hidle : w.cascade = []) (hn : w.node? n.id = some n) {u v : World}
    (hu : { w with cascade := (n.id, name) :: w.cascade }.step (.entered n.id name) = u) {value : Field}
    {released : List NodeId} (hreceive : u.receive n name value = (.ok (), { released }, v))
    (hdispatch : v.dispatch? n.id name = none) :
    w.setField n.id name value = (.ok (), (release released v).leaveCascade) := by
  have henter : w.enterCascade n.id name = some u := by
    rw [enterCascade, hidle, ← hu, hidle]
    rfl
  unfold setField cascadeDepth deliverUpTo
  rw [hn]
  dsimp only
  rw [henter]
  dsimp only
  rw [hreceive]
  dsimp only [conclude]
  rw [passOn, hdispatch]
  rfl

/-- **Taking a list of children** has two parts where no route leaves the list: the links are changed, and then
the old list is let go of, together with what is rejected. -/
theorem exists_setField_children (hr : types.Regular) (h : Coherent types w) (hidle : w.cascade = [])
    (hn : w.node? n.id = some n) (hb : n.behavior = .grouping) (hi : n.initialized = true)
    (hroutes : n.routesFrom childrenField = []) {value : Field} (hkind : value.kind = ⟨.node, .multi⟩)
    (hlive : ∀ r ∈ value.references, w.isLive r = true) :
    ∃ v, Coherent types v ∧ v.held = w.held ∧
      (∀ x, v.node? x = (w.node? x).map (·.relinked n.id (w.children n.id)
        (value.references.filter (!(w.ancestors n.id).contains ·)) value.timestamp)) ∧
      w.setField n.id childrenField value = (.ok (),
        (release (value.references.filter ((w.ancestors n.id).contains ·) ++ w.children n.id) v).leaveCascade) := by
  generalize hu : { w with cascade := (n.id, childrenField) :: w.cascade }.step (.entered n.id childrenField) = u
  have hn' : u.node? n.id = some n := hu ▸ hn
  have hcoherent : Coherent types u := h.leads hr (hu ▸ .tail (.single (.cascaded w _)) (.entered _ _ rfl))
  have hproceeds : Proceeds types u (u.changeChildren n.id childrenField value).2.2 :=
    proceeds_changeChildren hr hcoherent.sound hn' hb fun r hr => hu ▸ hlive r hr
  have hnode : ∀ x, (u.changeChildren n.id childrenField value).2.2.node? x =
      (w.node? x).map (·.relinked n.id (w.children n.id)
        (value.references.filter (!(w.ancestors n.id).contains ·)) value.timestamp) := fun x =>
    (node?_changeChildren hr hcoherent.sound hn' hb hi hkind x).trans (hu ▸ rfl)
  have htaken : u.changeChildren n.id childrenField value = (true,
      { released := value.references.filter ((w.ancestors n.id).contains ·) ++ w.children n.id },
      (u.changeChildren n.id childrenField value).2.2) := by
    rw [changeChildren_eq hkind]
    exact hu ▸ rfl
  generalize (u.changeChildren n.id childrenField value).2.2 = v at hproceeds hnode htaken
  have hdispatch : v.dispatch? n.id childrenField = none := by
    unfold dispatch?
    rw [hnode, hn, Option.map_some]
    dsimp only
    rw [Node.routesFrom_relinked, hroutes]
    simp
  have haccess := hcoherent.sound.access_children hr (mem_nodes_of_node? hn') hb
  exact ⟨v, hcoherent.leads hr hproceeds.leads, hproceeds.held.trans (hu ▸ rfl), hnode,
    setField_of_receive hidle hn hu (receive_of_changeChildren haccess rfl rfl hb (.inl rfl) htaken) hdispatch⟩

/-- A grouping node that is set up has taken other children, and the old ones were let go of. Whoever is held
stays, and whoever goes was reached from an old child through nodes that go. -/
structure Retakes (p : NodeId) (next : List NodeId) (time : Timestamp) (w w' : World) : Prop where
  held : ∀ x ∈ w.held, w'.isLive x = true
  left : ∀ x m, w'.node? x = some m → ∃ k, w.node? x = some k ∧
    m = { k.relinked p (w.children p) next time with
      parents := (k.relinked p (w.children p) next time).parents.filter fun e => w'.isLive e.1 }
  gone : ∀ x, w.isLive x = true → w'.isLive x = false →
    ∃ c ∈ w.children p, ReflTransGen (fun a b => w'.isLive a = false ∧ b ∈ w.referencesOf a) c x

theorem exists_retakes_setField (hr : types.Regular) (h : Coherent types w) (hidle : w.cascade = [])
    (hn : w.node? n.id = some n) (hb : n.behavior = .grouping) (hi : n.initialized = true)
    (hroutes : n.routesFrom childrenField = []) (hheld : n.id ∈ w.held) {value : Field}
    (hkind : value.kind = ⟨.node, .multi⟩) (hv : value.references ⊆ w.held) :
    ∃ w', w.setField n.id childrenField value = (.ok (), w') ∧
      Retakes n.id (value.references.filter (!(w.ancestors n.id).contains ·)) value.timestamp w w' := by
  obtain ⟨v, hcoherent, hvheld, hnode, hset⟩ :=
    exists_setField_children hr h hidle hn hb hi hroutes hkind (h.sound.of_held hv)
  generalize hreleased : value.references.filter ((w.ancestors n.id).contains ·) ++ w.children n.id = released at hset
  generalize value.references.filter (!(w.ancestors n.id).contains ·) = next at hnode ⊢
  obtain ⟨hcoherent', hsheds⟩ := sheds_release hr hcoherent released
  have hstays : ∀ x ∈ w.held, (release released v).isLive x = true := fun x hx =>
    hcoherent'.sound.held x (by rwa [hsheds.held, hvheld])
  refine ⟨_, hset, hstays, fun x m hm => ?_, fun x hx hgone => ?_⟩
  · obtain ⟨k', hk', rfl⟩ := hsheds.nodes x m hm
    rw [hnode] at hk'
    obtain ⟨k, hk, rfl⟩ := Option.map_eq_some_iff.1 hk'
    exact ⟨k, hk, rfl⟩
  have hlive : v.isLive x = true := by
    obtain ⟨k, hk⟩ := isLive_iff.1 hx
    exact isLive_of_node? ((hnode x).trans (congrArg (Option.map _) hk))
  obtain ⟨c, hc, hway⟩ := exists_of_gone_release released v hlive hgone
  refine ⟨c, ?_, ReflTransGen.mono (fun a b ⟨ha, hb⟩ => ⟨ha, ?_⟩) _ _ hway⟩
  · rcases List.mem_append.1 (hreleased ▸ hc) with hrejected | hold
    · -- what is rejected is held, so it does not go
      have hcgone : (release released v).isLive c = false :=
        hway.cases_head.elim (fun heq => heq ▸ hgone) fun ⟨_, hstep, _⟩ => hstep.1
      exact absurd (hcgone.symm.trans (hstays c (hv (List.mem_filter.1 hrejected).1))) Bool.false_ne_true
    · exact hold
  · have hne : a ≠ n.id := fun h => Bool.false_ne_true (ha.symm.trans (h ▸ hstays n.id hheld))
    rw [World.referencesOf, hnode] at hb
    cases hk : w.node? a with
    | none =>
      rw [hk] at hb
      cases hb
    | some k =>
      rw [hk, Option.map_some, Node.relinked_of_ne (id_of_node? hk ▸ hne)] at hb
      rwa [referencesOf_eq hk]

namespace Retakes

variable {next : List NodeId}

/-- The list is stored. -/
theorem exists_stored {f : Field} (h : Retakes id next time w w') (hn : w.node? id = some n)
    (hf : n.field? childrenField = some f) (hheld : id ∈ w.held) :
    ∃ g, w'.node? id = some g ∧ g.field? childrenField = some (.nodes next time) := by
  obtain rfl := id_of_node? hn
  obtain ⟨m, hm⟩ := isLive_iff.1 (h.held n.id hheld)
  obtain ⟨k, hk, hmk⟩ := h.left n.id m hm
  obtain rfl : n = k := Option.some.inj (hn.symm.trans hk)
  exact ⟨m, hm, hmk ▸ Node.field?_relinked_self hf (w.children n.id) next time⟩

/-- Other nodes lose and win parents at most. -/
theorem exists_other (h : Retakes id next time w w') {x : NodeId} (hx : x ≠ id) (hm : w'.node? x = some m) :
    ∃ k, w.node? x = some k ∧ m = { k with parents := m.parents } := by
  obtain ⟨k, hk, rfl⟩ := h.left x m hm
  rw [Node.relinked_of_ne (id_of_node? hk ▸ hx)]
  exact ⟨k, hk, rfl⟩

/-- Nodes in neither list lose those among their parents that go. -/
theorem parents_of_not_mem (h : Retakes id next time w w') {x : NodeId} (hn : w.node? x = some n)
    (hm : w'.node? x = some m) (hold : x ∉ w.children id) (hnew : x ∉ next) :
    m.parents = n.parents.filter fun e => w'.isLive e.1 := by
  obtain ⟨k, hk, rfl⟩ := h.left x m hm
  obtain rfl : n = k := Option.some.inj (hn.symm.trans hk)
  obtain rfl := id_of_node? hk
  exact congrArg (List.filter _) (Node.parents_relinked hold hnew id time)

end Retakes

open Classical in
/-- **Exactly the nodes above are rejected.** A grouping node that is set up, whose list of children no route
leaves, takes every list of nodes from a caller, who holds it and the nodes of the list. It stores the list without
its nulls and without the nodes from which lists of children lead to it, and with the time of the new list. Of
everybody else only the parents may change; a node that is above, or in neither the old list nor the new one, keeps
all its parents that stay. Whoever goes meanwhile has no handle, and was reached from the old list through nodes
that go. -/
theorem setField_children (hr : types.Regular) (hw : Reachable types w) (hn : w.node? id = some n)
    (hb : n.behavior = .grouping) (hi : n.initialized = true) (hroutes : n.routesFrom childrenField = [])
    (hheld : id ∈ w.held) (l : List (Option NodeId)) (hl : l.reduceOption ⊆ w.held) (time : Timestamp) :
    ∃ w', w.setField id childrenField (.multi .node l time) = (.ok (), w') ∧
      (∃ g, w'.node? id = some g ∧ g.field? childrenField =
        some (.nodes (l.reduceOption.filter fun x => ¬ ReflTransGen w.Groups x id) time)) ∧
      (∀ x m, x ≠ id → w'.node? x = some m → ∃ k, w.node? x = some k ∧ m = { k with parents := m.parents }) ∧
      (∀ x k m, w.node? x = some k → w'.node? x = some m →
        ReflTransGen w.Groups x id ∨ x ∉ w.children id ∧ some x ∉ l →
          m.parents = k.parents.filter fun e => w'.isLive e.1) ∧
      ∀ x, w.isLive x = true → w'.isLive x = false → x ∉ w.held ∧
        ∃ c ∈ w.children id, ReflTransGen (fun a b => w'.isLive a = false ∧ b ∈ w.referencesOf a) c x := by
  obtain rfl := id_of_node? hn
  have h : Coherent types w := ⟨hw.sound hr, (hw.mirrored hr).counts⟩
  obtain ⟨f, hf, -⟩ := h.sound.exists_children hr (mem_nodes_of_node? hn) hb
  have hkind : (Field.multi .node l time).kind = ⟨.node, .multi⟩ := rfl
  have hreferences : (Field.multi .node l time).references = l.reduceOption := rfl
  have hnext : l.reduceOption.filter (!(w.ancestors n.id).contains ·) =
      l.reduceOption.filter fun x => ¬ ReflTransGen w.Groups x n.id :=
    List.filter_congr fun x _ => by simp [h.mem_ancestors_iff]
  obtain ⟨w', hset, hretakes⟩ := exists_retakes_setField hr h hw.idle hn hb hi hroutes hheld hkind hl
  rw [hreferences, hnext] at hretakes
  refine ⟨w', hset, hretakes.exists_stored hn hf hheld, fun x m hx hm => hretakes.exists_other hx hm,
    fun x k m hk hm hx => hretakes.parents_of_not_mem hk hm (fun hold => ?_) fun hnew => ?_,
    fun x hx hgone => ⟨fun hxheld => ?_, hretakes.gone x hx hgone⟩⟩
  · exact hx.elim (hw.not_above hr ⟨n, hn, hb, hi, hold⟩) fun hneither => hneither.1 hold
  · obtain ⟨hmem, hbelow⟩ := List.mem_filter.1 hnew
    exact hx.elim (by simpa using hbelow) fun hneither => hneither.2 (List.reduceOption_mem_iff.1 hmem)
  · exact Bool.false_ne_true (hgone.symm.trans (hretakes.held x hxheld))

/-! ### A group inside another one -/

/-- A group that is set up lists a second one, and there is a third group that lists the first one but is not set
up. -/
def nested : World :=
  (Call.initField ⟨3⟩ childrenField (.nodes [⟨1⟩])).run <|
    (Call.create Catalog.withScenes "Group" .detached).run <|
      (Call.setUp ⟨1⟩ .unset).run <|
        (Call.initField ⟨1⟩ childrenField (.nodes [⟨2⟩])).run <|
          (Call.create Catalog.withScenes "Group" .detached).run <|
            (Call.create Catalog.withScenes "Group" .detached).run {}

theorem reachable_nested : Reachable Catalog.withScenes nested := by
  refine .call (.call (.call (.call (.call (.call .empty fun _ ht => ht) fun _ ht => ht) ⟨?_, fresh_of_any ?_⟩)
    trivial) fun _ ht => ht) ⟨?_, fresh_of_any ?_⟩
  · decide +kernel
  · decide +kernel
  · decide +kernel
  · decide +kernel

/-- The inner group takes the third one, twice, and neither itself nor the outer one. -/
theorem setField_children_nested :
    Catalog.withScenes.Regular ∧ Reachable Catalog.withScenes nested ∧
      (∃ n, nested.node? ⟨2⟩ = some n ∧ n.behavior = .grouping ∧ n.initialized = true ∧
        n.routesFrom childrenField = []) ∧ ⟨2⟩ ∈ nested.held ∧
      (∃ w' g, nested.setField ⟨2⟩ childrenField
          (.multi .node [some ⟨3⟩, none, some ⟨1⟩, some ⟨3⟩, some ⟨2⟩] .unset) = (.ok (), w') ∧
        w'.node? ⟨2⟩ = some g ∧ g.field? childrenField = some (.nodes [⟨3⟩, ⟨3⟩])) := by
  classical
  have hr := Catalog.regular_withScenes
  have hfound : (nested.node? ⟨2⟩).map (fun n => (n.behavior, n.initialized, n.routesFrom childrenField)) =
      some (.grouping, true, []) := by decide +kernel
  obtain ⟨n, hn, hset⟩ := Option.map_eq_some_iff.1 hfound
  obtain ⟨hb, hi, hroutes⟩ : n.behavior = .grouping ∧ n.initialized = true ∧ n.routesFrom childrenField = [] := by
    simpa using hset
  have hheld : ⟨2⟩ ∈ nested.held := by decide +kernel
  obtain ⟨w', htaken, ⟨g, hg, hstored⟩, -⟩ := setField_children hr reachable_nested hn hb hi hroutes hheld
    [some ⟨3⟩, none, some ⟨1⟩, some ⟨3⟩, some ⟨2⟩] (by decide +kernel) .unset
  have h : Coherent Catalog.withScenes nested :=
    ⟨reachable_nested.sound hr, (reachable_nested.mirrored hr).counts⟩
  have habove : nested.ancestors ⟨2⟩ = [⟨2⟩, ⟨1⟩] := by decide +kernel
  have haccepted : ([some ⟨3⟩, none, some ⟨1⟩, some ⟨3⟩, some ⟨2⟩] : List (Option NodeId)).reduceOption.filter
      (fun x => ¬ ReflTransGen nested.Groups x ⟨2⟩) = [⟨3⟩, ⟨3⟩] := by
    simp only [← h.mem_ancestors_iff, habove]
    decide
  rw [haccepted] at hstored
  exact ⟨hr, reachable_nested, ⟨n, hn, hb, hi, hroutes⟩, hheld, w', g, htaken, hg, hstored⟩

/-! ### A parent that goes -/

/-- A group that is set up lists a second one, which nobody else holds, and that lists a third one. -/
def lineage : World :=
  (Call.drop ⟨2⟩).run <|
    (Call.setUp ⟨1⟩ .unset).run <|
      (Call.initField ⟨2⟩ childrenField (.nodes [⟨3⟩])).run <|
        (Call.initField ⟨1⟩ childrenField (.nodes [⟨2⟩])).run <|
          (Call.create Catalog.withScenes "Group" .detached).run <|
            (Call.create Catalog.withScenes "Group" .detached).run <|
              (Call.create Catalog.withScenes "Group" .detached).run {}

theorem reachable_lineage : Reachable Catalog.withScenes lineage := by
  refine .call (.call (.call (.call (.call (.call (.call .empty fun _ ht => ht) fun _ ht => ht) fun _ ht => ht)
    ⟨?_, fresh_of_any ?_⟩) ⟨?_, fresh_of_any ?_⟩) trivial) ?_
  · decide +kernel
  · decide +kernel
  · decide +kernel
  · decide +kernel
  · rw [Call.Allowed]
    decide +kernel

/-- Two groups that are set up, where the first one emits a list of children on its own. -/
def unannounced : World :=
  (Call.emitField ⟨1⟩ childrenField (.nodes [⟨2⟩])).run <|
    (Call.setUp ⟨2⟩ .unset).run <|
      (Call.setUp ⟨1⟩ .unset).run <|
        (Call.create Catalog.withScenes "Group" .detached).run <|
          (Call.create Catalog.withScenes "Group" .detached).run {}

/-- When the first group drops its list, the second one goes and takes itself off the parents of the third one,
which was in neither list. And where lists of children are emitted, parents do not mirror them: the first group is
above the second one and is taken as its child. -/
theorem setField_children_parent_lost :
    (Reachable Catalog.withScenes lineage ∧ ⟨1⟩ ∈ lineage.held ∧
      (lineage.node? ⟨1⟩).map (fun n => (n.behavior, n.initialized, n.routesFrom childrenField)) =
        some (.grouping, true, []) ∧
      lineage.children ⟨1⟩ = [⟨2⟩] ∧ (lineage.node? ⟨3⟩).map (·.parents) = some [(⟨2⟩, 1)] ∧
      ((lineage.setField ⟨1⟩ childrenField (.nodes [])).2.node? ⟨3⟩).map (·.parents) = some []) ∧
    unannounced.Groups ⟨1⟩ ⟨2⟩ ∧
      (unannounced.setField ⟨2⟩ childrenField (.nodes [⟨1⟩])).2.children ⟨2⟩ = [⟨1⟩] := by
  refine ⟨⟨reachable_lineage, by decide +kernel, by decide +kernel, by decide +kernel, by decide +kernel,
    by decide +kernel⟩, ?_, by decide +kernel⟩
  have hfound : (unannounced.node? ⟨1⟩).map (fun n => (n.behavior, n.initialized)) = some (.grouping, true) := by
    decide +kernel
  obtain ⟨n, hn, hset⟩ := Option.map_eq_some_iff.1 hfound
  obtain ⟨hb, hi⟩ := Prod.mk.inj hset
  exact ⟨n, hn, hb, hi, by decide +kernel⟩

end World

end SceneGraph
