import Mathlib.Data.List.Dedup
import SceneGraph.Proofs.World.Kinds

/-!
# Routes are ordered sets

Whatever is called, a route leaves a field of a node at most once, it is there exactly if it was added and not
taken away since, and the routes of one field stand in the order in which they arrived. A cascade follows
routes in this order, and so reaches each of their ends once.

* `Call.reroutes`: what one call does to the routes of a node. Only adding a route, removing one and taking
  a field away change them.
* `Reachable.routesDistinct`: no node lists a route twice, at any moment of a run.
* `Stands`, `arrivals`: what the calls made so far say about the routes.
* `Records.step`, `Records.after`: the routes agree with the calls, after one more call and after any calls.
* `connections_after`: the routes of a node are ordered sets.
-/

namespace SceneGraph

/-- The last occurrence of an element counts. -/
theorem dedup_concat {α : Type} [DecidableEq α] (l : List α) (a : α) :
    (l ++ [a]).dedup = l.dedup.filter (· ≠ a) ++ [a] := by
  induction l with
  | nil => rfl
  | cons b rest ih =>
    rw [List.cons_append, List.dedup_cons, List.dedup_cons, ih]
    by_cases hb : b ∈ rest
    · rw [if_pos (List.mem_append_left _ hb), if_pos hb]
    by_cases hba : b = a
    · subst hba
      simp [hb]
    · simp [hb, hba]

theorem sublist_dedup_concat {α : Type} [DecidableEq α] {l l' : List α} {a : α} (h : l.Sublist l'.dedup)
    (ha : a ∉ l) : (l ++ [a]).Sublist (l' ++ [a]).dedup := by
  have hl : l.filter (· ≠ a) = l := by
    refine List.filter_eq_self.2 fun b hb => ?_
    have hne : b ≠ a := fun hba => ha (hba ▸ hb)
    simpa using hne
  rw [dedup_concat, ← hl]
  exact (h.filter _).append_right _

namespace World

variable {w w' w'' : World} {n m : Node} {id : NodeId} {c : Call} {calls : List Call} {output : String}
  {route : Route}

theorem addConnection_fst (hn : w.node? id = some n) :
    (w.addConnection id output route).1 = true ↔ route ∉ n.routesFrom output := by
  rw [addConnection, hn]
  exact n.addConnection_fst

theorem removeConnection_fst (hn : w.node? id = some n) :
    (w.removeConnection id output route).1 = true ↔ route ∈ n.routesFrom output := by
  rw [removeConnection, hn]
  exact n.removeConnection_fst

/-! ### What a call does to the routes of a node -/

/-- A node that is there before and after has the routes that a change gives it. -/
def Reroutes (id : NodeId) (change : Node → Node) (w w' : World) : Prop :=
  ∀ n m, w.node? id = some n → w'.node? id = some m → m.routes = (change n).routes

namespace Reroutes

variable {change : Node → Node} {a : NodeId}

theorem refl (w : World) : Reroutes id (fun n => n) w w := by
  intro n m hn hm
  rw [Option.some.inj (hn.symm.trans hm)]

theorem congr {other : Node → Node} (h : Reroutes id change w w')
    (heq : ∀ n, (change n).routes = (other n).routes) : Reroutes id other w w' :=
  fun n m hn hm => (h n m hn hm).trans (heq n)

/-- Nothing happens to a node that is not there. -/
theorem gone (hgone : w.node? a = none) (h : ∀ n, n.id ≠ a → change n = n) : Reroutes id change w w := by
  intro n m hn hm
  obtain rfl : n = m := Option.some.inj (hn.symm.trans hm)
  have hne : n.id ≠ a := by
    rintro rfl
    rw [id_of_node? hn, hn] at hgone
    cases hgone
  rw [h n hne]

theorem modify (w : World) (a : NodeId) {f : Node → Node} (hid : ∀ n, (f n).id = n.id) :
    Reroutes id (fun n => if n.id = a then f n else n) w (w.modify a f) := by
  intro n m hn hm
  rw [node?_modify w a id hid, hn] at hm
  rw [← Option.some.inj hm]

/-- Afterwards something else about a node changes. -/
theorem keep (h : Reroutes id change w w') (a : NodeId) {f : Node → Node} (hid : ∀ n, (f n).id = n.id)
    (hroutes : ∀ n, (f n).routes = n.routes) : Reroutes id change w (w'.modify a f) := by
  intro n m hn hm
  rw [node?_modify w' a id hid] at hm
  obtain ⟨k, hk, rfl⟩ := Option.map_eq_some_iff.1 hm
  rw [← h n k hn hk]
  split
  · exact hroutes k
  · rfl

theorem resembling (h : Reroutes id change w w')
    (hlater : ∀ m, w''.node? id = some m → ∃ k, w'.node? id = some k ∧ m.Resembles k) :
    Reroutes id change w w'' := by
  intro n m hn hm
  obtain ⟨k, hk, hmk⟩ := hlater m hm
  exact hmk.routes.trans (h n k hn hk)

end Reroutes

namespace Call

/-- A node with the routes that a call leaves it. -/
def rerouted (w : World) (c : Call) (n : Node) : Node :=
  match c with
  | addConnection a output route => if n.id = a then (n.addConnection output route).2 else n
  | removeConnection a output route => if n.id = a then (n.removeConnection output route).2 else n
  | removeField a name =>
    if n.id = a ∧ (w.removeField a name).1 = .ok () then { n with routes := n.routes.filter (·.1 != name) } else n
  | _ => n

theorem reroutes_removeField (w : World) (a : NodeId) (name : String) :
    Reroutes id ((removeField a name).rerouted w) w (w.removeField a name).2 := by
  unfold rerouted
  dsimp only
  obtain ⟨hgone, heq⟩ | ⟨e, heq⟩ | ⟨n, old, -, -, heq⟩ := removeField_cases w a name <;> rw [heq]
  · exact .gone hgone fun n hne => if_neg fun h => hne h.1
  · exact (Reroutes.refl w).congr fun n => by rw [if_neg (by rintro ⟨-, h⟩; cases h)]
  · have hmodified : Reroutes id (fun n => if n.id = a then { n with
          dynamic := n.dynamic.filter (·.1 != name)
          routes := n.routes.filter (·.1 != name) } else n) w (w.modify a fun n => { n with
        dynamic := n.dynamic.filter (·.1 != name)
        routes := n.routes.filter (·.1 != name) }) := .modify w a fun _ => rfl
    refine (hmodified.resembling ((calm_release old.references _).resembles id)).congr fun n => ?_
    by_cases h : n.id = a <;> simp [h]

/-- **Routes are added, removed, or go with a field.** A node that is still there after a call has the routes
that the call leaves it. -/
theorem reroutes (w : World) (c : Call) : Reroutes id (c.rerouted w) w (c.run w) := by
  by_cases hedits : c.Edits
  · cases c with
    | addField a name value =>
      rw [run, World.addField]
      split
      · exact .refl w
      split
      · exact .refl w
      split
      · exact .refl w
      · exact (Reroutes.refl w).keep a (fun _ => rfl) fun _ => rfl
    | removeField a name => exact reroutes_removeField w a name
    | addConnection a output route =>
      rw [run, World.addConnection]
      split
      · exact .modify w a fun n => n.addConnection_id output route
      · exact .gone ‹_› fun n hne => if_neg hne
    | removeConnection a output route =>
      rw [run, World.removeConnection]
      split
      · exact .modify w a fun n => n.removeConnection_id output route
      · exact .gone ‹_› fun n hne => if_neg hne
    | discard a =>
      -- the node loses its name, then its references, and then what nobody else holds goes
      have hnamed := (Reroutes.refl w).resembling ((retains_setName w a "").resembles id)
      have hforgotten := hnamed.keep a (f := Node.forget) (fun _ => rfl) fun _ => rfl
      exact hforgotten.resembling ((calm_release _ _).resembles id)
    | _ => exact absurd hedits fun h => h
  · intro n m hn hm
    have hsame : m.routes = n.routes := (resembles hedits hn hm).routes
    cases c with
    | addConnection | removeConnection | removeField => exact absurd trivial hedits
    | _ => exact hsame

theorem hasDistinctRoutes_rerouted (h : n.HasDistinctRoutes) : (c.rerouted w n).HasDistinctRoutes := by
  unfold rerouted
  split
  · split
    · exact h.addConnection _ _
    · exact h
  · split
    · exact h.removeConnection _ _
    · exact h
  · split
    · exact h.filter _
    · exact h
  · exact h

/-- The call takes a route away: it removes the route, or the field that the route leaves and is not refused. -/
def Drops (w : World) (id : NodeId) (t : String × Route) : Call → Prop
  | removeConnection a output route => a = id ∧ (output, route) = t
  | removeField a name => a = id ∧ name = t.1 ∧ (w.removeField a name).1 = .ok ()
  | _ => False

/-- A route is there after a call if the call adds it, or it was there and the call does not take it away. -/
theorem mem_routesFrom_rerouted :
    route ∈ (c.rerouted w n).routesFrom output ↔
      c = addConnection n.id output route ∨ (route ∈ n.routesFrom output ∧ ¬c.Drops w n.id (output, route)) := by
  cases c with
  | addConnection a name r =>
    by_cases ha : n.id = a
    · rw [rerouted, if_pos ha, Node.routesFrom_addConnection]
      split
      · rename_i hnew
        obtain ⟨rfl, -⟩ := hnew
        simp [Drops, ha, or_comm, eq_comm]
      · -- the route was there already, or another one is added
        rename_i hold
        refine ⟨fun h => .inr ⟨h, fun hdrops => hdrops⟩, ?_⟩
        rintro (h | h)
        · obtain ⟨-, rfl, rfl⟩ := addConnection.inj h
          exact by_contra fun hnew => hold ⟨rfl, hnew⟩
        · exact h.1
    · simp [rerouted, ha, Drops, Ne.symm ha]
  | removeConnection a name r =>
    by_cases ha : n.id = a
    · rw [rerouted, if_pos ha, Node.routesFrom_removeConnection]
      split
      · rename_i hname
        subst hname
        simp [Drops, ha, eq_comm (a := r)]
      · rename_i hname
        simp [Drops, ha, Ne.symm hname]
    · simp [rerouted, ha, Drops, Ne.symm ha]
  | removeField a name =>
    by_cases hremoved : n.id = a ∧ (w.removeField a name).1 = .ok ()
    · rw [rerouted, if_pos hremoved, Node.routesFrom_filter]
      split
      · rename_i hname
        have hdrops : (removeField a name).Drops w n.id (output, route) :=
          ⟨hremoved.1.symm, hname.symm, hremoved.2⟩
        simp [hdrops]
      · rename_i hname
        simp [Drops, Ne.symm hname]
    · have hkept : ¬(removeField a name).Drops w n.id (output, route) := fun h => hremoved ⟨h.1.symm, h.2.2⟩
      rw [rerouted, if_neg hremoved]
      simp [hkept]
  | _ => simp [rerouted, Drops]

/-- The route that arrives at a node with a call, by the answer to it. -/
def arrival (w : World) (id : NodeId) : Call → Option (String × Route)
  | addConnection a output route =>
    if a = id ∧ (w.addConnection a output route).1 = true then some (output, route) else none
  | _ => none

/-- The routes of a field keep their order, and what arrives comes last. -/
theorem routesFrom_rerouted_sublist (hn : w.node? n.id = some n) (c : Call) (output : String) :
    (((c.rerouted w n).routesFrom output).map (output, ·)).Sublist
      ((n.routesFrom output).map (output, ·) ++ (c.arrival w n.id).toList) := by
  cases c with
  | addConnection a name r =>
    by_cases ha : n.id = a
    · rw [rerouted, if_pos ha, Node.routesFrom_addConnection]
      split
      · rename_i hnew
        obtain ⟨rfl, hr⟩ := hnew
        subst ha
        rw [arrival, if_pos ⟨rfl, (addConnection_fst hn).2 hr⟩]
        simp
      · exact List.sublist_append_left _ _
    · rw [rerouted, if_neg ha]
      exact List.sublist_append_left _ _
  | removeConnection a name r =>
    refine .trans ?_ (List.sublist_append_left _ _)
    rw [rerouted]
    split
    · rw [Node.routesFrom_removeConnection]
      split
      · rename_i hname
        exact hname ▸ List.filter_sublist.map _
      · exact .refl _
    · exact .refl _
  | removeField a name =>
    refine .trans ?_ (List.sublist_append_left _ _)
    rw [rerouted]
    split
    · rw [Node.routesFrom_filter]
      split
      · exact List.nil_sublist _
      · exact .refl _
    · exact .refl _
  | _ => exact List.sublist_append_left _ _

/-- What arrives was not there. -/
theorem arrival_not_mem (hn : w.node? n.id = some n) {t : String × Route} (h : c.arrival w n.id = some t)
    (output : String) : t ∉ (n.routesFrom output).map (output, ·) := by
  unfold arrival at h
  split at h
  · rename_i a name r
    split at h
    · rename_i hadded
      obtain rfl := Option.some.inj h
      obtain ⟨rfl, hanswer⟩ := hadded
      rintro hmem
      obtain ⟨s, hs, heq⟩ := List.mem_map.1 hmem
      obtain ⟨rfl, rfl⟩ := Prod.mk.inj heq
      exact (addConnection_fst hn).1 hanswer hs
    · cases h
  · cases h

end Call

theorem inherent_hasDistinctRoutes : Node.Inherent Node.HasDistinctRoutes where
  fresh _ _ _ _ := .of_nil rfl
  resembles hm h := h.of_routes hm.routes
  edit := by
    intro n m hedit h
    cases hedit with
    | extended => exact h.of_routes rfl
    | reduced name => exact (h.filter name).of_routes rfl
    | connected output route => exact h.addConnection output route
    | disconnected output route => exact h.removeConnection output route
    | forgotten => exact h.of_routes rfl

/-- **No node lists a route twice**, at no moment of a run. -/
theorem Reachable.routesDistinct {types : Catalog} (hr : types.Regular) (hw : Reachable types w)
    (hmoment : Leads types.usable w w') : w'.RoutesDistinct :=
  fun n hn => (hw.inherent hr hmoment inherent_hasDistinctRoutes n hn).lists

/-! ### What the calls say about the routes -/

/-- The world after calls. -/
def after (w : World) (calls : List Call) : World := calls.foldl (fun w c => c.run w) w

theorem after_concat (w : World) (calls : List Call) (c : Call) :
    w.after (calls ++ [c]) = c.run (w.after calls) := by
  rw [after, List.foldl_concat, after]

/-- The routes that arrive at a node with calls, in order and as often as they do. -/
def arrivals (id : NodeId) : World → List Call → List (String × Route)
  | _, [] => []
  | w, c :: calls => (c.arrival w id).toList ++ arrivals id (c.run w) calls

theorem arrivals_concat (id : NodeId) (w : World) (calls : List Call) (c : Call) :
    arrivals id w (calls ++ [c]) = arrivals id w calls ++ (c.arrival (w.after calls) id).toList := by
  induction calls generalizing w with
  | nil => exact (List.append_nil _).trans (List.nil_append _).symm
  | cons d rest ih =>
    rw [List.cons_append, arrivals, ih, arrivals, List.append_assoc]
    rfl

/-- A route was added, and no call after its last addition took it away. -/
def Stands (w : World) (id : NodeId) (calls : List Call) (t : String × Route) : Prop :=
  ∃ before later, calls = before ++ .addConnection id t.1 t.2 :: later ∧ .addConnection id t.1 t.2 ∉ later ∧
    ∀ between c rest, later = between ++ c :: rest →
      ¬c.Drops (w.after (before ++ .addConnection id t.1 t.2 :: between)) id t

theorem stands_concat {t : String × Route} :
    Stands w id (calls ++ [c]) t ↔
      c = .addConnection id t.1 t.2 ∨ (Stands w id calls t ∧ ¬c.Drops (w.after calls) id t) := by
  constructor
  · rintro ⟨before, later, hcalls, hlast, hkept⟩
    -- the last addition is this call, or it was made before
    obtain ⟨-, hc, -⟩ | ⟨rest, rfl, rfl⟩ := concat_eq_append_cons hcalls
    · exact .inl hc
    · refine .inr ⟨⟨before, rest, rfl, fun h => hlast (List.mem_append_left _ h), fun between d tail h => ?_⟩,
        hkept rest c [] rfl⟩
      exact hkept between d (tail ++ [c]) (by rw [h, List.append_assoc, List.cons_append])
  · intro h
    by_cases hc : c = .addConnection id t.1 t.2
    · exact ⟨calls, [], hc ▸ rfl, List.not_mem_nil, fun between d rest h => by simp at h⟩
    · obtain ⟨⟨before, later, rfl, hlast, hkept⟩, hdrops⟩ := h.resolve_left hc
      refine ⟨before, later ++ [c], by rw [List.append_assoc, List.cons_append], ?_, fun between d rest h => ?_⟩
      · simpa [hlast] using Ne.symm hc
      · obtain ⟨rfl, rfl, -⟩ | ⟨tail, -, hlater⟩ := concat_eq_append_cons h
        · exact hdrops
        · exact hkept between d tail hlater

/-! ### Routes and calls agree -/

/-- The routes of a node agree with the calls that were made. -/
structure Records (w : World) (id : NodeId) (calls : List Call) (n : Node) : Prop where
  distinct : n.HasDistinctRoutes
  stands : ∀ output route, route ∈ n.routesFrom output ↔ Stands w id calls (output, route)
  /-- Of a route that arrived more than once the last arrival counts, which is what `List.dedup` keeps. -/
  order : ∀ output, ((n.routesFrom output).map (output, ·)).Sublist (arrivals id w calls).dedup

namespace Records

theorem start (hroutes : n.routes = []) : Records w id [] n := by
  have hfrom : ∀ output, n.routesFrom output = [] := fun output => by rw [Node.routesFrom, hroutes]; rfl
  refine ⟨.of_nil hroutes, fun output route => ?_, fun output => ?_⟩
  · rw [hfrom]
    refine ⟨fun h => absurd h List.not_mem_nil, ?_⟩
    rintro ⟨before, later, hcalls, -⟩
    simp at hcalls
  · rw [hfrom]
    exact List.nil_sublist _

/-- One more call. -/
theorem step (h : Records w id calls n) (hn : (w.after calls).node? id = some n)
    (hm : (w.after (calls ++ [c])).node? id = some m) : Records w id (calls ++ [c]) m := by
  rw [after_concat] at hm
  obtain rfl := id_of_node? hn
  have hroutes : m.routes = (c.rerouted (w.after calls) n).routes := c.reroutes (w.after calls) n m hn hm
  have hfrom : m.routesFrom = (c.rerouted (w.after calls) n).routesFrom := Node.routesFrom_congr hroutes
  refine ⟨(Call.hasDistinctRoutes_rerouted h.distinct).of_routes hroutes, fun output route => ?_,
    fun output => ?_⟩
  · rw [hfrom, Call.mem_routesFrom_rerouted, stands_concat, h.stands]
  · rw [hfrom, arrivals_concat]
    refine (Call.routesFrom_rerouted_sublist hn c output).trans ?_
    -- an arrival moves the route to the end of those that count
    cases harrival : c.arrival (w.after calls) n.id with
    | none => simpa using h.order output
    | some t => exact sublist_dedup_concat (h.order output) (Call.arrival_not_mem hn harrival output)

/-- Any calls, by induction on them from the last one. The handle keeps the node alive. -/
theorem after (hn : w.node? id = some n) (hheld : id ∈ w.held) (hroutes : n.routes = [])
    (calls : List Call) (hkept : .drop id ∉ calls) :
    id ∈ (w.after calls).held ∧ ∃ m, (w.after calls).node? id = some m ∧ Records w id calls m := by
  induction calls using List.reverseRecOn with
  | nil => exact ⟨hheld, n, hn, .start hroutes⟩
  | append_singleton calls c ih =>
    obtain ⟨hheld', m, hm, hrecords⟩ := ih fun h => hkept (List.mem_append_left _ h)
    have hspared : ∀ i ∈ [id], c ≠ .drop i := by
      rintro i hi rfl
      rw [List.mem_singleton.1 hi] at hkept
      exact hkept List.mem_concat_self
    obtain ⟨hheld'', hlive⟩ := Call.keeps (w.after calls) hspared (by simpa using hheld')
    rw [← after_concat] at hheld'' hlive
    obtain ⟨k, hk⟩ := isLive_iff.1 (hlive id (by simp) (isLive_of_node? hm))
    exact ⟨hheld''.subset (by simp), k, hk, hrecords.step hm hk⟩

end Records

/-- **The routes of a node are ordered sets**, one for each field. Let a node have no routes yet, and let a
handle hold it. After any calls that leave the handle alone, whether they are about the node or not: no route
is listed twice; the routes are those that were added and not taken away since; those of one field are listed
in the order in which they last arrived; adding a route is answered with true exactly if it is not there,
and removing one exactly if it is. -/
theorem connections_after (hn : w.node? id = some n) (hheld : id ∈ w.held) (hroutes : n.routes = [])
    (calls : List Call) (hkept : .drop id ∉ calls) :
    ∃ m, (w.after calls).node? id = some m ∧ m.connections.Nodup ∧
      (∀ t, t ∈ m.connections ↔ Stands w id calls t) ∧
      (∀ output, (m.connections.filter (·.1 == output)).Sublist (arrivals id w calls).dedup) ∧
      ∀ output route,
        (((w.after calls).addConnection id output route).1 = true ↔ (output, route) ∉ m.connections) ∧
        (((w.after calls).removeConnection id output route).1 = true ↔ (output, route) ∈ m.connections) := by
  obtain ⟨-, m, hm, h⟩ := Records.after hn hheld hroutes calls hkept
  refine ⟨m, hm, h.distinct.nodup_connections, fun t => ?_, fun output => ?_, fun output route => ?_⟩
  · rw [← h.stands]
    exact Node.mem_connections_iff h.distinct.outputs
  · rw [Node.filter_connections h.distinct.outputs]
    exact h.order output
  · rw [Node.mem_connections_iff h.distinct.outputs]
    exact ⟨addConnection_fst hm, removeConnection_fst hm⟩

/-! ### Routes that come and go -/

/-- A script as it is made. -/
def script : World := (Call.create Catalog.withScenes "Script" .detached).run {}

/-- A route to the script itself and one to a node that is not there leave a field that the script may lack,
are added again and removed, and a second field goes with its route. -/
def rerouting : List Call :=
  [.addConnection ⟨1⟩ "on" ⟨⟨1⟩, "name"⟩, .addField ⟨1⟩ "off" (.single .boolean false),
    .addConnection ⟨1⟩ "on" ⟨⟨9⟩, "name"⟩, .addConnection ⟨1⟩ "off" ⟨⟨1⟩, "name"⟩,
    .addConnection ⟨1⟩ "on" ⟨⟨1⟩, "name"⟩, .removeField ⟨1⟩ "on", .removeConnection ⟨1⟩ "on" ⟨⟨1⟩, "name"⟩,
    .addConnection ⟨1⟩ "on" ⟨⟨1⟩, "name"⟩, .removeField ⟨1⟩ "off"]

/-- The route that was added anew comes last. The field that the script lacks could not be taken away, and so its
routes stay. -/
theorem connections_after_rerouting :
    (script.node? ⟨1⟩).map (·.routes) = some [] ∧ ⟨1⟩ ∈ script.held ∧ .drop ⟨1⟩ ∉ rerouting ∧
      ∃ m, (script.after rerouting).node? ⟨1⟩ = some m ∧ m.connections.Nodup ∧
        m.connections = [("on", ⟨⟨9⟩, "name"⟩), ("on", ⟨⟨1⟩, "name"⟩)] ∧
        Stands script ⟨1⟩ rerouting ("on", ⟨⟨1⟩, "name"⟩) ∧
        ¬Stands script ⟨1⟩ rerouting ("off", ⟨⟨1⟩, "name"⟩) ∧
        m.connections.Sublist (arrivals ⟨1⟩ script rerouting).dedup ∧
        ((script.after rerouting).addConnection ⟨1⟩ "off" ⟨⟨1⟩, "name"⟩).1 = true := by
  have hmade : (script.node? ⟨1⟩).map (·.routes) = some [] := by decide +kernel
  have hheld : ⟨1⟩ ∈ script.held := by decide +kernel
  have hkept : .drop ⟨1⟩ ∉ rerouting := by simp [rerouting]
  obtain ⟨n, hn, hroutes⟩ := Option.map_eq_some_iff.1 hmade
  obtain ⟨m, hm, hnodup, hstands, horder, hanswers⟩ := connections_after hn hheld hroutes rerouting hkept
  have hconnections : m.connections = [("on", ⟨⟨9⟩, "name"⟩), ("on", ⟨⟨1⟩, "name"⟩)] := by
    have h : ((script.after rerouting).node? ⟨1⟩).map (·.connections) =
        some [("on", ⟨⟨9⟩, "name"⟩), ("on", ⟨⟨1⟩, "name"⟩)] := by decide +kernel
    rw [hm] at h
    exact Option.some.inj h
  refine ⟨hmade, hheld, hkept, m, hm, hnodup, hconnections, ?_, ?_, ?_, ?_⟩
  · rw [← hstands, hconnections]
    decide
  · rw [← hstands, hconnections]
    decide
  · have hon := horder "on"
    rwa [List.filter_eq_self.2 (by simp [hconnections])] at hon
  · rw [(hanswers "off" ⟨⟨1⟩, "name"⟩).1, hconnections]
    decide

end World

end SceneGraph
