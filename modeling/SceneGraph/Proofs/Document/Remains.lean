import SceneGraph.Proofs.Document.Dropping
import SceneGraph.Proofs.Document.Handles

/-!
# What a reading leaves behind

Nobody holds a node any longer that was given up while a document was read, so it goes, unless references hold it. What
a reading leaves behind is its scene, and besides it only what a cycle of references leads to, because a cycle
holds itself (`World.Entangled`). A node whose own body could not be read is on no such cycle, since it is emptied. But
the declarations inside of it may have been complete.

* `Reader.emptied_closeBody`: a node whose body could not be read has neither a name nor references.
* `Reader.entangled_of_declaration`: what stays of a declaration that came to nothing.
* `Document.reached_read`: whatever stays of a reading is reached from its scene or from a cycle.
* `Document.left_of_error`, `Document.restored_of_error`: what stays of a reading that failed, and when it is nothing.
-/

namespace SceneGraph

open Relation (ReflTransGen TransGen)

namespace World

variable {w₀ w w' : World} {env : Environment} {header : Header} {low : Nat} {empties : Bool} {id : NodeId}

/-- A cycle of references leads to the node, through nodes that were made later than some id was handed out. -/
def Entangled (w : World) (since : Nat) (id : NodeId) : Prop :=
  ∃ c : NodeId, since < c.value ∧ TransGen w.Refers c c ∧ ReflTransGen w.Refers c id

/-- Nothing is left of the node but its values that are no nodes. -/
def Emptied (w : World) (id : NodeId) : Prop := ∀ n ∈ w.nodes, n.id = id → n.references = [] ∧ n.name = ""

/-! ### Nodes that are emptied -/

/-- Setting up and letting go give no node a reference, nor a name. -/
theorem Emptied.trims {marks : NodeId → Prop} (h : w.Emptied id) (ht : Trims w₀ marks w w') : w'.Emptied id := by
  intro m hm hid
  obtain ⟨n, hn, htrimmed, -⟩ := ht.nodes m hm
  obtain ⟨hreferences, hname⟩ := h n hn (htrimmed.id ▸ hid)
  have hsub := htrimmed.references
  rw [hreferences] at hsub
  exact ⟨List.sublist_nil.1 hsub, htrimmed.name.trans hname⟩

theorem Emptied.drop (h : w.Emptied id) (other : NodeId) : (w.drop other).Emptied id := by
  have htrims : Trims {} (fun _ => False) w (w.drop other) := .dropAll w _
  exact h.trims htrims

theorem name_setName (h : w.liveIds.Nodup) {name : String} {n : Node} (hn : n ∈ (w.setName id name).nodes)
    (hid : n.id = id) : n.name = name := by
  obtain ⟨heq, hname⟩ | ⟨k, -, -, heq⟩ := setName_cases w id name <;> rw [heq] at hn
  · exact hname n (hid ▸ node?_of_mem h hn)
  · obtain ⟨m, -, rfl⟩ := List.mem_map.1 hn
    by_cases hm : m.id = id
    · rw [if_pos hm]
    · rw [if_neg hm] at hid
      exact absurd hid hm

/-- A node that is given up is emptied, whoever still holds it. -/
theorem Orderly.emptied_discard (h : Orderly w) (id : NodeId) : (w.discard id).Emptied id := by
  have hnamed : Orderly (w.setName id "") := h.change (.named w id "")
  have hforgotten : ((w.setName id "").modify id Node.forget).Emptied id := by
    intro m hm hid
    obtain ⟨n, hn, rfl⟩ := List.mem_map.1 hm
    by_cases hn' : n.id = id
    · have hname : n.name = "" := name_setName h.sound.distinct hn hn'
      rw [if_pos hn']
      exact ⟨hnamed.sound.references_forget Catalog.regular_withScenes hn, hname⟩
    · rw [if_neg hn'] at hid
      exact absurd hid hn'
  have htrims : Trims {} (fun _ => False) ((w.setName id "").modify id Node.forget) (w.discard id) := .release _ _
  exact hforgotten.trims htrims

/-! ### Nodes that cycles hold -/

/-- Where old nodes refer to old ones only, and only old ones are held, cycles of new nodes hold all the new ones. -/
theorem Upheld.entangled (h : Upheld [] w) {since : Nat}
    (hclosed : ∀ a b, w.Refers a b → a.value ≤ since → b.value ≤ since) (hheld : ∀ c ∈ w.held, c.value ≤ since)
    (hid : id ∈ w.liveIds) (hnew : since < id.value) : w.Entangled since id := by
  obtain ⟨c, hreaches, hsource⟩ := h.exists_source hid
  have hc : since < c.value := by
    by_contra hle
    have hold : ∀ b, ReflTransGen w.Refers c b → b.value ≤ since := by
      intro b hb
      induction hb with
      | refl => exact Nat.le_of_not_lt hle
      | tail _ hab ih => exact hclosed _ _ hab ih
    exact absurd (hold id hreaches) (Nat.not_le_of_gt hnew)
  exact ⟨c, hc, hsource.resolve_left fun hmem => absurd (hheld c hmem) (Nat.not_le_of_gt hc), hreaches⟩

/-- Edits of later nodes leave the earlier ones among themselves. -/
theorem Drafted.references_lt_edits (h : Drafted header env w) (hlow : env.scene.value < low)
    (he : Edits header env low empties w w') (hw : ∀ n ∈ w.nodes, n.id.value < low → ∀ r ∈ n.references, r.value < low) :
    ∀ n ∈ w'.nodes, n.id.value < low → ∀ r ∈ n.references, r.value < low := by
  induction he with
  | refl => exact hw
  | tail hes he ih =>
    intro m hm hid r hr
    rcases (h.edits hlow hes).origin he hm (.inr hid) with ⟨-, hnone, -⟩ | ⟨n, hn, hgrows, hsame, -⟩
    · rw [hnone] at hr
      cases hr
    · rw [hsame hid] at hr
      exact ih n hn (hgrows.id ▸ hid) r hr

namespace Beside

variable (h : Beside w₀ env w w')
include h

theorem refers {a b : NodeId} (hab : w.Refers a b) : w'.Refers (w₀.shift a) (w₀.shift b) := by
  obtain ⟨n, hn, -⟩ := hab.exists_node
  obtain rfl := id_of_node? hn
  rw [Refers, h.referencesOf (h.own n (mem_nodes_of_node? hn)).id]
  exact List.mem_map_of_mem hab

theorem entangled (hid : w.Entangled 0 id) : w'.Entangled w₀.registry.lastId (w₀.shift id) := by
  obtain ⟨c, hc, hcycle, hreaches⟩ := hid
  exact ⟨w₀.shift c, Nat.lt_add_of_pos_right hc, hcycle.lift w₀.shift fun _ _ => h.refers,
    hreaches.lift w₀.shift fun _ _ => h.refers⟩

end Beside

end World

namespace Reader

open World (Drafted Edits Emptied Upheld)

variable {ctx : DocumentContext} {header : Header} {s s' : ReaderState}

/-- What follows after a node was given up leaves it emptied. -/
theorem keeps_emptied_skip (id : NodeId) (typeName : String) (p : Position) (e : ReadError) :
    Keeps ctx (·.Emptied id) (do
      logError ctx e
      onFailure (skipBody ctx) (·.drop id)
      warn ctx p s!"skipped {typeName} node"
      act (·.drop id)
      return (none : Option NodeId)) fun _ => True := by
  have hlog : Keeps ctx (·.Emptied id) (logError ctx e) fun _ => True := .act fun _ hw => hw
  have hskip : Keeps ctx (·.Emptied id) (onFailure (skipBody ctx) (·.drop id)) fun _ => True :=
    Keeps.skipBody.onFailure fun _ hw => hw.drop id
  have hwarn : Keeps ctx (·.Emptied id) (warn ctx p s!"skipped {typeName} node") fun _ => True := .act fun _ hw => hw
  have hdrop : Keeps ctx (·.Emptied id) (act (·.drop id)) fun _ => True := .act fun _ hw => hw.drop id
  exact hlog.bind fun _ _ => hskip.bind fun _ _ => hwarn.bind fun _ _ => hdrop.bind fun _ _ => .pure trivial

/-- **A node whose body could not be read is emptied**, unless its type is at fault. So nothing that it referred to, and
not even itself, is held by it any longer, and nobody finds it by its name. -/
theorem emptied_closeBody (ho : Open ctx header s) (id : NodeId) (typeName : String) (p : Position) {e : ReadError}
    (he : ∀ l, e ≠ .layout l) : (exec (closeBody ctx id typeName p (.error e)) s).2.world.Emptied id := by
  have hemptied := ho.drafted.orderly.emptied_discard id
  cases e with
  | layout l => exact absurd rfl (he l)
  | cancelled => exact hemptied.drop id
  | endOfFile p => exact hemptied.drop id
  | _ => exact (keeps_emptied_skip id typeName p _ { s with world := s.world.discard id } hemptied ho.root).1

/-- **A declaration that comes to nothing leaves nothing behind but cycles of references**, and what these lead to. It
may have been `NULL`, be skipped or fail, at any depth and at any place of a document; handles are as they were. -/
theorem entangled_of_declaration (hcatalog : ctx.catalog = Catalog.standard) (ho : Open ctx header s)
    (hupheld : Upheld [] s.world) {depth : Nat} {r : Except ReadError (Option NodeId)}
    (hrun : exec (declarationUpTo ctx depth) s = (r, s')) (hnone : ∀ id, r ≠ .ok (some id)) :
    s'.world.held.Perm s.world.held ∧ ∀ n ∈ s'.world.nodes, s.world.registry.lastId < n.id.value →
      s'.world.Entangled s.world.registry.lastId n.id := by
  have horderly := ho.drafted.orderly
  have hlow : ctx.environment.scene.value < s.world.registry.lastId + 1 :=
    Nat.lt_succ_of_le (horderly.issued (World.mem_nodes_of_node? ho.drafted.root))
  have hends := Reads.declarationUpTo hlow hcatalog depth s s.world.held ho (Nat.le_refl _) (.refl _)
    ho.drafted.rootHeld
  obtain ⟨hheld, -⟩ := Accounts.declarationUpTo depth s s.world.held (.refl _) ho.root
  obtain ⟨hupheld', -⟩ := (Upheld.invariant ctx).declarationUpTo depth s hupheld ho.root
  rw [hrun] at hends hheld hupheld'
  obtain ⟨b, hedits⟩ : ∃ b, Edits header ctx.environment (s.world.registry.lastId + 1) b s.world s'.world := by
    cases r with
    | error e => exact hends.edits.imp fun _ he => he.1
    | ok o => exact hends.1.edits.imp fun _ he => he.1
  have hheld : s'.world.held.Perm s.world.held := by
    rcases r with e | _ | id
    · exact hheld
    · exact hheld
    · exact absurd rfl (hnone id)
  refine ⟨hheld, fun n hn hnew => hupheld'.entangled (fun a b' hab ha => ?_) (fun c hc => ?_)
    (List.mem_map_of_mem hn) hnew⟩
  · -- at the beginning every node was an earlier one
    have hbefore : ∀ n ∈ s.world.nodes, n.id.value < s.world.registry.lastId + 1 →
        ∀ r ∈ n.references, r.value < s.world.registry.lastId + 1 := by
      intro n hn _ r hr
      obtain ⟨m, hm⟩ := World.isLive_iff.1 (horderly.isLive_reference hn hr)
      have hissued := horderly.issued (World.mem_nodes_of_node? hm)
      rw [World.id_of_node? hm] at hissued
      exact Nat.lt_succ_of_le hissued
    obtain ⟨m, hm, hb⟩ := hab.exists_node
    obtain rfl := World.id_of_node? hm
    exact Nat.le_of_lt_succ (ho.drafted.references_lt_edits hlow hedits hbefore m (World.mem_nodes_of_node? hm)
      (Nat.lt_succ_of_le ha) b' hb)
  · obtain ⟨m, hm⟩ := World.isLive_iff.1 (horderly.sound.held c (hheld.mem_iff.1 hc))
    have hissued := horderly.issued (World.mem_nodes_of_node? hm)
    rwa [World.id_of_node? hm] at hissued

/-- Where references form no cycle, no `USE` and no `ROUTE` that follows finds a node of such a declaration. -/
theorem id_le_of_findInScene? (hcatalog : ctx.catalog = Catalog.standard) (ho : Open ctx header s)
    (hupheld : Upheld [] s.world) {depth : Nat} {r : Except ReadError (Option NodeId)}
    (hrun : exec (declarationUpTo ctx depth) s = (r, s')) (hnone : ∀ id, r ≠ .ok (some id))
    (hacyclic : ∀ id : NodeId, s.world.registry.lastId < id.value → ¬ TransGen s'.world.Refers id id)
    {name : String} {scene : NodeId} {n : Node} (hfind : s'.world.findInScene? name scene = some n) :
    n.id.value ≤ s.world.registry.lastId := by
  obtain ⟨id, -, hn⟩ := List.mem_filterMap.1 (List.mem_of_find?_eq_some hfind)
  by_contra hnew
  obtain ⟨-, hentangled⟩ := entangled_of_declaration hcatalog ho hupheld hrun hnone
  obtain ⟨c, hc, hcycle, -⟩ := hentangled n (World.mem_nodes_of_node? hn) (Nat.lt_of_not_le hnew)
  exact hacyclic c hc hcycle

end Reader

namespace Document

open World (Upheld)

variable {d : Document} {w₀ : World}

/-- **Whatever stays of a reading is reached from its scene or from a cycle of references**, and nothing is if the
reading failed. -/
theorem reached_read (hw : w₀.Issued) (hcatalog : d.catalog = Catalog.standard) {n : Node}
    (hn : n ∈ (d.read w₀).world.nodes) (hnew : w₀.registry.lastId < n.id.value) :
    (∃ scene, (d.read w₀).result = .ok scene ∧ ReflTransGen (d.read w₀).world.Refers scene.root n.id) ∨
      (d.read w₀).world.Entangled w₀.registry.lastId n.id := by
  obtain ⟨hbeside, hresult, -⟩ := beside_read hw hcatalog
  rw [hbeside.nodes] at hn
  rcases List.mem_append.1 hn with hn | hn
  · exact absurd (hw.ids n hn) (Nat.not_le_of_gt hnew)
  obtain ⟨m, hm, rfl⟩ := List.mem_map.1 hn
  obtain ⟨c, hreaches, hheld | hcycle⟩ := (upheld_read hcatalog).exists_source (List.mem_map_of_mem hm)
  · have hheld := (held_read d {}).mem_iff.1 hheld
    rw [hresult]
    cases hown : (d.read {}).result with
    | error e =>
      rw [hown] at hheld
      cases hheld
    | ok own =>
      rw [hown] at hheld
      change c ∈ [own.root] at hheld
      obtain rfl := List.mem_singleton.1 hheld
      exact .inl ⟨_, rfl, hreaches.lift w₀.shift fun _ _ => hbeside.refers⟩
  · obtain ⟨b, hb, -⟩ := (Relation.TransGen.head'_iff).1 hcycle
    obtain ⟨k, hk, -⟩ := hb.exists_node
    obtain rfl := World.id_of_node? hk
    have hpos := (hbeside.own k (World.mem_nodes_of_node? hk)).id
    exact .inr (hbeside.entangled ⟨k.id, hpos, hcycle, hreaches⟩)

/-- The handles after a reading: the one of the root of its scene comes first, if it was read. -/
theorem held_read_eq (hw : w₀.Issued) (hcatalog : d.catalog = Catalog.standard) :
    (d.read w₀).world.held = ((d.read w₀).result.toOption.map Scene.root).toList ++ w₀.held := by
  obtain ⟨hbeside, hresult, -⟩ := beside_read hw hcatalog
  have hown : (d.read {}).world.held = ((d.read {}).result.toOption.map Scene.root).toList := by
    have hperm := held_read d {}
    rw [List.append_nil] at hperm
    cases hroot : (d.read {}).result.toOption.map Scene.root with
    | none =>
      rw [hroot] at hperm
      exact hperm.eq_nil
    | some root =>
      rw [hroot] at hperm
      exact List.perm_singleton.1 hperm
  rw [hbeside.held, hown, hresult]
  cases (d.read {}).result <;> rfl

/-- **A reading that fails leaves nothing behind but cycles of references**, and what these lead to. Every id that is in
use anywhere was handed out. Then the nodes that were there before are as they were, no handle was taken, and the lists
and names of the registry are those from before with the nodes that stay behind them. -/
theorem left_of_error (hw : w₀.Sealed) (hcatalog : d.catalog = Catalog.standard) {e : ReadError}
    (hread : (d.read w₀).result = .error e) :
    (d.read w₀).world.held = w₀.held ∧ ∃ left,
      (d.read w₀).world.nodes = w₀.nodes ++ left ∧
      (∀ n ∈ left, (d.read w₀).world.Entangled w₀.registry.lastId n.id) ∧
      (d.read w₀).world.registry.ids = w₀.registry.ids ++ left.map Node.id ∧
      (d.read w₀).world.registry.updating =
        w₀.registry.updating ++ (left.filter (·.capabilities.update)).map Node.id ∧
      (d.read w₀).world.registry.sensing =
        w₀.registry.sensing ++ (left.filter (·.capabilities.event)).map Node.id ∧
      ∃ names, (d.read w₀).world.registry.names = w₀.registry.names ++ names ∧ ∀ e ∈ names, e.2 ∈ left.map Node.id := by
  obtain ⟨hbeside, -⟩ := beside_read hw.toIssued hcatalog
  have hheld := held_read_eq hw.toIssued hcatalog
  rw [hread] at hheld
  have hnodes := hbeside.nodes
  generalize hleft : (d.read {}).world.nodes.map (·.mapNodes w₀.shift) = left at hnodes
  have hentangled : ∀ n ∈ left, (d.read w₀).world.Entangled w₀.registry.lastId n.id := by
    intro n hn
    obtain ⟨m, hm, rfl⟩ := List.mem_map.1 (hleft ▸ hn)
    have hnew : w₀.registry.lastId < (w₀.shift m.id).value := Nat.lt_add_of_pos_right (hbeside.own m hm).id
    refine (reached_read hw.toIssued hcatalog (hnodes ▸ List.mem_append_right _ hn) hnew).resolve_left ?_
    rintro ⟨scene, hscene, -⟩
    rw [hread] at hscene
    cases hscene
  -- the nodes from before are still there, so the registry lists what came later behind them
  obtain ⟨later, hadds⟩ := (listsSince_read hw d).later fun id hid => by
    rw [World.liveIds, hnodes, List.map_append]
    exact List.mem_append_left _ hid
  have hlater : later = left.map fun n => (n.id, n.capabilities) := by
    have hcensus := hadds.census
    rw [World.census, hnodes, List.map_append] at hcensus
    exact (List.append_cancel_left hcensus).symm
  have hids : later.map (·.1) = left.map Node.id := by
    rw [hlater, List.map_map]
    rfl
  have hlisted : ∀ p : Capabilities → Bool,
      (later.filter (p ·.2)).map (·.1) = (left.filter (p ·.capabilities)).map Node.id := by
    intro p
    rw [hlater, List.filter_map, List.map_map]
    rfl
  refine ⟨hheld, left, hnodes, hentangled, hids ▸ hadds.ids, hlisted Capabilities.update ▸ hadds.updating,
    hlisted Capabilities.event ▸ hadds.sensing, _, hbeside.names, fun e he => ?_⟩
  obtain ⟨name, hname, rfl⟩ := List.mem_map.1 he
  obtain ⟨history, hrecorded⟩ := (upheld_read hcatalog).recorded
  obtain ⟨n, hn, hid⟩ := List.mem_map.1 (World.mem_liveIds.2 (hrecorded.of_mem_names hname).2.2)
  exact List.mem_map.2 ⟨n.mapNodes w₀.shift, hleft ▸ List.mem_map_of_mem hn, congrArg w₀.shift hid⟩

/-- **A reading that fails leaves no trace** but the ids that it used up, unless references among the nodes that it made
form a cycle. -/
theorem restored_of_error (hw : w₀.Sealed) (hcatalog : d.catalog = Catalog.standard) {e : ReadError}
    (hread : (d.read w₀).result = .error e)
    (hacyclic : ∀ id : NodeId, w₀.registry.lastId < id.value → ¬ TransGen (d.read w₀).world.Refers id id) :
    (d.read w₀).world.nodes = w₀.nodes ∧ (d.read w₀).world.held = w₀.held ∧
      (d.read w₀).world.registry = { w₀.registry with lastId := (d.read w₀).world.registry.lastId } := by
  obtain ⟨hheld, left, hnodes, hentangled, -, -, -, names, hnames, hlive⟩ := left_of_error hw hcatalog hread
  obtain rfl : left = [] := List.eq_nil_iff_forall_not_mem.2 fun n hn => by
    obtain ⟨c, hc, hcycle, -⟩ := hentangled n hn
    exact hacyclic c hc hcycle
  obtain rfl : names = [] := List.eq_nil_iff_forall_not_mem.2 fun e he => List.not_mem_nil (hlive e he)
  rw [List.append_nil] at hnodes hnames
  refine ⟨hnodes, hheld, ?_⟩
  rw [(listsSince_read hw d).restored hnodes, hnames]

/-- A group that lists itself, and a request to stop when it was read. -/
def coil : Document where
  text := "#VRML V2.0 utf8\nDEF A Group \x7b children [ USE A ] \x7d\nGroup \x7b \x7d\n"
  file := "coil.wrl"
  check := .any
  catalog := Catalog.standard
  time := .unset
  now := .unset
  control := { cancelAt := some 1 }

-- the group stays, under its name: nobody emptied it, as its own body was read
example : (coil.read {}).result.toOption = none ∧ (coil.read {}).world.liveIds = [⟨2⟩] ∧
    (coil.read {}).world.registry.names = [("A", ⟨2⟩)] := by decide +kernel

/-- **A scene may go as a whole as soon as it was read**, unless references among its nodes form a cycle: nobody but the
reader holds a node of it, and the reader holds its root. -/
theorem releasable_read (hw : w₀.Issued) (hcatalog : d.catalog = Catalog.standard) {scene : Scene}
    (hread : (d.read w₀).result = .ok scene)
    (hacyclic : ∀ id, ¬ TransGen ((d.read w₀).world.RefersWithin scene.root) id id) :
    (d.read w₀).world.Releasable scene.root := by
  refine ⟨hacyclic, fun id hid => ?_⟩
  obtain ⟨hbeside, -⟩ := beside_read hw hcatalog
  obtain ⟨own, -, hroot⟩ := exists_read_own hw hcatalog hread
  rw [hroot] at hid
  obtain ⟨a, ha, rfl⟩ := (hbeside.belongsTo_iff Nat.one_pos).1 hid
  obtain ⟨m, hm, rfl⟩ := List.mem_map.1 ha
  have hnew : w₀.shift m.id ∉ w₀.held := fun hmem => World.ne_shift (hw.held _ hmem) (hbeside.own m hm).id rfl
  have hheld := held_read_eq hw hcatalog
  rw [hread] at hheld
  have hheld : (d.read w₀).world.held = scene.root :: w₀.held := hheld
  rw [hheld, List.count_cons, List.count_eq_zero_of_not_mem hnew, Nat.zero_add]
  exact if_congr (beq_iff_eq.trans eq_comm) rfl rfl

end Document

end SceneGraph
