import SceneGraph.Proofs.Document.Declaring

/-!
# What a whole document does to the world

The statements of a document leave a list of top-level nodes behind. They are ordered by when they were
made, and what was made before one of them does not refer to it or to anything made later
(`World.Layered`).

* `Reader.Stage.statements`: this is so after any number of statements.
-/

namespace SceneGraph

open World (Drafted Edits ClosedBelow RoutesFit)

namespace World

variable {header : Header} {env : Environment} {low bound : Nat} {empties : Bool} {w w' : World}

/-- Nodes in the order in which they were made, each of them closing off what was made before. -/
structure Layered (env : Environment) (w : World) (ids : List NodeId) : Prop where
  inner : ∀ c ∈ ids, env.scene.value < c.value
  ordered : ids.Pairwise (·.value < ·.value)
  closed : ∀ c ∈ ids, w.ClosedBelow env c.value

theorem Drafted.closedBelow_edits (h : Drafted header env w) (hlow : env.scene.value < low)
    (he : Edits header env low empties w w') (hbound : bound ≤ low) (hc : w.ClosedBelow env bound) :
    w'.ClosedBelow env bound := by
  induction he with
  | refl => exact hc
  | tail hes he ih => exact (h.edits hlow hes).closedBelow he hbound ih

theorem Drafted.routesFit_edits (h : Drafted header env w) (hlow : env.scene.value < low)
    (he : Edits header env low empties w w') (hbound : empties = false ∨ bound ≤ low)
    (hr : w.RoutesFit env bound) : w'.RoutesFit env bound := by
  induction he with
  | refl => exact hr
  | tail hes he ih => exact (h.edits hlow hes).routesFit he hbound ih

/-- All nodes are made by now, so any later bound is as good. -/
theorem Drafted.routesFit_of_last (h : Drafted header env w)
    (hr : w.RoutesFit env (w.registry.lastId + 1)) (bound : Nat) : w.RoutesFit env bound := by
  intro a ha hroot _ c hc b hb hbc _
  have hida := h.orderly.issued ha
  have hidb := h.orderly.issued hb
  exact hr a ha hroot (by omega) c hc b hb hbc (by omega)

end World

namespace Reader

variable {α : Type} {ctx : DocumentContext} {header : Header} {w₀ : World} {s s' : ReaderState}
  {rest before : List NodeId} {bound : Nat}

/-! ### The node of a declaration -/

/-- If the reader answers with a node, it is one of the given ones. -/
def Answers (p : Reader (Option NodeId)) (P : ReaderState → NodeId → Prop) : Prop :=
  ∀ s r s', exec p s = (.ok (some r), s') → P s r

/-- The reader leaves the world alone unless it fails. -/
def Still (p : Reader α) : Prop := ∀ s a s', exec p s = (.ok a, s') → s'.world = s.world

/-- The node that is made next. -/
def IsNext (s : ReaderState) (r : NodeId) : Prop := r.value = s.world.registry.lastId + 1

namespace Still

theorem get : Still (get : Reader ReaderState) := fun s a s' h => by
  obtain ⟨-, rfl⟩ := Prod.mk.inj h
  rfl

theorem last : Still last := fun s a s' h => by
  obtain ⟨-, rfl⟩ := Prod.mk.inj h
  rfl

theorem map {β : Type} {p : Reader α} (h : Still p) (f : α → β) : Still (f <$> p) := by
  intro s b s' hrun
  rw [exec_map] at hrun
  obtain ⟨hok, rfl⟩ := Prod.mk.inj hrun
  cases ha : (exec p s).1 with
  | error e => rw [ha] at hok; cases hok
  | ok a => exact h s a _ (Prod.ext ha rfl)

theorem pure (a : α) : Still (Pure.pure a : Reader α) := fun s b s' h => by
  obtain ⟨-, rfl⟩ := Prod.mk.inj h
  rfl

theorem optionalKeyword (k : Keyword) : Still (optionalKeyword ctx k) := by
  intro s b s' h
  rw [Reader.optionalKeyword, exec_bind_ok (exec_peek? s)] at h
  split at h
  · obtain ⟨s'', hrun, hw, -⟩ := exec_pop_any ctx s
    rw [exec_bind_ok hrun] at h
    obtain ⟨-, rfl⟩ := Prod.mk.inj h
    exact hw
  · obtain ⟨-, rfl⟩ := Prod.mk.inj h
    rfl

theorem identifier (expected : String) : Still (identifier ctx expected) := by
  intro s name s' h
  rw [Reader.identifier, token, exec_bind_ok (exec_peek? s)] at h
  split at h
  · obtain ⟨s'', hrun, hw, -⟩ := exec_pop_any ctx s
    rw [exec_bind_ok hrun] at h
    obtain ⟨-, rfl⟩ := Prod.mk.inj h
    exact hw
  · rw [unexpected, exec_bind_ok (exec_peek? s)] at h
    split at h
    · rw [exec_bind_ok (exec_position ctx s)] at h
      cases (Prod.mk.inj h).1
    · cases (Prod.mk.inj h).1

end Still

namespace Answers

variable {P : ReaderState → NodeId → Prop}

theorem bind {p : Reader α} {q : α → Reader (Option NodeId)}
    (h : ∀ s a s', exec p s = (.ok a, s') → ∀ r s'', exec (q a) s' = (.ok (some r), s'') → P s r) :
    Answers (p >>= q) P := by
  intro s r s'' hrun
  rw [exec_bind] at hrun
  split at hrun
  · rename_i a s' hp
    exact h s a s' hp r s'' hrun
  · cases (Prod.mk.inj hrun).1

theorem failed (e : ReadError) : Answers (throw e) P := fun s r s' h => by cases (Prod.mk.inj h).1

theorem nothing : Answers (Pure.pure none) P := fun s r s' h => by cases (Prod.mk.inj h).1

theorem any_bind {p : Reader α} {q : α → Reader (Option NodeId)} {Q : NodeId → Prop}
    (h : ∀ a, Answers (q a) fun _ => Q) : Answers (p >>= q) fun _ => Q :=
  bind fun _ a s' _ r s'' hq => h a s' r s'' hq

theorem still_bind {p : Reader α} {q : α → Reader (Option NodeId)} (hp : Still p)
    (h : ∀ a, Answers (q a) IsNext) : Answers (p >>= q) IsNext := by
  refine bind fun s a s' hrun r s'' hq => ?_
  have hr : r.value = s'.world.registry.lastId + 1 := h a s' r s'' hq
  rwa [hp s a s' hrun] at hr

theorem closeBody (id : NodeId) (typeName : String) (p : Position) (r : Except ReadError Unit) :
    Answers (closeBody ctx id typeName p r) fun _ => (· = id) := by
  cases r with
  | ok _ =>
    intro s r s' h
    exact (Option.some.inj (Except.ok.inj (Prod.mk.inj h).1)).symm
  | error e =>
    have hskip : Answers (do
        act (·.discard id)
        logError ctx e
        onFailure (skipBody ctx) (·.drop id)
        warn ctx p s!"skipped {typeName} node"
        act (·.drop id)
        return Option.none) fun _ => (· = id) :=
      any_bind fun _ => any_bind fun _ => any_bind fun _ => any_bind fun _ => any_bind fun _ => nothing
    have hgiveUp : Answers (do act (fun w => (w.discard id).drop id); throw e) fun _ => (· = id) :=
      any_bind fun _ => failed e
    cases e with
    | layout e => exact any_bind fun _ => failed _
    | cancelled => exact hgiveUp
    | endOfFile p => exact hgiveUp
    | _ => exact hskip

theorem request {typeName : String} {id : NodeId} (h : exec (request ctx typeName) s = (.ok (some id), s')) :
    IsNext s id := by
  rw [Reader.request, exec_bind_ok (exec_modify _ s), exec_bind_ok (exec_act _ _),
    exec_bind_ok (exec_get _)] at h
  generalize hcreate : World.createOfType _ _ _ _ = created at h
  obtain e | ⟨o, w⟩ := created
  · cases (Prod.mk.inj h).1
  have ho : o = some id := Except.ok.inj (Prod.mk.inj h).1
  subst ho
  obtain ⟨hnone, -⟩ | ⟨t, -, spec, w', hspec, hid, -⟩ := World.createOfType_cases hcreate
  · cases hnone
  · obtain ⟨table, rfl⟩ := World.specification_eq hspec
    rw [Option.some.inj hid]
    rfl

theorem afterName (nested : Reader (Option NodeId)) (name : Option String) :
    Answers (afterName ctx nested name) IsNext := by
  refine still_bind (.identifier _) fun typeName => still_bind .last fun p => ?_
  refine bind fun s o s' hrequest r s'' hrun => ?_
  cases o with
  | none =>
    have hnone : Answers (do
        symbol ctx .nodeBegin
        skipBody ctx
        warn ctx p s!"skipped unknown node type '{typeName}'"
        return Option.none) fun _ _ => False :=
      any_bind fun _ => any_bind fun _ => any_bind fun _ => nothing
    exact (hnone s' r s'' hrun).elim
  | some id =>
    have hid : Answers (do
        onFailure (symbol ctx .nodeBegin) (·.drop id)
        Reader.closeBody ctx id typeName p (← attempt (body ctx nested id))) fun _ => (· = id) :=
      any_bind fun _ => any_bind fun _ => closeBody _ _ _ _
    have hr : r = id := by
      cases name with
      | none => exact hid s' r s'' hrun
      | some name =>
        have hnamed : Answers (do
            act (·.setName id name)
            onFailure (symbol ctx .nodeBegin) (·.drop id)
            Reader.closeBody ctx id typeName p (← attempt (body ctx nested id))) fun _ => (· = id) :=
          any_bind fun _ => hid
        exact hnamed s' r s'' hrun
    exact hr ▸ request hrequest

/-- A declaration answers with the node that it has made first. -/
theorem declarationUpTo (depth : Nat) : Answers (declarationUpTo ctx depth) IsNext := by
  cases depth with
  | zero => exact failed _
  | succ depth =>
    rw [declarationUpTo_succ]
    refine still_bind .get fun s => ?_
    split
    · exact failed _
    refine still_bind (.optionalKeyword _) fun _ => ?_
    split
    · exact nothing
    refine still_bind (.optionalKeyword _) fun _ => ?_
    dsimp only
    split
    · exact still_bind ((Still.identifier _).map _) fun _ => afterName _ _
    · exact still_bind (.pure _) fun _ => afterName _ _

theorem statement : Answers (statement ctx) IsNext := by
  have hnone : ∀ {p : Reader Unit}, Answers (do p; return Option.none) IsNext :=
    bind fun _ _ s' _ r s'' h => by cases (Prod.mk.inj h).1
  refine still_bind (.optionalKeyword _) fun _ => ?_
  split
  · exact hnone
  refine still_bind (.optionalKeyword _) fun _ => ?_
  split
  · exact hnone
  refine still_bind (.optionalKeyword _) fun _ => ?_
  split
  · exact hnone
  · exact still_bind .get fun s => declarationUpTo _

end Answers

/-! ### Statements, one after the other -/

/-- How far the reading of a document has come since a world: the top-level nodes `before` are held and
layered, nodes made before `bound` are among themselves, and their routes fit unless a declaration was
skipped. -/
structure Stage (ctx : DocumentContext) (header : Header) (w₀ : World) (rest before : List NodeId)
    (bound : Nat) (s : ReaderState) : Prop where
  reading : Open ctx header s
  held : ∃ leaked, s.world.held.Perm (before ++ (leaked ++ rest))
  journal : w₀.journal <:+ s.world.journal
  layered : s.world.Layered ctx.environment before
  bounded : ∀ c ∈ before, c.value < bound
  closed : s.world.ClosedBelow ctx.environment bound
  routes : ¬ w₀.Skipped ctx.file s.world → s.world.RoutesFit ctx.environment bound
  issued : bound ≤ s.world.registry.lastId + 1

namespace Stage

theorem root_lt (h : Stage ctx header w₀ rest before bound s) :
    ctx.environment.scene.value < s.world.registry.lastId + 1 := by
  have hissued := h.reading.drafted.orderly.issued (World.mem_nodes_of_node? h.reading.drafted.root)
  exact Nat.lt_succ_of_le hissued

/-- Only tokens are taken, and the host is told about it. -/
theorem take (h : Stage ctx header w₀ rest before bound s) (hw : s'.world = s.world)
    (hscene : s'.scene = s.scene) (ht : s'.tokens <:+ s.tokens) :
    Stage ctx header w₀ rest before bound s' where
  reading := ⟨hw ▸ h.reading.drafted, hscene ▸ h.reading.root, hscene ▸ h.reading.tidy,
    fun t hmem => h.reading.valid t (ht.subset hmem)⟩
  held := hw ▸ h.held
  journal := hw ▸ h.journal
  layered := hw ▸ h.layered
  bounded := h.bounded
  closed := hw ▸ h.closed
  routes := hw ▸ h.routes
  issued := hw ▸ h.issued

/-- Nodes made from now on do not change what holds of those made before. -/
theorem pass {failed : Bool} {kept : List NodeId}
    (h : Stage ctx header w₀ rest before (s.world.registry.lastId + 1) s) {leaked : List NodeId}
    (hpass : Passes ctx header (s.world.registry.lastId + 1) (before ++ (leaked ++ rest)) s s' kept failed) :
    Stage ctx header w₀ rest before (s.world.registry.lastId + 1) s' := by
  obtain ⟨b, he, -⟩ := hpass.edits
  have hdrafted := h.reading.drafted
  refine ⟨hpass.open h.root_lt h.reading, ?_, h.journal.trans (World.journal_edits he),
    ⟨h.layered.inner, h.layered.ordered, fun c hc => ?_⟩, h.bounded, ?_, fun hskip => ?_,
    Nat.succ_le_succ hpass.lastId⟩
  · obtain ⟨more, hheld⟩ := hpass.held
    refine ⟨kept ++ (more ++ leaked), hheld.trans (List.perm_iff_count.2 fun id => ?_)⟩
    simp only [List.count_append]
    omega
  · exact hdrafted.closedBelow_edits h.root_lt he (Nat.le_of_lt (h.bounded c hc)) (h.layered.closed c hc)
  · exact hdrafted.closedBelow_edits h.root_lt he (Nat.le_refl _) h.closed
  · have hskip' : ¬ w₀.Skipped ctx.file s.world :=
      fun hskipped => hskip (skipped_trans (World.journal_edits he) hskipped)
    exact hdrafted.routesFit_edits h.root_lt he (.inr (Nat.le_refl _)) (h.routes hskip')

/-- All nodes made so far count. -/
theorem raise {low : Nat} (h : Stage ctx header w₀ rest before low s)
    (hroutes : ¬ w₀.Skipped ctx.file s.world →
      s.world.RoutesFit ctx.environment (s.world.registry.lastId + 1)) :
    Stage ctx header w₀ rest before (s.world.registry.lastId + 1) s :=
  { h with
    bounded := fun c hc => Nat.lt_of_lt_of_le (h.bounded c hc) h.issued
    closed := h.reading.drafted.closedBelow_last
    routes := hroutes
    issued := Nat.le_refl _ }

/-- A statement that did not end the reading. -/
theorem next {kept leaked : List NodeId}
    (h : Stage ctx header w₀ rest before (s.world.registry.lastId + 1) s)
    (hpass : Passes ctx header (s.world.registry.lastId + 1) (before ++ (leaked ++ rest)) s s' kept false) :
    Stage ctx header w₀ rest before (s'.world.registry.lastId + 1) s' := by
  refine (h.pass hpass).raise fun hskip => ?_
  obtain ⟨b, he, hb⟩ := hpass.edits
  have hdrafted := h.reading.drafted
  have hskip' : ¬ w₀.Skipped ctx.file s.world :=
    fun hskipped => hskip (skipped_trans (World.journal_edits he) hskipped)
  have hempties : b = false := by
    cases b with
    | false => rfl
    | true => exact (hskip (skipped_of_suffix h.journal ((hb rfl).resolve_left nofun))).elim
  exact hdrafted.routesFit_edits h.root_lt he (.inl hempties)
    (hdrafted.routesFit_of_last (h.routes hskip') _)

/-- The node that a statement made becomes the last of the top-level nodes. -/
theorem snoc {leaked : List NodeId} {r : NodeId}
    (h : Stage ctx header w₀ rest before (s.world.registry.lastId + 1) s)
    (hpass : Passes ctx header (s.world.registry.lastId + 1) (before ++ (leaked ++ rest)) s s' [r] false)
    (hr : IsNext s r) : Stage ctx header w₀ rest (before ++ [r]) (s'.world.registry.lastId + 1) s' := by
  have hnext := h.next hpass
  obtain ⟨b, he, -⟩ := hpass.edits
  have hr : r.value = s.world.registry.lastId + 1 := hr
  obtain ⟨more, hheld⟩ := hpass.held
  have hlive := hnext.reading.drafted.orderly.sound.held r (hheld.mem_iff.2 (by simp))
  obtain ⟨n, hn⟩ := World.isLive_iff.1 hlive
  have hissued := hnext.reading.drafted.orderly.issued (World.mem_nodes_of_node? hn)
  rw [World.id_of_node? hn] at hissued
  refine { hnext with held := ?_, layered := ⟨?_, ?_, ?_⟩, bounded := ?_ }
  · refine ⟨more ++ leaked, hheld.trans (List.perm_iff_count.2 fun id => ?_)⟩
    simp only [List.count_append]
    omega
  · exact List.forall_mem_append.2 ⟨h.layered.inner, fun c hc => by
      rw [List.mem_singleton.1 hc, hr]
      exact h.root_lt⟩
  · refine List.pairwise_append.2 ⟨h.layered.ordered, List.pairwise_singleton _ _, fun c hc d hd => ?_⟩
    rw [List.mem_singleton.1 hd, hr]
    exact h.bounded c hc
  · refine List.forall_mem_append.2 ⟨hnext.layered.closed, fun c hc => ?_⟩
    rw [List.mem_singleton.1 hc, hr]
    exact h.reading.drafted.closedBelow_edits h.root_lt he (Nat.le_refl _) h.closed
  · refine List.forall_mem_append.2 ⟨hnext.bounded, fun c hc => ?_⟩
    rw [List.mem_singleton.1 hc]
    exact Nat.lt_succ_of_le hissued

end Stage

theorem exec_publishProgress (ctx : DocumentContext) (s : ReaderState) :
    ∃ progress, exec (publishProgress ctx) s = (.ok (), { s with progress }) := by
  rw [publishProgress, exec_bind_ok (exec_get s)]
  split
  · split
    · exact ⟨_, rfl⟩
    · exact ⟨s.progress, rfl⟩
  · exact ⟨s.progress, rfl⟩

/-- **Statements**, by induction on how many may follow: the top-level nodes are held and layered. -/
theorem Stage.statements (hcatalog : ctx.catalog = Catalog.standard)
    (hroot : ctx.environment.scene ∈ rest) {ids : List NodeId} {n : Nat}
    (h : Stage ctx header w₀ rest before (s.world.registry.lastId + 1) s)
    (hrun : exec (statements ctx n before) s = (.ok ids, s')) :
    ∃ bound, Stage ctx header w₀ rest ids bound s' := by
  induction n generalizing before s with
  | zero =>
    obtain ⟨hids, rfl⟩ := Prod.mk.inj hrun
    exact ⟨_, Except.ok.inj hids ▸ h⟩
  | succ n ih =>
    rw [Reader.statements, exec_bind_ok (exec_peek? s)] at hrun
    split at hrun
    · obtain ⟨hids, rfl⟩ := Prod.mk.inj hrun
      exact ⟨_, Except.ok.inj hids ▸ h⟩
    obtain ⟨progress, hprogress⟩ := exec_publishProgress ctx s
    rw [exec_bind_ok hprogress, exec_bind_ok (exec_get _), exec_bind_ok (exec_attempt _ _)] at hrun
    replace h : Stage ctx header w₀ rest before
        (({ s with progress } : ReaderState).world.registry.lastId + 1) { s with progress } :=
      h.take rfl rfl List.suffix_rfl
    generalize ({ s with progress } : ReaderState) = t at h hrun
    obtain ⟨leaked, hheld⟩ := h.held
    -- what the statement held and left behind comes before the nodes that were held already
    have hread := Reads.statement h.root_lt hcatalog t (before ++ (leaked ++ rest)) h.reading (Nat.le_refl _)
      hheld (by simp [hroot])
    have hnext : ∀ r t', exec (statement ctx) t = (.ok (some r), t') → IsNext t r := Answers.statement t
    generalize exec (statement ctx) t = result at hread hnext hrun
    obtain ⟨e | o, t'⟩ := result
    · have hpass : Passes ctx header (t.world.registry.lastId + 1) (before ++ (leaked ++ rest)) t t' []
          e.isFatal := hread
      -- an error that does not end the reading is noted; where the statement took nothing, one token is skipped
      have hgo : e.isFatal = false → exec (do
            logError ctx e
            if (← get).lexemes.length = t.lexemes.length then pop ctx
            Reader.statements ctx n before) t' = (.ok ids, s') →
          ∃ bound, Stage ctx header w₀ rest ids bound s' := by
        intro hfatal hrun
        rw [hfatal] at hpass
        have hnoted := h.next (hpass.enter (.log .error s!"Error in \"{ctx.file}\", {e.message}"))
        rw [logError, exec_bind_ok (exec_act _ t'), exec_bind_ok (exec_get _)] at hrun
        split at hrun
        · obtain ⟨t'', hpop, hw, hscene, ht⟩ := exec_pop_any ctx
            { t' with world := t'.world.log .error s!"Error in \"{ctx.file}\", {e.message}" }
          rw [exec_bind_ok hpop] at hrun
          exact ih (hw ▸ hnoted.take hw hscene ht) hrun
        · exact ih hnoted hrun
      cases e with
      | cancelled =>
        rw [exec_bind_ok (exec_act _ t')] at hrun
        cases (Prod.mk.inj hrun).1
      | layout e =>
        rw [exec_bind_ok (exec_act _ t')] at hrun
        cases (Prod.mk.inj hrun).1
      | endOfFile p =>
        obtain ⟨hids, rfl⟩ := Prod.mk.inj hrun
        exact ⟨_, Except.ok.inj hids ▸ h.pass (hpass.enter _)⟩
      | _ => exact hgo rfl hrun
    · obtain ⟨hpass, -⟩ := hread
      cases o with
      | none =>
        dsimp only [Option.toList_none] at hrun
        rw [List.append_nil] at hrun
        exact ih (h.next hpass) hrun
      | some r => exact ih (h.snoc hpass (hnext r t' rfl)) hrun

end Reader

end SceneGraph
