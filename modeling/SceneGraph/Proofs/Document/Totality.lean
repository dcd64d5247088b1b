import SceneGraph.Proofs.Cascade.SettingUp
import SceneGraph.Proofs.Document.Bytes
import SceneGraph.Proofs.Document.Expecting
import SceneGraph.Proofs.Document.Isolation
import SceneGraph.Proofs.World.Registration

/-!
# Reading is total

Every text is read to its end, unless its header is bad or the host asks to stop. The loops of the readers
take their turns, each of which takes a token or ends the loop; the root of the new scene takes its
children; the nodes are set up within as many levels as there are nodes to set up; and a scanner that goes
by bytes takes no slice of the text that begins or ends inside a character.

* `World.Reachable.atRest`: calls leave a world at rest, so a document may be read in any of them.
* `Reader.loops`: the loops of the readers take their turns.
* `Document.read_total`: reading is total.
-/

namespace SceneGraph

namespace World

variable {types : Catalog} {w w' : World}

/-! ### Worlds at rest -/

/-- Only ids that were handed out go by a name. -/
def NamesIssued (w : World) : Prop := ∀ e ∈ w.registry.names, e.2.value ≤ w.registry.lastId

namespace NamesIssued

theorem kept (h : NamesIssued w) (hk : Kept w w') : NamesIssued w' := by
  unfold NamesIssued
  rw [hk.registry]
  exact h

theorem setName (h : NamesIssued w) (hs : Sound types w) (id : NodeId) (name : String) :
    NamesIssued (w.setName id name) := by
  obtain ⟨heq, -⟩ | ⟨n, hn, -, heq⟩ := setName_cases w id name <;> rw [heq]
  · exact h
  · intro e he
    change e.2.value ≤ (w.registry.rename id n.name name).lastId
    rw [Registry.lastId_rename]
    rcases Registry.mem_or_eq_of_mem_rename he with he | rfl
    · exact h e he
    · exact hs.issued id (mem_liveIds.2 (isLive_of_node? hn))

theorem destroy (h : NamesIssued w) (n : Node) : NamesIssued (w.destroy n) := by
  intro e he
  rw [registry_destroy] at he
  rw [lastId_destroy]
  exact h e (Registry.mem_of_mem_unregister he)

/-- Whatever changes, by cases. -/
theorem change (h : NamesIssued w) (hs : Sound types w) (hc : Change types w w') : NamesIssued w' := by
  cases hc with
  | created => exact fun e he => Nat.le_succ_of_le (h e he)
  | destroyed n hn hfree => exact h.destroy n
  | named id name => exact h.setName hs id name
  | relinked n next time after => exact h.kept (keeps_replaceChildren w n.id _ next time after)
  | adopted n hn hgroup hset =>
    have hmarked : NamesIssued ((w.mark n.id).step (.adopting n.id)) := h
    exact hmarked.kept (keeps_adoptChildren _ n.id)
  | finished id time =>
    exact runSetUp_induction id time (fun _ hv => hv) (fun _ hv => hv) (fun _ _ hv => hv) (fun _ _ hv => hv) h
  | _ => exact h

end NamesIssued

/-- **Calls leave a world at rest.** -/
theorem Reachable.atRest (hr : types.Regular) (hroot : Scene.nodeType ∈ types) (hw : Reachable types w) :
    w.AtRest := by
  have hnames : NamesIssued w :=
    hw.induction hr (by simp [NamesIssued]) fun _ _ hs hc h => h.change hs hc
  exact (hw.sound hr).atRest hr hroot hw.idle hnames

end World

namespace Reader

variable {ctx : DocumentContext} {s s' : ReaderState} {before : List NodeId}

/-! ### The loops of the readers -/

/-- **The loops of the readers take their turns**, and none of them goes on without taking a token. -/
theorem loops (ctx : DocumentContext) : Loops ctx where
  declaration s _ := exec_declaration_eq ctx s
  depth _ _ _ hlt := exec_declaration_of_lt hlt
  statements _ _ :=
    .of_bounded (statements ctx) statements_succ (takesToken_statementTurn ctx) [] (Nat.lt_succ_self _)
  body id s _ := by
    have hR := heeds_true ctx
    exact Turns.of_bounded (fun n _ => untilSome ctx (bodyEntry ctx (Reader.declaration ctx) id) n) untilSome_succ
      (takesToken_bodyTurn hR.toLenient (.declaration hR)) () (Nat.lt_succ_self _)
  items t _ s _ := by
    have hR := heeds_true ctx
    have hitem : Consumes (fun _ _ => True) 1 (value ctx (nodeValue ctx (Reader.declaration ctx)) t) :=
      .value hR.toLenient (.nodeValue hR.toLenient (.declaration hR)) t
    have hturns := Turns.of_bounded
      (fun n before => (before ++ ·) <$> items ctx (value ctx (nodeValue ctx (Reader.declaration ctx)) t) n)
      items_succ (takesToken_itemTurn hR.toLenient hitem) [] (Nat.lt_succ_self s.lexemes.length)
    simpa using hturns
  nodeItems s _ := by
    have hR := heeds_true ctx
    exact .of_bounded (nodeItems ctx (nodeValue ctx (Reader.declaration ctx))) nodeItems_succ
      (takesToken_nodeTurn hR.toLenient (.declaration hR)) [] (Nat.lt_succ_self _)
  skip s _ := turns_closeBraces 1 s

/-! ### What a statement can fail for -/

/-- The statements go on in the same scene. -/
theorem ofScene_statementTurn (hlayouts : LaysOut ctx) (hs : OfScene ctx s) {y : List NodeId}
    (h : exec (statementTurn ctx before) s = (.ok (.inl y), s')) : OfScene ctx s' := by
  obtain ⟨progress, r, u, hstatement, hscene, -⟩ := exec_statementTurn_inl h
  have ht : OfScene ctx { s with progress } := hs
  have hends := (Correspondence.refl hlayouts).statement _ _ ht.twin (Nat.lt_succ_self _)
  rw [hstatement] at hends
  have hroot : OfScene ctx u := by
    obtain e | o := r <;> exact hends.1.root
  exact (congrArg Scene.root hscene).trans hroot

/-- A statement ends the reading only if the host asked to stop. -/
theorem cancelled_of_statementTurn (hlayouts : LaysOut ctx) (hs : OfScene ctx s) {e : ReadError}
    (h : exec (statementTurn ctx before) s = (.error e, s')) : e = .cancelled := by
  rw [statementTurn, exec_bind_ok (exec_peek? s)] at h
  cases hl : s.lexemes with
  | nil =>
    rw [ReaderState.tokens, hl] at h
    cases (Prod.mk.inj h).1
  | cons l rest =>
    obtain ⟨progress, hprogress⟩ := exec_publishProgress ctx s
    rw [ReaderState.tokens, hl, List.map_cons, List.head?_cons] at h
    dsimp only at h
    rw [exec_bind_ok hprogress, exec_bind_ok (exec_get _), exec_bind_ok (exec_attempt _ _)] at h
    have ht : OfScene ctx { s with progress } := hs
    generalize ({ s with progress } : ReaderState) = t at ht h
    have hends := (Correspondence.refl hlayouts).statement t t ht.twin (Nat.lt_succ_self _)
    cases hstatement : exec (statement ctx) t with
    | mk r u =>
      rw [hstatement] at hends h
      obtain cause | o := r
      · -- any other error is logged
        have hgo : ∀ v : ReaderState, exec (do
            if (← get).lexemes.length = t.lexemes.length then pop ctx
            return (Sum.inl before : List NodeId ⊕ List NodeId)) v ≠ (.error e, s') := by
          intro v hv
          rw [exec_bind_ok (exec_get v)] at hv
          split at hv
          · obtain ⟨v', hpop, -⟩ := exec_pop_any ctx v
            rw [exec_bind_ok hpop] at hv
            cases (Prod.mk.inj hv).1
          · cases (Prod.mk.inj hv).1
        cases cause with
        | cancelled => exact (Except.error.inj (Prod.mk.inj h).1).symm
        | layout l => exact absurd rfl (hends.2.2.1 l)
        | endOfFile _ => cases (Prod.mk.inj h).1
        | _ =>
          dsimp only at h
          rw [logError, exec_bind_ok (exec_act _ u)] at h
          exact absurd h (hgo _)
      · cases (Prod.mk.inj h).1

/-- So do all statements, by induction on their turns. -/
theorem cancelled_of_turns (hlayouts : LaysOut ctx) {r : Except ReadError (List NodeId) × ReaderState}
    (hs : OfScene ctx s) (h : Turns (statementTurn ctx) before s r) {e : ReadError} (he : r.1 = .error e) :
    e = .cancelled := by
  induction h with
  | leave => cases he
  | fail h => exact Except.error.inj he ▸ cancelled_of_statementTurn hlayouts hs h
  | again h _ _ ih => exact ih (ofScene_statementTurn hlayouts hs h) he

end Reader

namespace Document

open Reader (exec LaysOut Loops OfScene)

variable {d : Document} {w : World} {header : Header}

/-- The statements leave the root of the scene bare, and none of them answers with it. -/
theorem bareRoot_statements (hw : w.AtRest) (hcatalog : ∀ t ∈ d.catalog, t.WellFormed) {ids : List NodeId}
    {t : ReaderState} (h : exec (Reader.statements (d.context header w)
      ((d.start header w).lexemes.length + 1) []) (d.start header w) = (.ok ids, t)) :
    World.BareRoot (d.context header w).environment t.world ∧
      t.scene.root = (d.context header w).environment.scene ∧ (d.context header w).environment.scene ∉ ids := by
  have hinvariant : Reader.Invariant (d.context header w) (World.BareRoot (d.context header w).environment)
      (· ≠ (d.context header w).environment.scene) :=
    World.BareRoot.invariant fun t ht => (hcatalog t ht).free
  have hnone : ∀ id ∈ ([] : List NodeId), id ≠ (d.context header w).environment.scene := by simp
  obtain ⟨hbare, hscene, hown⟩ := hinvariant.statements ((d.start header w).lexemes.length + 1) hnone
    (d.start header w) (hw.bareRoot d.library d.file d.renders (if d.time.isUnset then d.now else d.time))
    (root_create w d.library d.file d.renders _)
  rw [h] at hbare hscene hown
  exact ⟨hbare, hscene, fun hmem => hown _ rfl _ hmem rfl⟩

/-- The root takes the nodes of the statements as its children. -/
theorem setChildren_statements (hw : w.AtRest) (hcatalog : ∀ t ∈ d.catalog, t.WellFormed) {ids : List NodeId}
    {t : ReaderState} (h : exec (Reader.statements (d.context header w)
      ((d.start header w).lexemes.length + 1) []) (d.start header w) = (.ok ids, t)) :
    (t.scene.setChildren t.world ids).1 = .ok () := by
  obtain ⟨hbare, hscene, hids⟩ := bareRoot_statements hw hcatalog h
  obtain ⟨u, hset, -⟩ := hbare.setChildren hids t.scene.time
  rw [Scene.setChildren, hscene, hset]

/-- A document is given up only if the host asked to stop. -/
theorem cancelled_of_exec_document (hw : w.AtRest) (hcatalog : ∀ t ∈ d.catalog, t.WellFormed)
    {e : ReadError} {s : ReaderState}
    (h : exec (Reader.document (d.context header w)) (d.start header w) = (.error e, s)) : e = .cancelled := by
  have hlayouts : LaysOut (d.context header w) := fun t ht => (hcatalog t ht).distinct
  have hstart : OfScene (d.context header w) (d.start header w) := root_create w d.library d.file d.renders _
  have hturns := (Reader.loops (d.context header w)).statements _ hstart
  cases hstatements : exec (Reader.statements (d.context header w) ((d.start header w).lexemes.length + 1) [])
      (d.start header w) with
  | mk r t =>
    rw [hstatements] at hturns
    obtain cause | ids := r
    · have hcause := Reader.cancelled_of_turns hlayouts hstart hturns rfl
      rw [Reader.exec_document_error hstatements] at h
      exact Except.error.inj (Prod.mk.inj h).1 ▸ hcause
    · -- the root has its children, and nothing else can fail
      have hok := setChildren_statements hw hcatalog hstatements
      rw [Reader.exec_document_ok hstatements (Prod.ext hok rfl)] at h
      cases (Prod.mk.inj h).1

theorem header_error {e : ReadError} (h : d.header = .error e) :
    (∃ found p, e = .invalidHeader found p) ∨ ∃ required found p, e = .headerMismatch required found p := by
  unfold Document.header at h
  dsimp only at h
  split at h
  · exact .inl ⟨_, _, (Except.error.inj h).symm⟩
  · split at h
    · split at h
      · exact .inr ⟨_, _, _, (Except.error.inj h).symm⟩
      · cases h
    · cases h

/-- **Reading is total.** In a world at rest the reading of a document ends, and it fails only for the
header or because the host asks to stop. Every loop of the readers takes a token in each turn, or ends;
the root takes the nodes that were read as its children; no slice of the text is taken that begins or ends
inside a character; and setting up ends before the bound on its depth is met. -/
theorem read_total (hw : w.AtRest) (hcatalog : d.catalog = Catalog.standard) :
    (∀ e, (d.read w).result = .error e → (∃ found p, e = .invalidHeader found p) ∨
      (∃ required found p, e = .headerMismatch required found p) ∨ e = .cancelled) ∧
    (∀ header, Loops (d.context header w)) ∧
    (∀ header ids t, exec (Reader.statements (d.context header w) ((d.start header w).lexemes.length + 1) [])
      (d.start header w) = (.ok ids, t) → (t.scene.setChildren t.world ids).1 = .ok ()) ∧
    (∀ header, (byteTokens (some header) d.text).map (·.stop) = (d.start header w).lexemes.map (·.stop) ∧
      ∀ slice ∈ lineSlices d.text ++ (byteTokens (some header) d.text).flatMap (·.slices),
        IsSlice d.text slice.1 slice.2) ∧
    ∀ time bottom v id, (World.setUpLevel time)^[v.uninitializedCount + 1] bottom v id =
      v.initializeNode id time := by
  have hwell : ∀ t ∈ d.catalog, t.WellFormed := hcatalog ▸ wellFormed_standard
  refine ⟨fun e he => ?_, fun header => Reader.loops (d.context header w),
    fun header ids t h => setChildren_statements hw hwell h,
    fun header => ⟨map_stop_byteTokens (some header) d.text, fun slice hs => isSlice_of_mem_slices hs⟩,
    fun time bottom v id => World.iterate_setUpLevel_eq time bottom (Nat.lt_succ_self _) id⟩
  cases hheader : d.header with
  | error cause =>
    have hresult : (d.read w).result = .error cause := by rw [read_of_error w hheader]
    obtain rfl := Except.error.inj (hresult.symm.trans he)
    exact (header_error hheader).imp_right .inl
  | ok header =>
    obtain ⟨hresult, -⟩ := read_eq w hheader
    rw [hresult] at he
    cases hdocument : exec (Reader.document (d.context header w)) (d.start header w) with
    | mk r s =>
      rw [hdocument] at he
      obtain cause | _ := r
      · obtain rfl := Except.error.inj he
        exact .inr (.inr (cancelled_of_exec_document hw hwell hdocument))
      · cases he

/-- A malformed document in an empty world. -/
theorem read_total_malformed :
    (∀ e, (malformed.read {}).result = .error e → (∃ found p, e = .invalidHeader found p) ∨
      (∃ required found p, e = .headerMismatch required found p) ∨ e = .cancelled) ∧
    Loops (malformed.context .x3d {}) ∧
    ∀ slice ∈ lineSlices malformed.text ++ (byteTokens (some .x3d) malformed.text).flatMap (·.slices),
      IsSlice malformed.text slice.1 slice.2 := by
  obtain ⟨herrors, hloops, -, hslices, -⟩ := read_total (d := malformed) World.AtRest.empty rfl
  exact ⟨herrors, hloops .x3d, (hslices .x3d).2⟩

end Document

end SceneGraph
