import SceneGraph.Proofs.Document.Expecting
import SceneGraph.Proofs.Document.Settled

/-!
# A load that is cancelled

The host may ask to stop before a load or whenever a node is asked for. The reading notices it where a declaration is
expected (`Reader.ComesTo`): at the top of the document or in the value of a field, at any depth. There it ends, and
every declaration around that place is discarded. If it comes to no such place any more, nobody notices.

* `Reader.Comes.exec_declaration`, `Reader.exec_declaration_under`: a declaration that is cancelled, and one that
  is not.
* `Reader.ComesTo.exec_statements`, `Reader.exec_statements_under`: so with statements.
* `Document.read_cancelled`: so with documents.
-/

namespace SceneGraph

/-- A request to stop that never comes. -/
def LoadControl.patient (c : LoadControl) : LoadControl := { c with cancelAt := none }

theorem LoadControl.isCancelled_patient (c : LoadControl) (asked : Nat) : c.patient.isCancelled asked = false := by
  simp [isCancelled, patient]

namespace Reader

variable {ctx : DocumentContext} {s t u v : ReaderState} {before top : List NodeId}

/-! ### Requests -/

/-- As many nodes were asked for as there are checkpoints, and none after the host asked to stop. -/
structure Heeded (c : LoadControl) (s : ReaderState) : Prop where
  counted : s.checkpoints.length = s.asked
  heeded : c.watched = true → ∀ k ∈ c.cancelAt, s.asked ≤ k

theorem heeds_heeded (ctx : DocumentContext) :
    Heeds ctx fun s t => Heeded ctx.control s → Heeded ctx.control t where
  quiet hquiet h := ⟨by rw [hquiet.checkpoints, hquiet.asked, h.counted], by rw [hquiet.asked]; exact h.heeded⟩
  trans h h' := h' ∘ h
  request w hfree h := by
    refine ⟨congrArg (· + 1) h.counted, fun hwatched k hk => ?_⟩
    rw [LoadControl.isCancelled, hwatched, Option.mem_def.1 hk] at hfree
    exact Nat.succ_le_of_lt (by simpa using hfree)

/-! ### Declarations -/

/-- A declaration around a place: its node, and the nodes before that place in the same list. -/
structure Enclosing where
  node : NodeId
  before : List NodeId

/-- The declaration is discarded. -/
def Enclosing.discard (w : World) (e : Enclosing) : World := ((w.dropAll e.before).discard e.node).drop e.node

/-- All declarations around a place are discarded, the innermost one first. -/
def discardAll (within : List Enclosing) (w : World) : World := within.reverse.foldl Enclosing.discard w

/-- Where a declaration is read, the reading comes to a place where a declaration is expected: right there, or inside of
that declaration. The declarations around the place are listed, the outermost one first. -/
inductive Comes (ctx : DocumentContext) : ReaderState → List Enclosing → ReaderState → Prop
  | here (s : ReaderState) : Comes ctx s [] s
  | inside {s t u v : ReaderState} {id : NodeId} {typeName : String} {p : Position} {before : List NodeId}
      {within : List Enclosing} (hopening : exec (opening ctx) s = (.ok (some (id, typeName, p)), t))
      (hbody : Expects ctx (declaration ctx) id t before u) (hinner : Comes ctx u within v) :
      Comes ctx s (⟨id, before⟩ :: within) v

/-- **A declaration is cancelled** if the reading comes to a place where it notices so. By induction on the way to that
place. -/
theorem Comes.exec_declaration {within : List Enclosing} (h : Comes ctx s within v)
    (hcancelled : ctx.control.isCancelled v.asked = true) :
    exec (declaration ctx) s = (.error .cancelled, { v with world := discardAll within v.world }) := by
  have hR := heeds_true ctx
  induction h with
  | here s =>
    rw [exec_declaration_eq, level, exec_bind_ok (exec_get s), if_pos hcancelled]
    rfl
  | inside hopening hbody _ ih =>
    rw [exec_declaration_eq, hbody.exec_level hR.toLenient (.declaration hR) (ih hcancelled) hopening rfl]
    simp [discardAll, Enclosing.discard]

/-- **A declaration is read as it would be without a request to stop** if the reading comes to no place where it notices
it. By induction on the tokens that are left. -/
theorem exec_declaration_under
    (h : ∀ within v, Comes ctx s within v → ctx.control.isCancelled v.asked = false) :
    exec (declaration (ctx.under ctx.control.patient)) s = exec (declaration ctx) s := by
  have hR := heeds_true ctx
  induction hlength : s.lexemes.length using Nat.strong_induction_on generalizing s with
  | _ length ih =>
    rw [exec_declaration_eq, exec_declaration_eq]
    -- right here nobody notices anything, and the declarations inside have fewer tokens left
    have hfree := ctx.control.isCancelled_patient s.asked
    refine exec_level_congr _ (hfree.trans (h _ _ (.here s)).symm) fun id typeName p t hopening before v hv => ?_
    have hopened := (Consumes.opening hR).length_lt hopening
    have hless := hv.length_lt hR.toLenient (.declaration hR)
    exact ih v.lexemes.length (by omega) (fun within u hu => h _ u (.inside hopening hv hu)) rfl

/-! ### Statements -/

/-- The next statement is none of those that declare nothing. -/
def OpensDeclaration (s : ReaderState) : Prop :=
  ∀ k ∈ [Keyword.route, .metadata, .profile], s.tokens.head?.any (·.isKeyword k) = false

/-- From the first statement on, the reading comes to a place where a declaration is expected, after the statements that
made the nodes `top`. -/
inductive ComesTo (ctx : DocumentContext) (s : ReaderState) : List NodeId → List Enclosing → ReaderState → Prop
  | statement {t u v : ReaderState} {top : List NodeId} {within : List Enclosing} {next : Token}
      (hstatements : GoesOn (statementTurn ctx) [] s top t) (hnext : t.tokens.head? = some next)
      (hopens : OpensDeclaration t) (hprogress : exec (publishProgress ctx) t = (.ok (), u))
      (hdeclaration : Comes ctx u within v) : ComesTo ctx s top within v

theorem exec_statement_of_opensDeclaration (h : OpensDeclaration s) :
    exec (statement ctx) s = exec (declaration ctx) s := by
  have hskip : ∀ k ∈ [Keyword.route, .metadata, .profile], exec (optionalKeyword ctx k) s = (.ok false, s) := by
    intro k hk
    rw [tries_optionalKeyword k s, h k hk]
    rfl
  rw [statement, exec_bind_ok (hskip .route (by decide)), if_neg Bool.false_ne_true,
    exec_bind_ok (hskip .metadata (by decide)), if_neg Bool.false_ne_true,
    exec_bind_ok (hskip .profile (by decide)), if_neg Bool.false_ne_true]

/-- A statement depends on the control only if it declares something. -/
theorem exec_statement_congr {control : LoadControl}
    (h : OpensDeclaration s → exec (declaration (ctx.under control)) s = exec (declaration ctx) s) :
    exec (statement (ctx.under control)) s = exec (statement ctx) s := by
  -- the other branch must not be compared, where nothing is known about the two declarations
  refine (tries_optionalKeyword .route).exec_bind_congr rfl (fun _ => ?_) fun hroute => ?_
  · rw [if_pos rfl, if_pos rfl]
    rfl
  rw [if_neg Bool.false_ne_true, if_neg Bool.false_ne_true]
  refine (tries_optionalKeyword .metadata).exec_bind_congr rfl (fun _ => ?_) fun hmetadata => ?_
  · rw [if_pos rfl, if_pos rfl]
    rfl
  rw [if_neg Bool.false_ne_true, if_neg Bool.false_ne_true]
  refine (tries_optionalKeyword .profile).exec_bind_congr rfl (fun _ => ?_) fun hprofile => ?_
  · rw [if_pos rfl, if_pos rfl]
    rfl
  rw [if_neg Bool.false_ne_true, if_neg Bool.false_ne_true]
  exact h (by simp [OpensDeclaration, hroute, hmetadata, hprofile])

/-- **The statements end** at a place where the request to stop is noticed. -/
theorem ComesTo.exec_statements {within : List Enclosing} (h : ComesTo ctx s top within v)
    (hcancelled : ctx.control.isCancelled v.asked = true) :
    exec (statements ctx (s.lexemes.length + 1) []) s =
      (.error .cancelled, { v with world := (discardAll within v.world).dropAll top }) := by
  cases h with
  | @statement t u _ _ _ next hstatements hnext hopens hprogress hdeclaration =>
    obtain ⟨progress, hpublished⟩ := exec_publishProgress ctx t
    obtain rfl : { t with progress } = u := (Prod.mk.inj (hpublished.symm.trans hprogress)).2
    have hopens' : OpensDeclaration { t with progress } := hopens
    have hfail := (exec_statement_of_opensDeclaration hopens').trans (hdeclaration.exec_declaration hcancelled)
    have hturn : exec (statementTurn ctx top) t =
        (.error .cancelled, { v with world := (discardAll within v.world).dropAll top }) := by
      rw [exec_statementTurn hnext hprogress, exec_bind_ok (exec_attempt _ _), hfail]
      rfl
    exact hstatements.exec_loop (statements ctx) (takesToken_statementTurn ctx) statements_succ hturn
      (Nat.lt_succ_self _)

/-- **The statements are read as they would be without a request to stop** if the reading comes to no place where it is
noticed. -/
theorem exec_statements_under
    (h : ∀ top within v, ComesTo ctx s top within v → ctx.control.isCancelled v.asked = false) (n : Nat) :
    exec (statements (ctx.under ctx.control.patient) n []) s = exec (statements ctx n []) s := by
  refine exec_loop_congr (statements ctx) (statements (ctx.under ctx.control.patient)) statements_succ statements_succ
    (fun _ _ => rfl) (fun top t hstatements => ?_) n
  cases hnext : t.tokens.head? with
  | none => rw [statementTurn, statementTurn, exec_bind_ok (exec_peek? t), exec_bind_ok (exec_peek? t), hnext]
  | some next =>
    obtain ⟨progress, hprogress⟩ := exec_publishProgress ctx t
    have hprogress' : exec (publishProgress (ctx.under ctx.control.patient)) t = (.ok (), { t with progress }) :=
      hprogress
    have hsame : exec (statement (ctx.under ctx.control.patient)) { t with progress } =
        exec (statement ctx) { t with progress } :=
      exec_statement_congr fun hopens => exec_declaration_under fun within v hv =>
        h top within v (.statement hstatements hnext hopens hprogress hv)
    rw [exec_statementTurn hnext hprogress, exec_statementTurn hnext hprogress', exec_bind_ok (exec_attempt _ _),
      exec_bind_ok (exec_attempt _ _), hsame]
    rfl

/-! ### Documents -/

/-- After its statements, a document minds only whether the host watches. -/
theorem exec_document_congr {control : LoadControl} (hwatched : control.watched = ctx.control.watched)
    (h : exec (statements (ctx.under control) (s.lexemes.length + 1) []) s =
      exec (statements ctx (s.lexemes.length + 1) []) s) :
    exec (document (ctx.under control)) s = exec (document ctx) s := by
  have hwatched' : (ctx.under control).control.watched = ctx.control.watched := hwatched
  have hstatements : exec (onFailure (do statements (ctx.under control) ((← get).lexemes.length + 1) [])
        (·.drop (ctx.under control).environment.scene)) s =
      exec (onFailure (do statements ctx ((← get).lexemes.length + 1) []) (·.drop ctx.environment.scene)) s := by
    rw [exec_onFailure, exec_onFailure, exec_bind_ok (exec_get s), exec_bind_ok (exec_get s), h]
    rfl
  rw [document, document, exec_bind, exec_bind, hwatched', hstatements]
  rfl

end Reader

namespace Document

open Reader (ComesTo ExpectsIn Heeded OpensDeclaration discardAll exec heeds_heeded)
open Reader (label opening optionalSymbol publishProgress)

/-- What a document starts with is the same under another control. -/
theorem start_under (d : Document) (header : Header) (w : World) (control : LoadControl) :
    ({ d with control } : Document).context header w = (d.context header w).under control ∧
      ({ d with control } : Document).start header w = d.start header w := by
  constructor
  · unfold context DocumentContext.under
    dsimp only
  · unfold start
    dsimp only

theorem header_under (d : Document) (control : LoadControl) : ({ d with control } : Document).header = d.header := by
  unfold Document.header
  dsimp only

/-- **A request to stop is never swallowed.** No node is asked for after it was made. If the reading comes to a place
where a declaration is expected, and the request was made by then, the reading ends right there: all declarations around
that place are discarded, and so are the nodes at the top and the root. If it comes to no such place, the document is
read as if there had been no request. -/
theorem read_cancelled (d : Document) (w : World) :
    (d.control.watched = true → ∀ k ∈ d.control.cancelAt, (d.read w).checkpoints.length ≤ k) ∧
    (∀ header, d.header = .ok header → ∀ top within t,
      ComesTo (d.context header w) (d.start header w) top within t → d.control.isCancelled t.asked = true →
        d.read w = {
          result := .error .cancelled
          world := ((discardAll within t.world).dropAll top).drop (d.context header w).environment.scene
          progress := t.progress
          checkpoints := t.checkpoints.reverse }) ∧
    ((∀ header, d.header = .ok header → ∀ top within t,
      ComesTo (d.context header w) (d.start header w) top within t → d.control.isCancelled t.asked = false) →
        d.read w = ({ d with control := d.control.patient } : Document).read w) := by
  refine ⟨fun hwatched k hk => ?_, fun header hheader top within t hcomes hcancelled => ?_, fun hnever => ?_⟩
  · cases hheader : d.header with
    | error e =>
      rw [read_of_error w hheader]
      exact Nat.zero_le k
    | ok header =>
      -- nothing was asked for at the start, and `Heeded` is kept up to the end, however the reading ends
      have hstart : Heeded d.control (d.start header w) := ⟨rfl, fun _ k _ => Nat.zero_le k⟩
      have hend := (Reader.Consumes.document (heeds_heeded (d.context header w)) (d.start header w)).1 hstart
      rw [read_outcome w hheader, List.length_reverse, hend.counted]
      exact hend.heeded hwatched k hk
  · have hstatements := hcomes.exec_statements hcancelled
    rw [read_outcome w hheader, Reader.exec_document_error hstatements]
    rfl
  · have hheader' := header_under d d.control.patient
    cases hheader : d.header with
    | error e => rw [read_of_error w hheader, read_of_error w (hheader'.trans hheader)]
    | ok header =>
      have hstatements := Reader.exec_statements_under (hnever header hheader)
        ((d.start header w).lexemes.length + 1)
      have hwatched : (d.context header w).control.patient.watched = (d.context header w).control.watched := rfl
      have hdocument := Reader.exec_document_congr hwatched hstatements
      obtain ⟨hcontext, hstart⟩ := start_under d header w d.control.patient
      rw [read_outcome w hheader, read_outcome w (hheader'.trans hheader), hcontext, hstart, ← hdocument]
      rfl

/-- A document whose reading is stopped while the outer one of two groups is made. -/
def interrupted : Document where
  text := "#VRML V2.0 utf8\nGroup \x7b children [ Group \x7b \x7d ] \x7d\n"
  file := "interrupted.wrl"
  check := .any
  catalog := Catalog.standard
  time := .unset
  now := .unset
  control := { cancelAt := some 1 }

theorem exec_eq_of_toOption {α : Type} {p : Reader α} {s : ReaderState} {a : α} (h : (exec p s).1.toOption = some a) :
    exec p s = (.ok a, (exec p s).2) := by
  cases hrun : exec p s with
  | mk r t =>
    rw [hrun] at h
    cases r with
    | error e => cases h
    | ok b => rw [Option.some.inj h]

/-- The reading comes to the inner group while it is about to read the children of the outer one. -/
theorem comesTo_interrupted : ∃ t, interrupted.control.isCancelled t.asked = true ∧
    ComesTo (interrupted.context .vrml {}) (interrupted.start .vrml {}) [] [⟨⟨2⟩, []⟩] t := by
  let ctx := interrupted.context .vrml {}
  let s := interrupted.start .vrml {}
  let t := (exec (publishProgress ctx) s).2
  let u := (exec (opening ctx) t).2
  let v := (exec (label ctx ⟨2⟩) u).2
  have hnext : s.tokens.head? = some (.identifier "Group") := rfl
  have hopens : OpensDeclaration s := by
    unfold OpensDeclaration
    decide +kernel
  have hprogress : exec (publishProgress ctx) s = (.ok (), t) := exec_eq_of_toOption (by decide +kernel)
  have hopening : exec (opening ctx) t = (.ok (some (⟨2⟩, "Group", ⟨2, 1⟩)), u) :=
    exec_eq_of_toOption (by decide +kernel)
  have hlabel : exec (label ctx ⟨2⟩) u = (.ok (.inr "children"), v) := exec_eq_of_toOption (by decide +kernel)
  have hlist : exec (optionalSymbol ctx .listBegin) v = (.ok true, (exec (optionalSymbol ctx .listBegin) v).2) :=
    exec_eq_of_toOption (by decide +kernel)
  have hvalue : ExpectsIn ctx (Reader.declaration ctx) ⟨.node, .multi⟩ v [] _ :=
    .item hlist (.refl _ _) (by decide +kernel) (by decide +kernel)
  exact ⟨_, by decide +kernel, .statement (.refl [] s) hnext hopens hprogress
    (.inside hopening (.field (.refl () u) hlabel (by decide +kernel) hvalue) (.here _))⟩

/-- The outer group is discarded, and the inner one is not asked for. -/
theorem read_cancelled_nested : (interrupted.read {}).checkpoints.length ≤ 1 ∧
    ∃ t, ComesTo (interrupted.context .vrml {}) (interrupted.start .vrml {}) [] [⟨⟨2⟩, []⟩] t ∧
      interrupted.control.isCancelled t.asked = true ∧ interrupted.read {} = {
        result := .error .cancelled
        world := ((discardAll [⟨⟨2⟩, []⟩] t.world).dropAll []).drop ⟨1⟩
        progress := t.progress
        checkpoints := t.checkpoints.reverse } := by
  obtain ⟨hasked, hcancelled, -⟩ := read_cancelled interrupted {}
  obtain ⟨t, hnoticed, hcomes⟩ := comesTo_interrupted
  exact ⟨hasked rfl 1 rfl, t, hcomes, hnoticed, hcancelled .vrml rfl [] _ t hcomes hnoticed⟩

end Document

end SceneGraph
