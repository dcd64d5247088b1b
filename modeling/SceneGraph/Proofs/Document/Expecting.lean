import SceneGraph.Proofs.Document.Consuming
import SceneGraph.Proofs.Document.Turns

/-!
# Where declarations are expected

A body reads declarations at certain places: where the value of a field is a node that is not used again
(`Reader.Expects`). Whoever reads the declarations, a body depends on him at these places only. So two readings of it
are the same if they agree there, and a failure at such a place is a failure of the body.

* `Reader.exec_loop_congr`, `Reader.GoesOn.exec_loop`: loops whose turns agree, and loops that fail in one of their
  turns.
* `Reader.exec_body_congr`, `Reader.exec_level_congr`: bodies and declarations with the same declarations inside.
* `Reader.Expects.exec_body`: a body in which a declaration fails.
* `Reader.exec_declaration_eq`: a declaration is one level of declarations.
* `Reader.takesToken_itemTurn`, `takesToken_nodeTurn`, `takesToken_bodyTurn`, `takesToken_statementTurn`: turns that go
  on take a token.
-/

namespace SceneGraph

/-- The context of the same reading under another control. -/
def DocumentContext.under (ctx : DocumentContext) (control : LoadControl) : DocumentContext := { ctx with control }

namespace Reader

variable {σ α : Type} {ctx : DocumentContext} {control : LoadControl} {s t v v' : ReaderState}
  {declaration declaration' : Reader (Option NodeId)} {id : NodeId} {before : List NodeId} {k : Kind} {e : ReadError}

/-! ### Loops -/

section Loops

variable {turn turn' : σ → Reader (σ ⊕ α)} {x y z : σ}

/-- A loop goes on for some turns. -/
inductive GoesOn (turn : σ → Reader (σ ⊕ α)) : σ → ReaderState → σ → ReaderState → Prop
  | refl (x : σ) (s : ReaderState) : GoesOn turn x s x s
  | turn {x y z : σ} {s s' t : ReaderState} (h : exec (turn x) s = (.ok (.inl y), s')) (hrest : GoesOn turn y s' z t) :
      GoesOn turn x s z t

theorem GoesOn.trans (h : GoesOn turn x s y t) (h' : GoesOn turn y t z v) : GoesOn turn x s z v := by
  induction h with
  | refl => exact h'
  | turn hrun _ ih => exact .turn hrun (ih h')

theorem GoesOn.length_le (h : GoesOn turn x s y t) (hturn : TakesToken turn) : t.lexemes.length ≤ s.lexemes.length := by
  induction h with
  | refl => exact Nat.le_refl _
  | turn h _ ih => exact ih.trans (Nat.le_of_lt (hturn _ _ _ _ h))

/-- **Loops are the same if their turns are**, wherever the loop gets to. By induction on the bound. -/
theorem exec_loop_congr (loop loop' : Nat → σ → Reader α)
    (hloop : ∀ n x, loop (n + 1) x = turn x >>= Sum.elim (loop n) pure)
    (hloop' : ∀ n x, loop' (n + 1) x = turn' x >>= Sum.elim (loop' n) pure)
    (hzero : ∀ x s, exec (loop' 0 x) s = exec (loop 0 x) s)
    (h : ∀ y t, GoesOn turn x s y t → exec (turn' y) t = exec (turn y) t) (n : Nat) :
    exec (loop' n x) s = exec (loop n x) s := by
  induction n generalizing x s with
  | zero => exact hzero x s
  | succ n ih =>
    rw [hloop, hloop', exec_bind, exec_bind, h x s (.refl x s)]
    cases hrun : exec (turn x) s with
    | mk r s' =>
      obtain e | y | a := r
      · rfl
      · exact ih fun z t hz => h z t (.turn hrun hz)
      · rfl

/-- A loop that gets to a turn which fails. -/
theorem GoesOn.exec_loop (loop : Nat → σ → Reader α) (h : GoesOn turn x s y t) (hturn : TakesToken turn)
    (hloop : ∀ n x, loop (n + 1) x = turn x >>= Sum.elim (loop n) pure) (hfail : exec (turn y) t = (.error e, v))
    {n : Nat} (hlt : s.lexemes.length < n) : exec (loop n x) s = (.error e, v) := by
  induction h generalizing n with
  | refl x s =>
    obtain ⟨n, rfl⟩ := Nat.exists_eq_succ_of_ne_zero (Nat.ne_zero_of_lt hlt)
    rw [hloop, exec_bind, hfail]
  | turn hrun _ ih =>
    obtain ⟨n, rfl⟩ := Nat.exists_eq_succ_of_ne_zero (Nat.ne_zero_of_lt hlt)
    have hless := hturn _ _ _ _ hrun
    rw [hloop, exec_bind_ok hrun]
    exact ih hfail (by omega)

end Loops

/-! ### Bodies -/

/-- The value of a field comes to a declaration, with those nodes of the same list read before. -/
inductive ExpectsIn (ctx : DocumentContext) (declaration : Reader (Option NodeId)) :
    Kind → ReaderState → List NodeId → ReaderState → Prop
  | single {s : ReaderState} (huse : s.tokens.head?.any (·.isKeyword .use) = false) :
      ExpectsIn ctx declaration ⟨.node, .single⟩ s [] s
  | bare {s : ReaderState} (hopen : s.tokens.head?.any (·.isSymbol .listBegin) = false)
      (huse : s.tokens.head?.any (·.isKeyword .use) = false) : ExpectsIn ctx declaration ⟨.node, .multi⟩ s [] s
  | item {s s' t : ReaderState} {before : List NodeId} (hopen : exec (optionalSymbol ctx .listBegin) s = (.ok true, s'))
      (hitems : GoesOn (nodeTurn ctx (nodeValue ctx declaration)) [] s' before t)
      (hclose : t.tokens.head?.any (·.isSymbol .listEnd) = false)
      (huse : t.tokens.head?.any (·.isKeyword .use) = false) : ExpectsIn ctx declaration ⟨.node, .multi⟩ s before t

/-- The body of a node comes to a declaration: after some entries, in the value of a field. -/
inductive Expects (ctx : DocumentContext) (declaration : Reader (Option NodeId)) (id : NodeId) :
    ReaderState → List NodeId → ReaderState → Prop
  | field {s t u v : ReaderState} {name : String} {k : Kind} {before : List NodeId}
      (hentries : GoesOn (bodyTurn ctx declaration id) () s () t)
      (hlabel : exec (label ctx id) t = (.ok (.inr name), u))
      (hkind : (u.world.node? id).bind (·.kind? name) = some k) (hvalue : ExpectsIn ctx declaration k u before v) :
      Expects ctx declaration id s before v

/-- Two readers that first look for the same token agree if they do with it and without it. -/
theorem Tries.exec_bind_congr {β : Type} {test : Token → Bool} {p p' : Reader Bool} {q q' : Bool → Reader β}
    (hp : Tries ctx test p) (hsame : exec p' s = exec p s)
    (htrue : exec p s = (.ok true, (exec (pop ctx) s).2) →
      exec (q' true) (exec (pop ctx) s).2 = exec (q true) (exec (pop ctx) s).2)
    (hfalse : s.tokens.head?.any test = false → exec (q' false) s = exec (q false) s) :
    exec (p' >>= q') s = exec (p >>= q) s := by
  rw [exec_bind, exec_bind, hsame]
  have htries := hp s
  cases htest : s.tokens.head?.any test with
  | true =>
    rw [htest, if_pos rfl] at htries
    rw [htries]
    exact htrue htries
  | false =>
    rw [htest, if_neg Bool.false_ne_true] at htries
    rw [htries]
    exact hfalse htest

theorem exec_nodeValue (huse : s.tokens.head?.any (·.isKeyword .use) = false) :
    exec (nodeValue ctx declaration) s = exec declaration s := by
  rw [nodeValue, exec_bind, tries_optionalKeyword .use s, huse]
  rfl

/-! ### The same declarations inside -/

theorem items_under (item : Reader α) (n : Nat) : items (ctx.under control) item n = items ctx item n := by
  induction n with
  | zero => rfl
  | succ n ih => rw [items, items, ih]; rfl

theorem skipBody_under : skipBody (ctx.under control) = skipBody ctx := by
  have hbraces : ∀ (lexemes : List Lexeme) (unclosed : Nat),
      closeBraces (ctx.under control) lexemes unclosed = closeBraces ctx lexemes unclosed := by
    intro lexemes
    induction lexemes with
    | nil => intro unclosed; cases unclosed <;> rfl
    | cons l rest ih =>
      intro unclosed
      cases unclosed with
      | zero => rfl
      | succ n => rw [closeBraces, closeBraces, ih]; rfl
  exact bind_congr fun s => hbraces _ _

theorem make_under (name : Option String) (typeName : String) :
    make (ctx.under control) name typeName = make ctx name typeName := by
  rw [make, make, skipBody_under]
  rfl

theorem closeBody_under (typeName : String) (p : Position) (r : Except ReadError Unit) :
    closeBody (ctx.under control) id typeName p r = closeBody ctx id typeName p r := by
  obtain e | _ := r
  · cases e with
    | layout | cancelled | endOfFile => rfl
    | _ =>
      refine bind_congr fun _ => bind_congr fun _ => ?_
      rw [skipBody_under]
      rfl
  · rfl

theorem exec_nodeValue_congr
    (h : s.tokens.head?.any (·.isKeyword .use) = false → exec declaration' s = exec declaration s) :
    exec (nodeValue (ctx.under control) declaration') s = exec (nodeValue ctx declaration) s :=
  (tries_optionalKeyword .use).exec_bind_congr rfl (fun _ => rfl) h

/-- One node of a list, or the end of the list. -/
theorem exec_nodeTurn_congr (h : s.tokens.head?.any (·.isSymbol .listEnd) = false →
      s.tokens.head?.any (·.isKeyword .use) = false → exec declaration' s = exec declaration s) :
    exec (nodeTurn (ctx.under control) (nodeValue (ctx.under control) declaration') before) s =
      exec (nodeTurn ctx (nodeValue ctx declaration) before) s := by
  refine (tries_optionalSymbol .listEnd).exec_bind_congr rfl (fun _ => rfl) fun hclose => ?_
  have hnode : exec (onFailure (nodeValue (ctx.under control) declaration') (·.dropAll before)) s =
      exec (onFailure (nodeValue ctx declaration) (·.dropAll before)) s := by
    rw [exec_onFailure, exec_onFailure, exec_nodeValue_congr (h hclose)]
  simp only [Bool.false_eq_true, if_false]
  rw [exec_bind, exec_bind, hnode]

/-- A list of nodes depends on the declarations in it only. -/
theorem exec_nodeList_congr
    (h : ∀ before v, ExpectsIn ctx declaration ⟨.node, .multi⟩ s before v → exec declaration' v = exec declaration v) :
    exec (nodeList (ctx.under control) (nodeValue (ctx.under control) declaration')) s =
      exec (nodeList ctx (nodeValue ctx declaration)) s := by
  refine (tries_optionalSymbol .listBegin).exec_bind_congr rfl (fun htaken => ?_) fun hopen => ?_
  · have hitems : ∀ n, exec (nodeItems (ctx.under control) (nodeValue (ctx.under control) declaration') n [])
        (exec (pop ctx) s).2 = exec (nodeItems ctx (nodeValue ctx declaration) n []) (exec (pop ctx) s).2 :=
      exec_loop_congr _ _ nodeItems_succ nodeItems_succ (fun _ _ => rfl) fun before t hitems =>
        exec_nodeTurn_congr fun hclose huse => h before t (.item htaken hitems hclose huse)
    exact hitems _
  · have hnode : exec (nodeValue (ctx.under control) declaration') s = exec (nodeValue ctx declaration) s :=
      exec_nodeValue_congr fun huse => h _ _ (.bare hopen huse)
    simp only [Bool.false_eq_true, if_false]
    rw [exec_bind, exec_bind, hnode]

/-- **The content of a field** depends on the declarations in it only. -/
theorem exec_content_congr
    (h : ∀ before v, ExpectsIn ctx declaration k s before v → exec declaration' v = exec declaration v) :
    exec (content (ctx.under control) (nodeValue (ctx.under control) declaration') k) s =
      exec (content ctx (nodeValue ctx declaration) k) s := by
  obtain ⟨type, dimension⟩ := k
  by_cases htype : type = .node
  · subst htype
    cases dimension with
    | single =>
      have hvalue : exec (nodeValue (ctx.under control) declaration') s = exec (nodeValue ctx declaration) s :=
        exec_nodeValue_congr fun huse => h _ _ (.single huse)
      rw [content, content, exec_bind, exec_bind, value, value, hvalue]
      rfl
    | multi =>
      rw [content, content, exec_bind, exec_bind, exec_nodeList_congr h]
      rfl
  · have hlist : ∀ {α : Type} (item : Reader α), list (ctx.under control) item = list ctx item := by
      intro α item
      refine bind_congr fun b => ?_
      split
      · exact bind_congr fun s => items_under item _
      · rfl
    have hvalue : value (ctx.under control) (nodeValue (ctx.under control) declaration') type =
        value ctx (nodeValue ctx declaration) type := by
      cases type with
      | node => exact absurd rfl htype
      | _ => rfl
    cases dimension with
    | single =>
      rw [content, content, hvalue]
      rfl
    | multi =>
      rw [content, content, hvalue, hlist]
      · rfl
      all_goals exact fun h => htype h

theorem exec_fieldValue_congr {name : String}
    (h : ∀ k before v, (s.world.node? id).bind (·.kind? name) = some k → ExpectsIn ctx declaration k s before v →
      exec declaration' v = exec declaration v) :
    exec (fieldValue (ctx.under control) declaration' id name) s = exec (fieldValue ctx declaration id name) s := by
  rw [fieldValue, fieldValue, exec_bind_ok (exec_position _ s), exec_bind_ok (exec_position _ s),
    exec_bind_ok (exec_get s), exec_bind_ok (exec_get s)]
  cases hkind : (s.world.node? id).bind (·.kind? name) with
  | none => rfl
  | some k =>
    dsimp only
    rw [exec_bind, exec_bind, exec_content_congr fun before v => h k before v hkind]
    rfl

/-- One entry of a body depends on the declarations in it only. -/
theorem exec_bodyTurn_congr {x : Unit} (h : ∀ before v, Expects ctx declaration id s before v →
      exec declaration' v = exec declaration v) :
    exec (bodyTurn (ctx.under control) declaration' id x) s = exec (bodyTurn ctx declaration id x) s := by
  have hentry : exec (bodyEntry (ctx.under control) declaration' id) s = exec (bodyEntry ctx declaration id) s := by
    have hlabel : label (ctx.under control) id = label ctx id := rfl
    rw [bodyEntry_eq, bodyEntry_eq, exec_bind, exec_bind, hlabel]
    cases hrun : exec (label ctx id) s with
    | mk r u =>
      obtain e | r | name := r
      · rfl
      · rfl
      · dsimp only [Sum.elim_inr]
        rw [exec_bind, exec_bind, exec_fieldValue_congr]
        exact fun k before v hkind hvalue => h before v (.field (.refl () s) hrun hkind hvalue)
  rw [bodyTurn, bodyTurn, exec_bind, exec_bind, hentry]

theorem Expects.after {x : Unit} (hentries : GoesOn (bodyTurn ctx declaration id) () s x t)
    (h : Expects ctx declaration id t before v) : Expects ctx declaration id s before v := by
  obtain ⟨hmore, hlabel, hkind, hvalue⟩ := h
  exact .field (hentries.trans hmore) hlabel hkind hvalue

/-- **A body depends on the declarations in it only.** -/
theorem exec_body_congr (h : ∀ before v, Expects ctx declaration id s before v →
      exec declaration' v = exec declaration v) :
    exec (body (ctx.under control) declaration' id) s = exec (body ctx declaration id) s := by
  have hloop : ∀ n, exec (untilSome (ctx.under control) (bodyEntry (ctx.under control) declaration' id) n) s =
      exec (untilSome ctx (bodyEntry ctx declaration id) n) s :=
    exec_loop_congr (fun n (_ : Unit) => untilSome ctx (bodyEntry ctx declaration id) n)
      (fun n _ => untilSome (ctx.under control) (bodyEntry (ctx.under control) declaration' id) n) untilSome_succ
      untilSome_succ (fun _ _ => by rw [untilSome, untilSome]; rfl) fun _ t hentries =>
        exec_bodyTurn_congr fun before v hv => h before v (hv.after hentries)
  rw [body, body, loop, loop, exec_bind_ok (exec_get s), exec_bind_ok (exec_get s), hloop]

/-- **A declaration depends on the declarations in it only.** -/
theorem exec_level_congr (control : LoadControl)
    (hcontrol : control.isCancelled s.asked = ctx.control.isCancelled s.asked)
    (h : ∀ id typeName p t, exec (opening ctx) s = (.ok (some (id, typeName, p)), t) → ∀ before v,
      Expects ctx declaration id t before v → exec declaration' v = exec declaration v) :
    exec (level (ctx.under control) declaration') s = exec (level ctx declaration) s := by
  have hopening : exec (opening (ctx.under control)) s = exec (opening ctx) s := by
    have hsame : (ctx.under control).control.isCancelled s.asked = ctx.control.isCancelled s.asked := hcontrol
    rw [opening, opening, exec_bind_ok (exec_get s), exec_bind_ok (exec_get s), hsame]
    simp only [make_under]
    rfl
  rw [level_eq, level_eq, exec_bind, exec_bind, hopening]
  cases hrun : exec (opening ctx) s with
  | mk r t =>
    obtain e | _ | ⟨id, typeName, p⟩ := r
    · rfl
    · rfl
    · dsimp only
      rw [exec_bind_ok (exec_attempt _ _), exec_bind_ok (exec_attempt _ _), closeBody_under,
        exec_body_congr (h id typeName p t hrun)]

/-! ### A declaration that fails -/

section Failing

variable {R : ReaderState → ReaderState → Prop} (hR : Lenient R) (hdeclaration : Consumes R 1 declaration)
include hR hdeclaration

omit hR hdeclaration in
/-- A list goes on unless it is closed. -/
theorem TakesToken.ofList {turn : List α → Reader (List α ⊕ List α)} (hturn : ∀ before, Consumes R 1 (turn before)) :
    TakesToken fun before => (do
      if ← optionalSymbol ctx .listEnd then return .inr before
      else turn before) := by
  intro before s y s' hrun
  rw [exec_bind, tries_optionalSymbol .listEnd s] at hrun
  cases hclose : s.tokens.head?.any (·.isSymbol .listEnd) with
  | true =>
    rw [hclose, if_pos rfl] at hrun
    cases (Prod.mk.inj hrun).1
  | false =>
    rw [hclose, if_neg Bool.false_ne_true] at hrun
    exact (hturn before).length_lt hrun

omit hdeclaration in
theorem takesToken_itemTurn {item : Reader α} (hitem : Consumes R 1 item) : TakesToken (itemTurn ctx item) :=
  .ofList fun _ => .bind hR hitem fun _ => .pure hR _

theorem takesToken_nodeTurn : TakesToken (nodeTurn ctx (nodeValue ctx declaration)) :=
  .ofList fun _ => .bind hR (.onFailure hR (.nodeValue hR hdeclaration) _) fun _ => .pure hR _

theorem takesToken_bodyTurn : TakesToken (bodyTurn ctx declaration id) := by
  intro x s y s' hrun
  have hentry : Consumes R 1 (bodyTurn ctx declaration id x) := by
    refine .bind hR (.bodyEntry hR hdeclaration id) fun o => ?_
    cases o <;> exact .pure hR _
  exact hentry.length_lt hrun

theorem ExpectsIn.length_le (h : ExpectsIn ctx declaration k s before v) : v.lexemes.length ≤ s.lexemes.length := by
  cases h with
  | single => exact Nat.le_refl _
  | bare => exact Nat.le_refl _
  | item hopen hitems =>
    have hbegin : Consumes R 0 (optionalSymbol ctx .listBegin) := .tries hR (tries_optionalSymbol .listBegin)
    have hbegin := (hbegin s).2.1
    rw [hopen] at hbegin
    exact (hitems.length_le (takesToken_nodeTurn hR hdeclaration)).trans hbegin

/-- The label of the field is taken before. -/
theorem Expects.length_lt (h : Expects ctx declaration id s before v) : v.lexemes.length < s.lexemes.length := by
  obtain ⟨hentries, hlabel, -, hvalue⟩ := h
  have hentries' := hentries.length_le (takesToken_bodyTurn hR hdeclaration)
  have hlabel' := (Consumes.label hR id).length_lt hlabel
  have hvalue' := hvalue.length_le hR hdeclaration
  omega

variable (hfail : exec declaration v = (.error e, v'))
include hfail

/-- The nodes that were read before in the same list are let go of. -/
theorem ExpectsIn.exec_content (h : ExpectsIn ctx declaration k s before v) :
    exec (content ctx (nodeValue ctx declaration) k) s =
      (.error e, { v' with world := v'.world.dropAll before }) := by
  have hnone : ∀ w : World, w.dropAll [] = w := fun w => by rw [World.dropAll, World.release]; rfl
  cases h with
  | single huse => rw [content, exec_bind, value, exec_nodeValue huse, hfail, hnone]
  | bare hopen huse =>
    have hlist : exec (nodeList ctx (nodeValue ctx declaration)) s = (.error e, v') := by
      rw [nodeList, exec_bind, tries_optionalSymbol .listBegin s, hopen]
      simp only [Bool.false_eq_true, if_false]
      rw [exec_bind, exec_nodeValue huse, hfail]
    rw [content, exec_bind, hlist, hnone]
  | item hopen hitems hclose huse =>
    have hturn : exec (nodeTurn ctx (nodeValue ctx declaration) before) v =
        (.error e, { v' with world := v'.world.dropAll before }) := by
      rw [nodeTurn, exec_bind, tries_optionalSymbol .listEnd v, hclose]
      simp only [Bool.false_eq_true, if_false]
      rw [exec_bind, exec_onFailure, exec_nodeValue huse, hfail]
    have hlist := hitems.exec_loop (nodeItems ctx (nodeValue ctx declaration)) (takesToken_nodeTurn hR hdeclaration)
      nodeItems_succ hturn (Nat.lt_succ_self _)
    rw [content, exec_bind, nodeList, exec_bind_ok hopen]
    simp only [if_true]
    rw [exec_bind_ok (exec_get _), hlist]

/-- **A body fails with the declaration.** -/
theorem Expects.exec_body (h : Expects ctx declaration id s before v) :
    exec (body ctx declaration id) s = (.error e, { v' with world := v'.world.dropAll before }) := by
  cases h with
  | @field t u _ name k _ hentries hlabel hkind hvalue =>
    have hcontent := hvalue.exec_content hR hdeclaration hfail
    generalize ({ v' with world := v'.world.dropAll before } : ReaderState) = failed at hcontent ⊢
    have hfield : exec (fieldValue ctx declaration id name) u = (.error e, failed) := by
      rw [fieldValue, exec_bind_ok (exec_position ctx u), exec_bind_ok (exec_get u), hkind]
      dsimp only
      rw [exec_bind, hcontent]
    have hturn : exec (bodyTurn ctx declaration id ()) t = (.error e, failed) := by
      rw [bodyTurn, exec_bind, bodyEntry_eq, exec_bind_ok hlabel, Sum.elim_inr, exec_bind, hfield]
    rw [body, loop, exec_bind_ok (exec_get s)]
    exact hentries.exec_loop (fun n _ => untilSome ctx (bodyEntry ctx declaration id) n)
      (takesToken_bodyTurn hR hdeclaration) untilSome_succ hturn (Nat.lt_succ_self _)

/-- A declaration in which a request to stop was noticed is discarded. -/
theorem Expects.exec_level {typeName : String} {p : Position}
    (hopening : exec (opening ctx) s = (.ok (some (id, typeName, p)), t)) (h : Expects ctx declaration id t before v)
    (hcancelled : e = .cancelled) : exec (level ctx declaration) s =
      (.error .cancelled, { v' with world := ((v'.world.dropAll before).discard id).drop id }) := by
  subst hcancelled
  rw [level_eq, exec_bind_ok hopening]
  dsimp only
  rw [exec_bind_ok (exec_attempt _ t), h.exec_body hR hdeclaration hfail]
  rfl

end Failing

/-! ### Declarations inside declarations -/

/-- **The bound on the depth of declarations does not matter** as long as there are more levels than tokens, since those
inside have fewer tokens left. -/
theorem exec_declarationUpTo_congr {n m : Nat} (hn : s.lexemes.length < n) (hm : s.lexemes.length < m) :
    exec (declarationUpTo ctx n) s = exec (declarationUpTo ctx m) s := by
  induction n generalizing s m with
  | zero => exact absurd hn (Nat.not_lt_zero _)
  | succ n ih =>
    obtain ⟨m, rfl⟩ := Nat.exists_eq_succ_of_ne_zero (Nat.ne_zero_of_lt hm)
    have hR := heeds_true ctx
    refine exec_level_congr ctx.control rfl fun id typeName p t hopening before v hv => ?_
    have hopened := (Consumes.opening hR).length_lt hopening
    have hless := hv.length_lt hR.toLenient (.declarationUpTo hR m)
    exact ih (by omega) (by omega)

theorem exec_declaration_of_lt {n : Nat} (hn : s.lexemes.length < n) :
    exec (declarationUpTo ctx n) s = exec (Reader.declaration ctx) s := by
  rw [Reader.declaration, exec_bind_ok (exec_get s)]
  exact exec_declarationUpTo_congr hn (Nat.lt_succ_self _)

/-- **A declaration is one level of declarations.** -/
theorem exec_declaration_eq (ctx : DocumentContext) (s : ReaderState) :
    exec (Reader.declaration ctx) s = exec (level ctx (Reader.declaration ctx)) s := by
  have hR := heeds_true ctx
  rw [← exec_declaration_of_lt (Nat.lt_succ_self _), declarationUpTo_eq_level]
  refine exec_level_congr ctx.control rfl fun id typeName p t hopening before v hv => ?_
  have hopened := (Consumes.opening hR).length_lt hopening
  have hless := hv.length_lt hR.toLenient (.declaration hR)
  exact exec_declaration_of_lt (by omega)

/-! ### Statements -/

theorem takesToken_statementTurn (ctx : DocumentContext) : TakesToken (statementTurn ctx) := by
  have hreads : Consumes (fun _ _ => True) 1 (statement ctx) := .statement (heeds_true ctx)
  intro before s y s' hrun
  obtain ⟨progress, r, u, hstatement, -, hle, hskipped⟩ := exec_statementTurn_inl hrun
  -- a statement that fails may have taken no token, and then one is left out
  obtain e | node := r
  · by_cases hsame : u.lexemes.length = s.lexemes.length
    · exact hskipped e rfl hsame
    · have hless : u.lexemes.length ≤ s.lexemes.length := by
        have hless := (hreads { s with progress }).2.1
        rwa [hstatement] at hless
      exact lt_of_le_of_lt hle (lt_of_le_of_ne hless hsame)
  · have hless := hreads.length_lt hstatement
    exact lt_of_le_of_lt hle hless

end Reader

end SceneGraph
