import SceneGraph.Proofs.Document.Editing
import SceneGraph.Proofs.Document.Running

/-!
# What readers do to the world

Every reader edits the scene that is being read and leaves the handles alone that are none of its
business, whether it succeeds or fails: this is `Reader.Reads`, which composes along the steps of a
reader. Nodes are emptied only if the text is over or a declaration was skipped.
-/

namespace SceneGraph

open World (Drafted Edits)

/-- The error ends the reading. -/
def ReadError.isFatal : ReadError → Bool
  | endOfFile _ | cancelled | layout _ => true
  | _ => false

/-- A warning about a place in a document. -/
def Entry.warning (file : String) (p : Position) (text : String) : Entry :=
  .log .warn s!"\"{file}\", {p.text}: {text}"

/-- The message that a declaration of a document was skipped. -/
def Entry.IsSkip (file : String) (e : Entry) : Prop :=
  ∃ (p : Position) (typeName : String), e = warning file p s!"skipped {typeName} node" ∨
    e = warning file p s!"skipped unknown node type '{typeName}'"

/-- A declaration of a document was skipped on the way from one world to another. -/
def World.Skipped (file : String) (w w' : World) : Prop :=
  ∃ entries, w'.journal = entries ++ w.journal ∧ ∃ e ∈ entries, e.IsSkip file

/-- A profile is a word, and no key of the metadata occurs twice. -/
structure Scene.Tidy (header : Header) (s : Scene) : Prop where
  profile : ∀ p ∈ s.profile, IsIdentifier (some header) p
  keys : (s.metadata.map (·.1)).Nodup

namespace Reader

variable {α β : Type} {ctx : DocumentContext} {header : Header} {low : Nat} {s s' s'' : ReaderState}
  {rest given : List NodeId}

/-- A document is being read: the words in front are words under its header, and its scene is a
draft. -/
structure Open (ctx : DocumentContext) (header : Header) (s : ReaderState) : Prop where
  drafted : Drafted header ctx.environment s.world
  root : s.scene.root = ctx.environment.scene
  tidy : s.scene.Tidy header
  valid : ∀ t ∈ s.tokens, t.Valid (some header)

/-- What happens from one state of a reading to another: the handles of `rest` stay, and those of `kept`
are new. Failures may leave others behind. Nodes are emptied only if `failed` or if a declaration was
skipped. -/
structure Passes (ctx : DocumentContext) (header : Header) (low : Nat) (rest : List NodeId)
    (s s' : ReaderState) (kept : List NodeId) (failed : Bool) : Prop where
  held : ∃ leaked, s'.world.held.Perm (kept ++ (leaked ++ rest))
  edits : ∃ empties, Edits header ctx.environment low empties s.world s'.world ∧
    (empties = true → failed = true ∨ s.world.Skipped ctx.file s'.world)
  tokens : s'.tokens <:+ s.tokens
  scene : s'.scene.root = s.scene.root
  tidy : s.scene.Tidy header → s'.scene.Tidy header

/-- What a reader ends with: handles and an answer with some property, or an error. -/
def Ends (ctx : DocumentContext) (header : Header) (low : Nat) (rest : List NodeId) (taken : α → List NodeId)
    (Q : α → Prop) (s : ReaderState) : Except ReadError α × ReaderState → Prop
  | (.ok a, s') => Passes ctx header low rest s s' (taken a) false ∧ Q a
  | (.error e, s') => Passes ctx header low rest s s' [] e.isFatal

/-- Handed the handles of some nodes, a reader edits the scene and answers with handles. -/
def Reads (ctx : DocumentContext) (header : Header) (low : Nat) (given : List NodeId) (p : Reader α)
    (taken : α → List NodeId) (Q : α → Prop) : Prop :=
  ∀ s rest, Open ctx header s → low ≤ s.world.registry.lastId + 1 →
    s.world.held.Perm (given ++ rest) → ctx.environment.scene ∈ rest →
      Ends ctx header low rest taken Q s (exec p s)

/-! ### From state to state -/

theorem skipped_trans {file : String} {w w' w'' : World} (hj : w'.journal <:+ w''.journal)
    (h : w.Skipped file w') : w.Skipped file w'' := by
  obtain ⟨entries, hentries, e, he, hskip⟩ := h
  obtain ⟨more, hmore⟩ := hj
  exact ⟨more ++ entries, by rw [← hmore, hentries, List.append_assoc], e,
    List.mem_append_right _ he, hskip⟩

theorem skipped_of_suffix {file : String} {w w' w'' : World} (hj : w.journal <:+ w'.journal)
    (h : w'.Skipped file w'') : w.Skipped file w'' := by
  obtain ⟨entries, hentries, e, he, hskip⟩ := h
  obtain ⟨more, hmore⟩ := hj
  exact ⟨entries ++ more, by rw [hentries, ← hmore, List.append_assoc], e,
    List.mem_append_left _ he, hskip⟩

namespace Passes

variable {kept kept' : List NodeId} {failed : Bool}

/-- The handles that were there already. -/
theorem refl (hheld : s.world.held.Perm (kept ++ rest)) (failed : Bool) :
    Passes ctx header low rest s s kept failed :=
  ⟨⟨[], hheld⟩, ⟨false, .refl, nofun⟩, List.suffix_rfl, rfl, id⟩

theorem trans {failed' : Bool} (h : Passes ctx header low rest s s' kept failed)
    (h' : Passes ctx header low rest s' s'' kept' failed') :
    Passes ctx header low rest s s'' kept' (failed || failed') := by
  obtain ⟨b, he, hb⟩ := h.edits
  obtain ⟨b', he', hb'⟩ := h'.edits
  refine ⟨h'.held, ⟨b || b', ?_, fun hor => ?_⟩, h'.tokens.trans h.tokens, h'.scene.trans h.scene,
    fun ht => h'.tidy (h.tidy ht)⟩
  · exact (he.weaken fun hb => by rw [hb]; rfl).trans (he'.weaken fun hb => by rw [hb, Bool.or_true])
  · rcases Bool.or_eq_true_iff.1 hor with hor | hor
    · exact (hb hor).imp (fun hf => by rw [hf, Bool.true_or])
        (skipped_trans (World.journal_edits he'))
    · exact (hb' hor).imp (fun hf => by rw [hf, Bool.or_true])
        (skipped_of_suffix (World.journal_edits he))

theorem fail (h : Passes ctx header low rest s s' kept false) (failed : Bool) :
    Passes ctx header low rest s s' kept failed :=
  { h with edits := h.edits.imp fun _ he => ⟨he.1, fun hb => (he.2 hb).imp_left nofun⟩ }

/-- Handles that are kept may count among the rest. -/
theorem reframe {more : List NodeId} (h : Passes ctx header low (more ++ rest) s s' kept failed) :
    Passes ctx header low rest s s' (kept ++ more) failed :=
  { h with
    held := by
      obtain ⟨leaked, hheld⟩ := h.held
      refine ⟨leaked, hheld.trans ?_⟩
      rw [List.append_assoc, ← List.append_assoc leaked, ← List.append_assoc more]
      exact (List.perm_append_comm.append_right rest).append_left kept }

/-- What was left behind counts among the rest. -/
theorem leak {leaked : List NodeId} (h : Passes ctx header low (leaked ++ rest) s s' kept failed) :
    Passes ctx header low rest s s' kept failed :=
  { h with
    held := by
      obtain ⟨more, hheld⟩ := h.held
      exact ⟨more ++ leaked, by rw [List.append_assoc]; exact hheld⟩ }

/-- Handles may be left behind. -/
theorem forsake (h : Passes ctx header low rest s s' kept failed) :
    Passes ctx header low rest s s' [] failed :=
  { h with
    held := by
      obtain ⟨leaked, hheld⟩ := h.held
      exact ⟨kept ++ leaked, by rw [List.append_assoc]; exact hheld⟩ }

theorem «open» (h : Passes ctx header low rest s s' kept failed) (hlow : ctx.environment.scene.value < low)
    (ho : Open ctx header s) : Open ctx header s' := by
  obtain ⟨b, he, -⟩ := h.edits
  exact ⟨ho.drafted.edits hlow he, h.scene.trans ho.root, h.tidy ho.tidy,
    fun t ht => ho.valid t (h.tokens.subset ht)⟩

theorem lastId (h : Passes ctx header low rest s s' kept failed) :
    s.world.registry.lastId ≤ s'.world.registry.lastId := by
  obtain ⟨b, he, -⟩ := h.edits
  exact World.lastId_edits he

/-- Afterwards handles are given back. -/
theorem dropAll (h : Passes ctx header low (given ++ rest) s s' kept failed)
    (hlow : ctx.environment.scene.value < low) (ho : Open ctx header s)
    (hgiven : ∀ id ∈ given, ctx.environment.scene.value < id.value) (hroot : ctx.environment.scene ∈ rest) :
    Passes ctx header low rest s { s' with world := s'.world.dropAll given } kept failed := by
  obtain ⟨b, he, hb⟩ := h.edits
  obtain ⟨leaked, hheld⟩ := h.held
  have hperm : s'.world.held.Perm (given ++ (kept ++ (leaked ++ rest))) := by
    refine hheld.trans ?_
    simp only [← List.append_assoc]
    refine List.Perm.append_right rest ?_
    rw [List.append_assoc given]
    exact List.perm_append_comm
  obtain ⟨hdrop, hheld'⟩ := World.edits_dropAll (h.open hlow ho).drafted hlow b hgiven hperm
    (List.mem_append_right _ (List.mem_append_right _ hroot))
  exact ⟨⟨leaked, hheld'⟩, ⟨b, he.trans hdrop, fun hb' => (hb hb').imp_right
    (skipped_trans (World.journal_edits hdrop))⟩, h.tokens, h.scene, h.tidy⟩

/-- The world is edited, and nothing else happens. -/
theorem of_edits {w : World} (he : Edits header ctx.environment low false s.world w)
    (hheld : w.held.Perm (kept ++ rest)) (failed : Bool) :
    Passes ctx header low rest s { s with world := w } kept failed :=
  ⟨⟨[], hheld⟩, ⟨false, he, nofun⟩, List.suffix_rfl, rfl, id⟩

/-- Afterwards something is entered into the journal. -/
theorem enter (h : Passes ctx header low rest s s' kept failed) (e : Entry) :
    Passes ctx header low rest s { s' with world := s'.world.enter e } kept failed := by
  obtain ⟨b, he, hb⟩ := h.edits
  exact ⟨h.held, ⟨b, .tail he (.noted _ e), fun hb' => (hb hb').imp_right
    (skipped_trans (List.suffix_cons _ _))⟩, h.tokens, h.scene, h.tidy⟩

/-- Once a declaration was skipped, nothing more is said about nodes that are emptied. -/
theorem skip (h : Passes ctx header low rest s s' kept failed)
    (hskip : s.world.Skipped ctx.file s'.world) (failed' : Bool) :
    Passes ctx header low rest s s' kept failed' :=
  { h with edits := h.edits.imp fun _ he => ⟨he.1, fun _ => .inr hskip⟩ }

end Passes

/-! ### Composition -/

namespace Reads

variable {p : Reader α} {q : α → Reader β} {taken : α → List NodeId} {taken' : β → List NodeId}
  {Q : α → Prop} {Q' : β → Prop}

theorem pure (a : α) (hgiven : taken a = given) (ha : Q a) :
    Reads ctx header low given (pure a) taken Q :=
  fun _ _ _ _ hheld _ => ⟨.refl (hgiven ▸ hheld) false, ha⟩

theorem throw {e : ReadError} : Reads ctx header low given (throw e : Reader α) taken Q :=
  fun _ _ _ _ hheld _ => (Passes.refl hheld e.isFatal).forsake

theorem bind (hlow : ctx.environment.scene.value < low) (h : Reads ctx header low given p taken Q)
    (h' : ∀ a, Q a → Reads ctx header low (taken a) (q a) taken' Q') :
    Reads ctx header low given (p >>= q) taken' Q' := by
  intro s rest ho hlast hheld hroot
  have hp := h s rest ho hlast hheld hroot
  rw [exec_bind]
  generalize exec p s = r at hp ⊢
  obtain ⟨e | a, s'⟩ := r
  · exact hp
  · obtain ⟨hpass, ha⟩ := hp
    obtain ⟨leaked, hheld'⟩ := hpass.held
    have hq := h' a ha s' (leaked ++ rest) (hpass.open hlow ho)
      (hlast.trans (Nat.succ_le_succ hpass.lastId)) hheld' (List.mem_append_right _ hroot)
    dsimp only
    generalize exec (q a) s' = r at hq ⊢
    obtain ⟨e | b, s''⟩ := r
    · exact hpass.trans (Passes.leak hq)
    · exact ⟨hpass.trans hq.1.leak, hq.2⟩

/-- A reader that looks at the state first. -/
theorem get_bind {q : ReaderState → Reader β}
    (h : ∀ s, Open ctx header s → low ≤ s.world.registry.lastId + 1 →
      ∀ rest, s.world.held.Perm (given ++ rest) → ctx.environment.scene ∈ rest →
        Ends ctx header low rest taken' Q' s (exec (q s) s)) :
    Reads ctx header low given (get >>= q) taken' Q' := by
  intro s rest ho hlast hheld hroot
  rw [exec_bind_ok (exec_get s)]
  exact h s ho hlast rest hheld hroot

theorem imp {P : α → Prop} (h : Reads ctx header low given p taken P) (hPQ : ∀ a, P a → Q a) :
    Reads ctx header low given p taken Q := by
  intro s rest ho hlast hheld hroot
  have hp := h s rest ho hlast hheld hroot
  generalize exec p s = r at hp ⊢
  obtain ⟨e | a, s'⟩ := r
  · exact hp
  · exact ⟨hp.1, hPQ a hp.2⟩

theorem map {f : α → β} (h : Reads ctx header low given p (fun a => taken' (f a)) fun a => Q' (f a)) :
    Reads ctx header low given (f <$> p) taken' Q' := by
  intro s rest ho hlast hheld hroot
  have hp := h s rest ho hlast hheld hroot
  rw [exec_map]
  generalize exec p s = r at hp ⊢
  obtain ⟨e | a, s'⟩ := r
  · exact hp
  · exact hp

theorem given_perm {given' : List NodeId} (hperm : given'.Perm given)
    (h : Reads ctx header low given p taken Q) : Reads ctx header low given' p taken Q :=
  fun s rest ho hlast hheld hroot => h s rest ho hlast (hheld.trans (hperm.append_right rest)) hroot

/-- Handles that a reader has nothing to do with stay. -/
theorem frame {mine : List NodeId} (h : Reads ctx header low given p taken Q) :
    Reads ctx header low (given ++ mine) p (fun a => taken a ++ mine) Q := by
  intro s rest ho hlast hheld hroot
  rw [List.append_assoc] at hheld
  have hp := h s (mine ++ rest) ho hlast hheld (List.mem_append_right _ hroot)
  generalize exec p s = r at hp ⊢
  obtain ⟨e | a, s'⟩ := r
  · exact (Passes.reframe hp).forsake
  · exact ⟨hp.1.reframe, hp.2⟩

/-- Handles that a reader has nothing to do with are given back if it fails. -/
theorem onFailure (hlow : ctx.environment.scene.value < low) {mine : List NodeId}
    (hmine : ∀ id ∈ mine, ctx.environment.scene.value < id.value)
    (h : Reads ctx header low given p taken Q) :
    Reads ctx header low (given ++ mine) (onFailure p (·.dropAll mine)) (fun a => taken a ++ mine) Q := by
  intro s rest ho hlast hheld hroot
  rw [List.append_assoc] at hheld
  have hp := h s (mine ++ rest) ho hlast hheld (List.mem_append_right _ hroot)
  rw [exec_onFailure]
  generalize exec p s = r at hp ⊢
  obtain ⟨e | a, s'⟩ := r
  · exact Passes.dropAll hp hlow ho hmine hroot
  · exact ⟨hp.1.reframe, hp.2⟩

/-- The world is edited once. -/
theorem act {f : World → World} {kept : List NodeId}
    (h : ∀ w, Drafted header ctx.environment w → low ≤ w.registry.lastId + 1 → ∀ rest,
      w.held.Perm (given ++ rest) → ctx.environment.scene ∈ rest →
        Edits header ctx.environment low false w (f w) ∧ (f w).held.Perm (kept ++ rest)) :
    Reads ctx header low given (act f) (fun _ => kept) fun _ => True := by
  intro s rest ho hlast hheld hroot
  obtain ⟨he, hperm⟩ := h s.world ho.drafted hlast rest hheld hroot
  exact ⟨.of_edits he hperm false, trivial⟩

/-- Something is entered into the journal. -/
theorem enter (e : Entry) : Reads ctx header low given (Reader.act (·.enter e)) (fun _ => given)
    fun _ => True :=
  act fun w _ _ _ hheld _ => ⟨.single (.noted w e), hheld⟩

end Reads

/-! ### Tokens -/

/-- Nothing is taken or given, and nothing is asked of the answer. -/
abbrev ReadsOnly (ctx : DocumentContext) (header : Header) (low : Nat) (p : Reader α) (Q : α → Prop) : Prop :=
  Reads ctx header low [] p (fun _ => []) Q

/-- Afterwards tokens are taken. -/
theorem Passes.take {kept : List NodeId} {failed : Bool} (h : Passes ctx header low rest s s' kept failed)
    (hw : s''.world = s'.world) (hscene : s''.scene = s'.scene) (ht : s''.tokens <:+ s'.tokens) :
    Passes ctx header low rest s s'' kept failed :=
  ⟨hw ▸ h.held, hw ▸ h.edits, ht.trans h.tokens, hscene ▸ h.scene, fun h' => hscene ▸ h.tidy h'⟩

theorem Passes.of_tokens {kept : List NodeId} (hheld : s.world.held.Perm (kept ++ rest))
    (hw : s'.world = s.world) (hscene : s'.scene = s.scene) (ht : s'.tokens <:+ s.tokens) (failed : Bool) :
    Passes ctx header low rest s s' kept failed :=
  (Passes.refl hheld failed).take hw hscene ht

theorem exec_pop_any (ctx : DocumentContext) (s : ReaderState) :
    ∃ s', exec (pop ctx) s = (.ok ⟨⟩, s') ∧ s'.world = s.world ∧ s'.scene = s.scene ∧
      s'.tokens <:+ s.tokens := by
  refine ⟨_, exec_modify _ s, ?_⟩
  cases hl : s.lexemes with
  | nil =>
    have hnil : s.tokens = [] := by rw [ReaderState.tokens, hl]; rfl
    exact ⟨rfl, rfl, hnil ▸ List.nil_suffix⟩
  | cons l lexemes =>
    have hcons : s.tokens = l.token :: lexemes.map (·.token) := by rw [ReaderState.tokens, hl]; rfl
    exact ⟨rfl, rfl, hcons ▸ List.suffix_cons _ _⟩

namespace Reads

variable {p : Reader α} {taken : α → List NodeId} {Q : α → Prop}

/-- An answer without handles. -/
theorem answer (a : α) (ha : Q a) : ReadsOnly ctx header low (Pure.pure a) Q :=
  fun _ _ _ _ hheld _ => ⟨.refl hheld false, ha⟩

theorem warn (p : Position) (text : String) :
    ReadsOnly ctx header low (warn ctx p text) fun _ => True := enter _

theorem pop : Reads ctx header low given (pop ctx) (fun _ => given) fun _ => True := by
  intro s rest ho hlast hheld hroot
  obtain ⟨s', hrun, hw, hscene, ht⟩ := exec_pop_any ctx s
  rw [hrun]
  exact ⟨.of_tokens hheld hw hscene ht false, trivial⟩

theorem unexpected (expected : String) :
    Reads ctx header low [] (unexpected ctx expected : Reader α) taken Q := by
  intro s rest ho hlast hheld hroot
  rw [Reader.unexpected, exec_bind_ok (exec_peek? s)]
  split
  · rw [exec_bind_ok (exec_position ctx s)]
    exact .refl hheld _
  · exact .refl hheld _

theorem token (hlow : ctx.environment.scene.value < low) (expected : String) (accept : Token → Option α) :
    ReadsOnly ctx header low (token ctx expected accept) fun a =>
      ∃ t : Token, t.Valid (some header) ∧ accept t = some a := by
  intro s rest ho hlast hheld hroot
  rw [Reader.token, exec_bind_ok (exec_peek? s)]
  split
  · rename_i a ha
    obtain ⟨t, ht, hat⟩ := Option.bind_eq_some_iff.1 ha
    have hvalid := ho.valid t (List.mem_of_mem_head? ht)
    exact bind hlow pop (fun _ _ => .answer a ⟨t, hvalid, hat⟩) s rest ho hlast hheld hroot
  · exact unexpected expected s rest ho hlast hheld hroot

theorem any (h : ReadsOnly ctx header low p Q) : ReadsOnly ctx header low p fun _ => True :=
  h.imp fun _ _ => trivial

variable (hlow : ctx.environment.scene.value < low)
include hlow

theorem identifier (expected : String) :
    ReadsOnly ctx header low (identifier ctx expected) (IsIdentifier (some header)) := by
  refine (token hlow expected _).imp fun name ⟨t, hvalid, ht⟩ => ?_
  cases t with
  | identifier s => exact Option.some.inj ht ▸ hvalid
  | _ => cases ht

theorem quoted (expected : String) : ReadsOnly ctx header low (quoted ctx expected) fun _ => True :=
  (token hlow expected _).any

theorem symbol (c : Symbol) : ReadsOnly ctx header low (symbol ctx c) fun _ => True :=
  (token hlow _ _).any

theorem keyword (k : Keyword) : ReadsOnly ctx header low (keyword ctx k) fun _ => True :=
  (token hlow _ _).any

theorem optionalSymbol (c : Symbol) : ReadsOnly ctx header low (optionalSymbol ctx c) fun _ => True := by
  intro s rest ho hlast hheld hroot
  rw [Reader.optionalSymbol, exec_bind_ok (exec_peek? s)]
  split
  · exact bind hlow pop (fun _ _ => .answer true trivial) s rest ho hlast hheld hroot
  · exact ⟨.refl hheld false, trivial⟩

theorem optionalKeyword (k : Keyword) :
    ReadsOnly ctx header low (optionalKeyword ctx k) fun _ => True := by
  intro s rest ho hlast hheld hroot
  rw [Reader.optionalKeyword, exec_bind_ok (exec_peek? s)]
  split
  · exact bind hlow pop (fun _ _ => .answer true trivial) s rest ho hlast hheld hroot
  · exact ⟨.refl hheld false, trivial⟩

/-! ### Values -/

theorem number : ReadsOnly ctx header low (number ctx) fun _ => True := (token hlow _ _).any

theorem float : ReadsOnly ctx header low (float ctx) fun _ => True := (number hlow).map

theorem vector2 : ReadsOnly ctx header low (vector2 ctx) fun _ => True :=
  (float hlow).bind hlow fun _ _ => (float hlow).bind hlow fun _ _ => .answer _ trivial

theorem vector3 : ReadsOnly ctx header low (vector3 ctx) fun _ => True :=
  (float hlow).bind hlow fun _ _ => (float hlow).bind hlow fun _ _ => (float hlow).bind hlow fun _ _ =>
    .answer _ trivial

theorem vector4 : ReadsOnly ctx header low (vector4 ctx) fun _ => True :=
  (float hlow).bind hlow fun _ _ => (float hlow).bind hlow fun _ _ => (float hlow).bind hlow fun _ _ =>
    (float hlow).bind hlow fun _ _ => .answer _ trivial

theorem rotation : ReadsOnly ctx header low (rotation ctx) fun _ => True := by
  refine (vector3 hlow).bind hlow fun axis _ => (float hlow).bind hlow fun angle _ => ?_
  split
  · exact .answer _ trivial
  · intro s rest ho hlast hheld hroot
    rw [exec_bind_ok (exec_last s)]
    exact (warn _ _).bind hlow (fun _ _ => .answer _ trivial) s rest ho hlast hheld hroot

/-- A value that is no node is clamped. -/
theorem value (node : Reader (Option NodeId)) {t : FieldType} (ht : t ≠ .node) :
    ReadsOnly ctx header low (value ctx node t) t.IsClamped := by
  cases t with
  | node => exact absurd rfl ht
  | boolean => exact (token hlow _ _).any
  | int => exact (token hlow _ _).any
  | float => exact float hlow
  | time => exact number hlow
  | string => exact (token hlow _ _).any
  | color => exact (vector3 hlow).bind hlow fun v _ => .answer _ (Color.clamped_clamped _ _ _)
  | rotation => exact rotation hlow
  | vector2 => exact vector2 hlow
  | vector3 => exact vector3 hlow
  | vector4 => exact vector4 hlow
  | matrix3 =>
    exact (vector3 hlow).bind hlow fun _ _ => (vector3 hlow).bind hlow fun _ _ =>
      (vector3 hlow).bind hlow fun _ _ => .answer _ trivial
  | matrix4 =>
    exact (vector4 hlow).bind hlow fun _ _ => (vector4 hlow).bind hlow fun _ _ =>
      (vector4 hlow).bind hlow fun _ _ => (vector4 hlow).bind hlow fun _ _ => .answer _ trivial

theorem items {item : Reader α} (h : ReadsOnly ctx header low item Q) (n : Nat) :
    ReadsOnly ctx header low (items ctx item n) fun as => ∀ a ∈ as, Q a := by
  induction n with
  | zero => exact .throw
  | succ n ih =>
    refine (optionalSymbol hlow _).bind hlow fun b _ => ?_
    split
    · exact .answer [] (by simp)
    · exact h.bind hlow fun a ha => ih.bind hlow fun as has =>
        .answer (a :: as) (List.forall_mem_cons.2 ⟨ha, has⟩)

theorem list {item : Reader α} (h : ReadsOnly ctx header low item Q) :
    ReadsOnly ctx header low (list ctx item) fun as => ∀ a ∈ as, Q a := by
  refine (optionalSymbol hlow _).bind hlow fun b _ => ?_
  split
  · exact get_bind fun s ho hlast rest hheld hroot => items hlow h _ s rest ho hlast hheld hroot
  · exact h.bind hlow fun a ha => .answer [a] (by simpa using ha)

/-! ### Nodes -/

/-- Reads a node, or none, and takes a handle of it. -/
def OfNode (ctx : DocumentContext) (header : Header) (low : Nat) (p : Reader (Option NodeId)) : Prop :=
  Reads ctx header low [] p Option.toList fun id => ∀ r ∈ id, ctx.environment.scene.value < r.value

theorem nodeItems {node : Reader (Option NodeId)} (h : OfNode ctx header low node) (n : Nat)
    {before : List NodeId} (hbefore : ∀ r ∈ before, ctx.environment.scene.value < r.value) :
    Reads ctx header low before (nodeItems ctx node n before) id
      fun ids => ∀ r ∈ ids, ctx.environment.scene.value < r.value := by
  induction n generalizing before with
  | zero => exact .throw
  | succ n ih =>
    refine (optionalSymbol hlow _).frame.bind hlow fun b _ => ?_
    split
    · exact .pure before rfl hbefore
    · refine (h.onFailure hlow hbefore).bind hlow fun next hnext => ?_
      refine Reads.given_perm List.perm_append_comm (ih (List.forall_mem_append.2 ⟨hbefore, fun r hr => ?_⟩))
      exact hnext r (Option.mem_toList.1 hr)

theorem nodeList {node : Reader (Option NodeId)} (h : OfNode ctx header low node) :
    Reads ctx header low [] (nodeList ctx node) id
      fun ids => ∀ r ∈ ids, ctx.environment.scene.value < r.value := by
  refine (optionalSymbol hlow _).bind hlow fun b _ => ?_
  split
  · exact get_bind fun s ho hlast rest hheld hroot =>
      nodeItems hlow h _ (by simp) s rest ho hlast hheld hroot
  · refine h.bind hlow fun next hnext => ?_
    exact .pure next.toList rfl fun r hr => hnext r (Option.mem_toList.1 hr)

/-- What is read for a field is a draft of the kind, and the nodes in it are held. -/
theorem content {node : Reader (Option NodeId)} (h : OfNode ctx header low node) (k : Kind) :
    Reads ctx header low [] (content ctx node k) Field.references
      fun f => f.kind = k ∧ f.IsDraft ctx.environment.scene := by
  obtain ⟨t, d⟩ := k
  by_cases ht : t = .node
  · subst ht
    cases d with
    | single =>
      refine h.bind hlow fun v hv => ?_
      have hrefs : (Field.single .node v ctx.time).references = v.toList := by cases v <;> rfl
      refine .pure _ hrefs ⟨rfl, ?_, nofun, ?_⟩
      · exact fun _ _ => trivial
      · rw [hrefs]
        exact fun r hr => hv r (Option.mem_toList.1 hr)
    | multi =>
      refine (nodeList hlow h).bind hlow fun ids hids => ?_
      have hrefs : (Field.nodes ids ctx.time).references = ids := Field.references_nodes ids ctx.time
      refine .pure _ hrefs ⟨rfl, ?_, fun _ => ?_, ?_⟩
      · exact fun _ _ => trivial
      · rw [hrefs]
        rfl
      · rw [hrefs]
        exact hids
  · cases d with
    | single =>
      refine (value hlow node ht).bind hlow fun v hv => ?_
      have hrefs : (Field.single t v ctx.time).references = [] := Field.references_eq_nil ht
      refine .pure _ hrefs ⟨rfl, ?_, nofun, ?_⟩
      · exact fun u hu => by rwa [List.mem_singleton.1 hu]
      · rw [hrefs]
        exact fun r hr => by cases hr
    | multi =>
      have hcontent : Reader.content ctx node ⟨t, .multi⟩ =
          (do return .multi t (← Reader.list ctx (Reader.value ctx node t)) ctx.time) := by
        cases t <;> first | rfl | exact absurd rfl ht
      rw [hcontent]
      refine (list hlow (value hlow node ht)).bind hlow fun vs hvs => ?_
      have hrefs : (Field.multi t vs ctx.time).references = [] := Field.references_eq_nil ht
      refine .pure _ hrefs ⟨rfl, hvs, fun hk => ?_, ?_⟩
      · exact absurd (congrArg Kind.type hk) ht
      · rw [hrefs]
        exact fun r hr => by cases hr

end Reads

end Reader

end SceneGraph
