import SceneGraph.Proofs.Document.Nesting
import SceneGraph.Proofs.World.Renaming

/-!
# Two readings side by side

The same tokens are read into two worlds that correspond under a map of ids. If whatever readers do to a
world keeps the correspondence (`Reader.Correspondence`), the two readings take the same tokens, fail with
the same errors and answer with nodes that correspond (`Reader.Parallel`). Along the way it is counted how
many tokens are taken, and the readers of nested declarations only have to agree where fewer tokens are
left.

* `Reader.Parallel.bind`, `bind_left`, `bind_sub`: steps of readers, one after the other.
* `Reader.Parallel.branch`: a token that may be there.
* `Reader.Correspondence.content`: the content of a field, if the readers of nodes run in parallel.
-/

namespace SceneGraph

namespace Reader

/-- Two worlds that correspond under a map of ids go on to correspond, whatever readers do to them. `Own`
are the nodes that readers deal with. -/
structure Correspondence (ctx ctx' : DocumentContext) (φ : NodeId → NodeId) (Own : NodeId → Prop)
    (W : World → World → Prop) : Prop where
  file : ctx'.file = ctx.file
  time : ctx'.time = ctx.time
  size : ctx'.size = ctx.size
  stop : ctx'.stop = ctx.stop
  control : ctx'.control = ctx.control
  enter : ∀ {w w'} e, W w w' → W (w.enter e) (w'.enter e)
  create : ∀ {w w'} typeName, W w w' → ∃ o v v',
    w.createOfType ctx.catalog typeName ctx.environment = .ok (o, v) ∧
      w'.createOfType ctx'.catalog typeName ctx'.environment = .ok (o.map φ, v') ∧ W v v' ∧ ∀ r ∈ o, Own r
  node : ∀ {w w' id}, W w w' → Own id → Option.Rel (Node.Matches φ) (w.node? id) (w'.node? (φ id))
  find : ∀ {w w'} name, W w w' → Option.Rel (fun n m => n.Matches φ m ∧ Own n.id)
    (w.findInScene? name ctx.environment.scene) (w'.findInScene? name ctx'.environment.scene)
  hold : ∀ {w w' id}, W w w' → Own id → W (w.hold id) (w'.hold (φ id))
  setName : ∀ {w w' id} name, W w w' → Own id → W (w.setName id name) (w'.setName (φ id) name)
  initField : ∀ {w w' id} name {value : Field}, W w w' → Own id → (∀ r ∈ value.references, Own r) →
    (w'.initField (φ id) name (value.mapNodes φ)).1 = (w.initField id name value).1 ∧
      W (w.initField id name value).2 (w'.initField (φ id) name (value.mapNodes φ)).2
  addField : ∀ {w w' id} name k, W w w' → Own id →
    (w'.addField (φ id) name (.initial k)).1 = (w.addField id name (.initial k)).1 ∧
      W (w.addField id name (.initial k)).2 (w'.addField (φ id) name (.initial k)).2
  connect : ∀ {w w' id target} output input, W w w' → Own id → Own target →
    (w'.addConnection (φ id) output ⟨φ target, input⟩).1 = (w.addConnection id output ⟨target, input⟩).1 ∧
      W (w.addConnection id output ⟨target, input⟩).2 (w'.addConnection (φ id) output ⟨φ target, input⟩).2
  discard : ∀ {w w' id}, W w w' → Own id → W (w.discard id) (w'.discard (φ id))
  dropAll : ∀ {w w' ids}, W w w' → (∀ id ∈ ids, Own id) → W (w.dropAll ids) (w'.dropAll (ids.map φ))

variable {α β γ δ : Type} {ctx ctx' : DocumentContext} {φ : NodeId → NodeId} {Own : NodeId → Prop}
  {W : World → World → Prop} {bound count count' : Nat} {s s' : ReaderState}

/-- Two readings have come equally far, with corresponding worlds and the same scene but for its root. -/
structure Twin (W : World → World → Prop) (ctx ctx' : DocumentContext) (s s' : ReaderState) : Prop where
  lexemes : s'.lexemes = s.lexemes
  last : s'.last = s.last
  asked : s'.asked = s.asked
  progress : s'.progress = s.progress
  checkpoints : s'.checkpoints = s.checkpoints
  root : s.scene.root = ctx.environment.scene
  scene : s'.scene = { s.scene with root := ctx'.environment.scene }
  world : W s.world s'.world

/-- Two readings end alike: with answers that are related and at least so many tokens taken, or with the
same error, which is none of a type of nodes. -/
def EndsAlike (W : World → World → Prop) (ctx ctx' : DocumentContext) (length count : Nat)
    (A : α → β → Prop) : Except ReadError α × ReaderState → Except ReadError β × ReaderState → Prop
  | (.ok a, t), (.ok b, t') => Twin W ctx ctx' t t' ∧ A a b ∧ t.lexemes.length + count ≤ length
  | (.error e, t), (.error e', t') => Twin W ctx ctx' t t' ∧ e' = e ∧ (∀ l, e ≠ .layout l) ∧
      t.lexemes.length ≤ length
  | _, _ => False

/-- With fewer than so many tokens left, two readers end alike. -/
def Parallel (W : World → World → Prop) (ctx ctx' : DocumentContext) (bound count : Nat) (p : Reader α)
    (p' : Reader β) (A : α → β → Prop) : Prop :=
  ∀ s s', Twin W ctx ctx' s s' → s.lexemes.length < bound →
    EndsAlike W ctx ctx' s.lexemes.length count A (exec p s) (exec p' s')

/-- The answers are nodes that correspond, or none. -/
def NodeImage (φ : NodeId → NodeId) (Own : NodeId → Prop) (o o' : Option NodeId) : Prop :=
  o' = o.map φ ∧ ∀ r ∈ o, Own r

/-- The answers are lists of nodes that correspond. -/
def NodeImages (φ : NodeId → NodeId) (Own : NodeId → Prop) (ids ids' : List NodeId) : Prop :=
  ids' = ids.map φ ∧ ∀ r ∈ ids, Own r

/-- The answers are values whose nodes correspond. -/
def ValueImage (φ : NodeId → NodeId) (Own : NodeId → Prop) (f g : Field) : Prop :=
  g = f.mapNodes φ ∧ ∀ r ∈ f.references, Own r

theorem Twin.tokens (h : Twin W ctx ctx' s s') : s'.tokens = s.tokens := by
  rw [ReaderState.tokens, h.lexemes, ReaderState.tokens]

/-- The worlds are changed. -/
theorem Twin.change (h : Twin W ctx ctx' s s') {w w' : World} (hw : W w w') :
    Twin W ctx ctx' { s with world := w } { s' with world := w' } :=
  { h with world := hw }

theorem EndsAlike.mono {A : α → β → Prop} {length length' : Nat} {r : Except ReadError α × ReaderState}
    {r' : Except ReadError β × ReaderState} (h : EndsAlike W ctx ctx' length count A r r')
    (hlength : length ≤ length') (hcount : length + count' ≤ length' + count) :
    EndsAlike W ctx ctx' length' count' A r r' := by
  obtain ⟨e | a, t⟩ := r <;> obtain ⟨e' | b, t'⟩ := r'
  · obtain ⟨htwin, he, hlayout, hle⟩ := h
    exact ⟨htwin, he, hlayout, hle.trans hlength⟩
  · exact h
  · exact h
  · obtain ⟨htwin, ha, hle⟩ := h
    exact ⟨htwin, ha, by omega⟩

namespace Parallel

variable {p : Reader α} {p' : Reader β} {q : α → Reader γ} {q' : β → Reader δ} {A : α → β → Prop}
  {B : γ → δ → Prop}

/-! ### Steps -/

theorem mono {bound' : Nat} (h : Parallel W ctx ctx' bound count p p' A) (hbound : bound' ≤ bound)
    (hcount : count' ≤ count) : Parallel W ctx ctx' bound' count' p p' A := fun s s' hs hlt =>
  (h s s' hs (Nat.lt_of_lt_of_le hlt hbound)).mono (Nat.le_refl _) (Nat.add_le_add_left hcount _)

/-- What the first reader takes is out of the way of the second. -/
theorem bind_sub (hp : Parallel W ctx ctx' bound count p p' A)
    (hq : ∀ a b, A a b → Parallel W ctx ctx' (bound - count) count' (q a) (q' b) B) :
    Parallel W ctx ctx' bound (count + count') (p >>= q) (p' >>= q') B := by
  intro s s' hs hlt
  have hends := hp s s' hs hlt
  rw [exec_bind, exec_bind]
  generalize exec p s = r at hends ⊢
  generalize exec p' s' = r' at hends ⊢
  obtain ⟨e | a, t⟩ := r <;> obtain ⟨e' | b, t'⟩ := r'
  · exact hends
  · exact hends.elim
  · exact hends.elim
  · obtain ⟨htwin, ha, hle⟩ := hends
    exact (hq a b ha t t' htwin (by omega)).mono (by omega) (by omega)

theorem uncounted (h : Parallel W ctx ctx' bound count p p' A) : Parallel W ctx ctx' bound 0 p p' A :=
  h.mono (Nat.le_refl _) (Nat.zero_le _)

/-- What the first reader takes is not counted. -/
theorem bind (hp : Parallel W ctx ctx' bound count' p p' A)
    (hq : ∀ a b, A a b → Parallel W ctx ctx' bound count (q a) (q' b) B) :
    Parallel W ctx ctx' bound count (p >>= q) (p' >>= q') B :=
  (hp.uncounted.bind_sub hq).mono (Nat.le_refl _) (Nat.le_add_left _ _)

/-- What the second reader takes is not counted. -/
theorem bind_left (hp : Parallel W ctx ctx' bound count p p' A)
    (hq : ∀ a b, A a b → Parallel W ctx ctx' bound 0 (q a) (q' b) B) :
    Parallel W ctx ctx' bound count (p >>= q) (p' >>= q') B :=
  hp.bind_sub fun a b h => (hq a b h).mono (Nat.sub_le _ _) (Nat.le_refl _)

/-- The answers of the first readers are the same. -/
theorem bind_eq {p p' : Reader α} {q : α → Reader γ} {q' : α → Reader δ}
    (hp : Parallel W ctx ctx' bound count' p p' Eq)
    (hq : ∀ a, Parallel W ctx ctx' bound count (q a) (q' a) B) :
    Parallel W ctx ctx' bound count (p >>= q) (p' >>= q') B := by
  refine hp.bind fun a b hab => ?_
  subst hab
  exact hq a

theorem bind_eq_left {p p' : Reader α} {q : α → Reader γ} {q' : α → Reader δ}
    (hp : Parallel W ctx ctx' bound count p p' Eq)
    (hq : ∀ a, Parallel W ctx ctx' bound 0 (q a) (q' a) B) :
    Parallel W ctx ctx' bound count (p >>= q) (p' >>= q') B := by
  refine hp.bind_left fun a b hab => ?_
  subst hab
  exact hq a

theorem pure {a : α} {b : β} (h : A a b) : Parallel W ctx ctx' bound 0 (Pure.pure a) (Pure.pure b) A :=
  fun _ _ hs _ => ⟨hs, h, Nat.le_refl _⟩

theorem fail {e : ReadError} (he : ∀ l, e ≠ .layout l) :
    Parallel W ctx ctx' bound count (throw e : Reader α) (throw e : Reader β) A :=
  fun _ _ hs _ => ⟨hs, rfl, he, Nat.le_refl _⟩

theorem map {f : α → γ} {g : β → δ} (h : Parallel W ctx ctx' bound count p p' A)
    (hB : ∀ a b, A a b → B (f a) (g b)) : Parallel W ctx ctx' bound count (f <$> p) (g <$> p') B := by
  intro s s' hs hlt
  have hends := h s s' hs hlt
  rw [exec_map, exec_map]
  generalize exec p s = r at hends ⊢
  generalize exec p' s' = r' at hends ⊢
  obtain ⟨e | a, t⟩ := r <;> obtain ⟨e' | b, t'⟩ := r'
  · exact hends
  · exact hends
  · exact hends
  · exact ⟨hends.1, hB a b hends.2.1, hends.2.2⟩

/-- Readers that look at the state first. -/
theorem get_bind {q : ReaderState → Reader γ} {q' : ReaderState → Reader δ}
    (h : ∀ s s', Twin W ctx ctx' s s' → s.lexemes.length < bound →
      EndsAlike W ctx ctx' s.lexemes.length count B (exec (q s) s) (exec (q' s') s')) :
    Parallel W ctx ctx' bound count (get >>= q) (get >>= q') B := by
  intro s s' hs hlt
  rw [exec_bind_ok (exec_get s), exec_bind_ok (exec_get s')]
  exact h s s' hs hlt

theorem act {f f' : World → World} (hf : ∀ w w', W w w' → W (f w) (f' w')) :
    Parallel W ctx ctx' bound 0 (act f) (act f') fun _ _ => True :=
  fun _ _ hs _ => ⟨hs.change (hf _ _ hs.world), trivial, Nat.le_refl _⟩

theorem onFailure {f f' : World → World} (h : Parallel W ctx ctx' bound count p p' A)
    (hf : ∀ w w', W w w' → W (f w) (f' w')) :
    Parallel W ctx ctx' bound count (onFailure p f) (onFailure p' f') A := by
  intro s s' hs hlt
  have hends := h s s' hs hlt
  rw [exec_onFailure, exec_onFailure]
  generalize exec p s = r at hends ⊢
  generalize exec p' s' = r' at hends ⊢
  obtain ⟨e | a, t⟩ := r <;> obtain ⟨e' | b, t'⟩ := r'
  · exact ⟨hends.1.change (hf _ _ hends.1.world), hends.2⟩
  · exact hends
  · exact hends
  · exact hends

/-- The results of two attempts are alike. -/
def Attempted (A : α → β → Prop) : Except ReadError α → Except ReadError β → Prop
  | .ok a, .ok b => A a b
  | .error e, .error e' => e' = e ∧ ∀ l, e ≠ .layout l
  | _, _ => False

theorem attempt (h : Parallel W ctx ctx' bound count p p' A) :
    Parallel W ctx ctx' bound 0 (attempt p) (attempt p') (Attempted A) := by
  intro s s' hs hlt
  have hends := h s s' hs hlt
  rw [exec_attempt, exec_attempt]
  generalize exec p s = r at hends ⊢
  generalize exec p' s' = r' at hends ⊢
  obtain ⟨e | a, t⟩ := r <;> obtain ⟨e' | b, t'⟩ := r'
  · exact ⟨hends.1, ⟨hends.2.1, hends.2.2.1⟩, hends.2.2.2⟩
  · exact hends.elim
  · exact hends.elim
  · exact ⟨hends.1, hends.2.1, (Nat.le_add_right _ _).trans hends.2.2⟩

/-- A change of the two worlds that fails in both or in none. -/
theorem change (result result' : World → Except NodeError Unit × World) (p : Position)
    (h : ∀ w w', W w w' → (result' w').1 = (result w).1 ∧ W (result w).2 (result' w').2) :
    Parallel W ctx ctx' bound 0
      (do
        let s ← get
        set { s with world := (result s.world).2 }
        match (result s.world).1 with
        | .ok _ => return
        | .error e => throw (.node e p))
      (do
        let s ← get
        set { s with world := (result' s.world).2 }
        match (result' s.world).1 with
        | .ok _ => return
        | .error e => throw (.node e p)) fun _ _ => True := by
  refine .get_bind fun s s' hs hlt => ?_
  obtain ⟨heq, hw⟩ := h _ _ hs.world
  rw [exec_bind_ok (exec_set s _), exec_bind_ok (exec_set s' _), heq]
  split
  · exact ⟨hs.change hw, trivial, Nat.le_refl _⟩
  · exact ⟨hs.change hw, rfl, by simp, Nat.le_refl _⟩

/-! ### Tokens -/

/-- A token that is there is taken. -/
theorem pop_cons (hs : Twin W ctx ctx' s s') (hne : s.lexemes ≠ []) :
    EndsAlike W ctx ctx' s.lexemes.length 1 (fun _ _ => True) (exec (Reader.pop ctx) s)
      (exec (Reader.pop ctx') s') := by
  rw [Reader.pop, Reader.pop, exec_modify, exec_modify, hs.lexemes]
  cases hl : s.lexemes with
  | nil => exact absurd hl hne
  | cons l rest => exact ⟨{ hs with lexemes := rfl, last := rfl }, trivial, Nat.le_refl _⟩

/-- A token that is there is taken, and then it goes on. -/
theorem pop_bind {t : Token} (hs : Twin W ctx ctx' s s') (hhead : s.tokens.head? = some t)
    (hlt : s.lexemes.length < bound) {q : Reader α} {q' : Reader β}
    (hq : Parallel W ctx ctx' bound 0 q q' A) :
    EndsAlike W ctx ctx' s.lexemes.length 1 A (exec (do Reader.pop ctx; q) s)
      (exec (do Reader.pop ctx'; q') s') := by
  have hne : s.lexemes ≠ [] := by
    intro hnil
    rw [ReaderState.tokens, hnil] at hhead
    cases hhead
  have hends := pop_cons hs hne
  rw [exec_bind, exec_bind]
  generalize exec (Reader.pop ctx) s = r at hends ⊢
  generalize exec (Reader.pop ctx') s' = r' at hends ⊢
  obtain ⟨e | _, t⟩ := r <;> obtain ⟨e' | _, t'⟩ := r'
  · exact hends
  · exact hends.elim
  · exact hends.elim
  · obtain ⟨htwin, -, hle⟩ := hends
    exact (hq t t' htwin (by omega)).mono (by omega) (by omega)

theorem peek? : Parallel W ctx ctx' bound 0 peek? peek? Eq := fun s s' hs _ => by
  rw [exec_peek?, exec_peek?, hs.tokens]
  exact ⟨hs, rfl, Nat.le_refl _⟩

theorem last : Parallel W ctx ctx' bound 0 last last Eq := fun s s' hs _ => by
  rw [exec_last, exec_last, hs.last]
  exact ⟨hs, rfl, Nat.le_refl _⟩

/-- A token that is asked for makes up for one that the first branch need not take. -/
theorem branch {test : Token → Bool} {k k' : Reader Bool} {yes no : Reader α} {yes' no' : Reader β}
    (hk : Tries ctx test k) (hk' : Tries ctx' test k')
    (hyes : Parallel W ctx ctx' bound (count - 1) yes yes' A)
    (hno : Parallel W ctx ctx' bound count no no' A) :
    Parallel W ctx ctx' bound count (do if ← k then yes else no) (do if ← k' then yes' else no') A := by
  intro s s' hs hlt
  have hrun := hk s
  have hrun' := hk' s'
  rw [hs.tokens] at hrun'
  by_cases htest : s.tokens.head?.any test = true
  · have hne : s.lexemes ≠ [] := by
      intro hnil
      rw [ReaderState.tokens, hnil] at htest
      cases htest
    rw [if_pos htest] at hrun hrun'
    rw [exec_bind_ok hrun, exec_bind_ok hrun', if_pos rfl, if_pos rfl]
    obtain ⟨htwin, -, hle⟩ := pop_cons hs hne
    exact (hyes _ _ htwin (by omega)).mono (by omega) (by omega)
  · rw [if_neg htest] at hrun hrun'
    rw [exec_bind_ok hrun, exec_bind_ok hrun', if_neg Bool.false_ne_true, if_neg Bool.false_ne_true]
    exact hno s s' hs hlt

theorem optional {test : Token → Bool} {k k' : Reader Bool} (hk : Tries ctx test k) (hk' : Tries ctx' test k') :
    Parallel W ctx ctx' bound 0 k k' Eq := by
  have hbranch : Parallel W ctx ctx' bound 0 (do if ← k then return true else return false)
      (do if ← k' then return true else return false) Eq := branch hk hk' (.pure rfl) (.pure rfl)
  have heta : ∀ q : Reader Bool, (do if ← q then return true else return false) = q := fun q => by
    refine Eq.trans (bind_congr fun b => ?_) (bind_pure q)
    cases b <;> rfl
  rwa [heta, heta] at hbranch

end Parallel

namespace Correspondence

variable (C : Correspondence ctx ctx' φ Own W)
include C

/-! ### Tokens -/

theorem pop : Parallel W ctx ctx' bound 0 (pop ctx) (pop ctx') fun _ _ => True := by
  intro s s' hs hlt
  rw [Reader.pop, Reader.pop, exec_modify, exec_modify, hs.lexemes, C.stop]
  cases hl : s.lexemes with
  | nil => exact ⟨{ hs with lexemes := rfl, last := rfl }, trivial, by simp⟩
  | cons l rest => exact ⟨{ hs with lexemes := rfl, last := rfl }, trivial, by simp⟩

theorem position : Parallel W ctx ctx' bound 0 (position ctx) (position ctx') Eq := fun s s' hs _ => by
  rw [exec_position, exec_position, hs.lexemes, C.stop]
  exact ⟨hs, rfl, Nat.le_refl _⟩

theorem unexpected (expected : String) {A : α → β → Prop} :
    Parallel W ctx ctx' bound count (unexpected ctx expected : Reader α) (unexpected ctx' expected) A := by
  refine Parallel.peek?.bind_eq fun t => ?_
  cases t with
  | some t =>
    refine C.position.bind_eq fun p => ?_
    exact .fail (by simp)
  | none =>
    rw [C.stop]
    exact .fail (by simp)

theorem token (expected : String) (accept : Token → Option α) :
    Parallel W ctx ctx' bound 1 (token ctx expected accept) (token ctx' expected accept) Eq := by
  intro s s' hs hlt
  rw [Reader.token, Reader.token, exec_bind_ok (exec_peek? s), exec_bind_ok (exec_peek? s'), hs.tokens]
  cases haccept : s.tokens.head?.bind accept with
  | none => exact C.unexpected expected s s' hs hlt
  | some a =>
    obtain ⟨t, hhead, -⟩ := Option.bind_eq_some_iff.1 haccept
    exact Parallel.pop_bind hs hhead hlt (.pure rfl)

theorem identifier (expected : String) :
    Parallel W ctx ctx' bound 1 (identifier ctx expected) (identifier ctx' expected) Eq := C.token expected _

theorem quoted (expected : String) :
    Parallel W ctx ctx' bound 1 (quoted ctx expected) (quoted ctx' expected) Eq := C.token expected _

theorem symbol (c : Symbol) : Parallel W ctx ctx' bound 1 (symbol ctx c) (symbol ctx' c) Eq := C.token _ _

theorem keyword (k : Keyword) : Parallel W ctx ctx' bound 1 (keyword ctx k) (keyword ctx' k) Eq :=
  C.token _ _

/-! ### Messages -/

theorem enter_act (e : Entry) : Parallel W ctx ctx' bound 0 (act (·.enter e)) (act (·.enter e)) fun _ _ => True :=
  .act fun _ _ hw => C.enter e hw

theorem warn (p : Position) (text : String) :
    Parallel W ctx ctx' bound 0 (warn ctx p text) (warn ctx' p text) fun _ _ => True := by
  rw [Reader.warn, Reader.warn, C.file]
  exact C.enter_act _

theorem logError (e : ReadError) :
    Parallel W ctx ctx' bound 0 (logError ctx e) (logError ctx' e) fun _ _ => True := by
  rw [Reader.logError, Reader.logError, C.file]
  exact C.enter_act _

/-! ### Skipping -/

theorem closeBraces (lexemes : List Lexeme) (unclosed : Nat) :
    Parallel W ctx ctx' bound 0 (closeBraces ctx lexemes unclosed) (closeBraces ctx' lexemes unclosed)
      fun _ _ => True := by
  induction lexemes generalizing unclosed with
  | nil =>
    cases unclosed with
    | zero => exact .pure trivial
    | succ unclosed =>
      refine C.pop.bind fun _ _ _ => ?_
      rw [C.stop]
      exact .fail (by simp)
  | cons l rest ih =>
    cases unclosed with
    | zero => exact .pure trivial
    | succ unclosed => exact C.pop.bind fun _ _ _ => ih _

theorem skipBody : Parallel W ctx ctx' bound 0 (skipBody ctx) (skipBody ctx') fun _ _ => True := by
  refine .get_bind fun s s' hs hlt => ?_
  rw [hs.lexemes]
  exact C.closeBraces _ _ s s' hs hlt

/-! ### Values -/

theorem number : Parallel W ctx ctx' bound 1 (number ctx) (number ctx') Eq := C.token _ _

theorem float : Parallel W ctx ctx' bound 1 (float ctx) (float ctx') Eq := C.number.map fun _ _ h => h ▸ rfl

theorem vector2 : Parallel W ctx ctx' bound 1 (vector2 ctx) (vector2 ctx') Eq :=
  C.float.bind_eq_left fun _ => C.float.bind_eq fun _ => .pure rfl

theorem vector3 : Parallel W ctx ctx' bound 1 (vector3 ctx) (vector3 ctx') Eq :=
  C.float.bind_eq_left fun _ => C.float.bind_eq fun _ => C.float.bind_eq fun _ => .pure rfl

theorem vector4 : Parallel W ctx ctx' bound 1 (vector4 ctx) (vector4 ctx') Eq :=
  C.float.bind_eq_left fun _ => C.float.bind_eq fun _ => C.float.bind_eq fun _ => C.float.bind_eq fun _ =>
    .pure rfl

theorem rotation : Parallel W ctx ctx' bound 1 (rotation ctx) (rotation ctx') Eq := by
  refine C.vector3.bind_eq_left fun axis => C.float.bind_eq fun angle => ?_
  split
  · exact .pure rfl
  · exact Parallel.last.bind_eq fun p => (C.warn p _).bind fun _ _ _ => .pure rfl

/-- A value that is no node takes at least one token. -/
theorem plainValue (node node' : Reader (Option NodeId)) {t : FieldType} (ht : t ≠ .node) :
    Parallel W ctx ctx' bound 1 (value ctx node t) (value ctx' node' t) Eq := by
  cases t with
  | node => exact absurd rfl ht
  | boolean => exact C.token _ _
  | int => exact C.token _ _
  | float => exact C.float
  | time => exact C.number
  | string => exact C.token _ _
  | color => exact C.vector3.bind_eq_left fun _ => .pure rfl
  | rotation => exact C.rotation
  | vector2 => exact C.vector2
  | vector3 => exact C.vector3
  | vector4 => exact C.vector4
  | matrix3 =>
    exact C.vector3.bind_eq_left fun _ => C.vector3.bind_eq fun _ => C.vector3.bind_eq fun _ => .pure rfl
  | matrix4 =>
    exact C.vector4.bind_eq_left fun _ => C.vector4.bind_eq fun _ => C.vector4.bind_eq fun _ =>
      C.vector4.bind_eq fun _ => .pure rfl

theorem items {item item' : Reader α} (hitem : Parallel W ctx ctx' bound 1 item item' Eq) (n : Nat) :
    Parallel W ctx ctx' bound 1 (items ctx item n) (items ctx' item' n) Eq := by
  induction n with
  | zero =>
    rw [Reader.items, Reader.items, C.stop]
    exact .fail (by simp)
  | succ n ih =>
    exact .branch (tries_optionalSymbol .listEnd) (tries_optionalSymbol .listEnd) (.pure rfl)
      (hitem.bind_eq_left fun _ => ih.bind_eq fun _ => .pure rfl)

theorem list {item item' : Reader α} (hitem : Parallel W ctx ctx' bound 1 item item' Eq) :
    Parallel W ctx ctx' bound 1 (list ctx item) (list ctx' item') Eq := by
  refine .branch (tries_optionalSymbol .listBegin) (tries_optionalSymbol .listBegin) ?_
    (hitem.bind_eq_left fun _ => .pure rfl)
  refine .get_bind fun s s' hs hlt => ?_
  rw [hs.lexemes]
  exact (C.items hitem _).uncounted s s' hs hlt

theorem nodeItems {node node' : Reader (Option NodeId)}
    (hnode : Parallel W ctx ctx' bound 1 node node' (NodeImage φ Own)) (n : Nat) {before : List NodeId}
    (hbefore : ∀ r ∈ before, Own r) :
    Parallel W ctx ctx' bound 1 (nodeItems ctx node n before) (nodeItems ctx' node' n (before.map φ))
      (NodeImages φ Own) := by
  induction n generalizing before with
  | zero =>
    rw [Reader.nodeItems, Reader.nodeItems, C.stop]
    exact .fail (by simp)
  | succ n ih =>
    refine .branch (tries_optionalSymbol .listEnd) (tries_optionalSymbol .listEnd) (.pure ⟨rfl, hbefore⟩) ?_
    refine (hnode.onFailure fun w w' hw => C.dropAll hw hbefore).bind_left fun next next' hnext => ?_
    obtain ⟨rfl, hown⟩ := hnext
    have hmap : before.map φ ++ (next.map φ).toList = (before ++ next.toList).map φ := by
      cases next <;> simp
    rw [hmap]
    exact .uncounted <| ih (List.forall_mem_append.2 ⟨hbefore, fun r hr => hown r (Option.mem_toList.1 hr)⟩)

theorem nodeList {node node' : Reader (Option NodeId)}
    (hnode : Parallel W ctx ctx' bound 1 node node' (NodeImage φ Own)) :
    Parallel W ctx ctx' bound 1 (nodeList ctx node) (nodeList ctx' node') (NodeImages φ Own) := by
  refine .branch (tries_optionalSymbol .listBegin) (tries_optionalSymbol .listBegin) ?_
    (hnode.bind_left fun next next' hnext => ?_)
  · refine .get_bind fun s s' hs hlt => ?_
    rw [hs.lexemes]
    exact (C.nodeItems hnode _ (by simp)).uncounted s s' hs hlt
  · obtain ⟨rfl, hown⟩ := hnext
    exact .pure ⟨by cases next <;> rfl, fun r hr => hown r (Option.mem_toList.1 hr)⟩

/-- The nodes in the content of a field correspond. -/
theorem content {node node' : Reader (Option NodeId)}
    (hnode : Parallel W ctx ctx' bound 1 node node' (NodeImage φ Own)) (k : Kind) :
    Parallel W ctx ctx' bound 1 (content ctx node k) (content ctx' node' k) (ValueImage φ Own) := by
  obtain ⟨t, d⟩ := k
  by_cases ht : t = .node
  · subst ht
    cases d with
    | single =>
      refine Parallel.bind_left hnode fun v v' hv => ?_
      obtain ⟨rfl, hown⟩ := hv
      rw [C.time]
      refine .pure ⟨rfl, fun r hr => hown r ?_⟩
      have hrefs : (Field.single .node v ctx.time).references = v.toList := by cases v <;> rfl
      exact Option.mem_toList.1 (hrefs ▸ hr)
    | multi =>
      refine (C.nodeList hnode).bind_left fun ids ids' hids => ?_
      obtain ⟨rfl, hown⟩ := hids
      rw [C.time]
      refine .pure ⟨?_, fun r hr => hown r (Field.references_nodes ids ctx.time ▸ hr)⟩
      simp [Field.nodes, Field.mapNodes, Field.multi]
  · have hplain : ∀ f : Field, f.kind.type = t → ValueImage φ Own f f := fun f hf => by
      refine ⟨(Field.mapNodes_of_ne (hf ▸ ht)).symm, fun r hr => ?_⟩
      rw [Field.references_eq_nil (hf ▸ ht)] at hr
      cases hr
    cases d with
    | single =>
      refine (C.plainValue node node' ht).bind_eq_left fun v => ?_
      rw [C.time]
      exact .pure (hplain _ rfl)
    | multi =>
      have hcontent : ∀ (ctx : DocumentContext) (node : Reader (Option NodeId)),
          Reader.content ctx node ⟨t, .multi⟩ =
            (do return .multi t (← Reader.list ctx (Reader.value ctx node t)) ctx.time) := by
        intro ctx node
        cases t <;> first | rfl | exact absurd rfl ht
      rw [hcontent, hcontent, C.time]
      exact (C.list (C.plainValue node node' ht)).bind_eq_left fun vs => .pure (hplain _ rfl)

end Correspondence

end Reader

end SceneGraph
