import SceneGraph.Library.Rehearsal
import SceneGraph.Proofs.Manager.Registrations

/-!
# Which library loads a file

A load asks libraries one after the other. Who is asked for what, and in which order, is decided before
(`Manager.Agenda`): the libraries that make permanent scenes come first, then those that make transient ones
only, each group in the order of the list. Those that decline or fail are passed (`Manager.Passed`), and the
load ends in one of five ways (`Manager.Ending`).

* `Manager.agenda`: the libraries to ask are those that load files with the extension, each once and in order.
* `Manager.exists_passed`: a search passes some of them and ends at the next one, or behind the last.
* `Manager.load_dispatches`: so does a load, and the permanent scenes are those of before and the answer.
-/

namespace SceneGraph

/-- The lifetime that a library is asked for: it makes permanent scenes wherever it can. -/
def Library.lifetime? (l : Library) : Option Lifetime :=
  if l.lifetimes.permanent then some .permanent
  else if l.lifetimes.transient then some .transient
  else none

/-- The error of an answer, if there is one. -/
def LoadAnswer.error? : LoadAnswer → Option LoadError
  | failed e => some e
  | _ => none

/-- The answer lets the next library have its turn. -/
def LoadAnswer.passes : LoadAnswer → Prop
  | declined => True
  | loaded _ => False
  | failed e => e.endsSearch = false

theorem LoadError.endsSearch_iff (e : LoadError) :
    e.endsSearch = true ↔ e = .document .cancelled ∨ ∃ fault, e = .document (.layout fault) := by
  unfold LoadError.endsSearch
  split <;> simp_all

namespace Manager

/-- A library that is asked for scenes of some lifetime. -/
abbrev Attempt := Library × Lifetime

/-- What a library answers when it is asked. -/
def ask (r : LoadRequest) (a : Attempt) (s : LoadState) : LoadAnswer × LoadState :=
  a.1.load { r with lifetime := a.2 } { s with world := s.world.step (.offered a.1.name r.path) }

/-- The message about a library that has no scene. -/
def note (r : LoadRequest) (a : Attempt) (answer : LoadAnswer) (w : World) : World :=
  match answer with
  | .declined => w.log .debug s!"library '{a.1.name}' declined {r.path}"
  | .failed e => w.log .warn s!"library '{a.1.name}' failed to load {r.path}: {e.message}"
  | .loaded _ => w

/-- Some libraries were asked one after the other, each of them before the host asked to stop, and every
answer let the next one have its turn. -/
inductive Passed (r : LoadRequest) : LoadState → List (Attempt × LoadAnswer) → LoadState → Prop
  | nil (s : LoadState) : Passed r s [] s
  | cons {s s' s'' : LoadState} {a : Attempt} {answer : LoadAnswer} {rest : List (Attempt × LoadAnswer)}
      (hrunning : r.control.isCancelled s.asked = false) (hanswer : ask r a s = (answer, s'))
      (hpasses : answer.passes) (hrest : Passed r { s' with world := note r a answer s'.world } rest s'') :
      Passed r s ((a, answer) :: rest) s''

/-- The last error among answers. -/
def lastError? (passed : List (Attempt × LoadAnswer)) : Option LoadError :=
  (passed.filterMap (·.2.error?)).getLast?

/-- How a load ends that still has some libraries to ask: it has its result, the manager, and the world. -/
inductive Ending (m : Manager) (r : LoadRequest) (last : LoadError) (s : LoadState) :
    List Attempt → Except LoadError Loaded × Manager × World → Prop
  /-- Nobody is left to be asked. -/
  | exhausted : Ending m r last s [] (.error last, m, s.world)
  /-- The host asked to stop before the next request. -/
  | stopped {a : Attempt} {rest : List Attempt} (hstop : r.control.isCancelled s.asked = true) :
      Ending m r last s (a :: rest) (.error (.document .cancelled), m, s.world)
  /-- The next library has a scene. -/
  | found {a : Attempt} {rest : List Attempt} {scene : LoadedScene} {s' : LoadState}
      (hrunning : r.control.isCancelled s.asked = false) (hanswer : ask r a s = (.loaded scene, s')) :
      Ending m r last s (a :: rest) (.ok ⟨scene, s'.progress⟩, m.keep scene s'.world)
  /-- The next library was stopped by the host. -/
  | cancelled {a : Attempt} {rest : List Attempt} {s' : LoadState}
      (hrunning : r.control.isCancelled s.asked = false)
      (hanswer : ask r a s = (.failed (.document .cancelled), s')) :
      Ending m r last s (a :: rest) (.error (.document .cancelled), m, s'.world)
  /-- The next library met a faulty type of nodes. -/
  | faulty {a : Attempt} {rest : List Attempt} {s' : LoadState} {fault : LayoutError}
      (hrunning : r.control.isCancelled s.asked = false)
      (hanswer : ask r a s = (.failed (.document (.layout fault)), s')) :
      Ending m r last s (a :: rest) (.error (.document (.layout fault)), m, s'.world)

/-! ### One request after the other -/

/-- A search ends as a load does that keeps what is found. -/
def conclude (m : Manager) : Except LoadError LoadedScene × LoadState → Except LoadError Loaded × Manager × World
  | (.error e, s) => (.error e, m, s.world)
  | (.ok scene, s) => (.ok ⟨scene, s.progress⟩, m.keep scene s.world)

theorem lastError?_cons (a : Attempt) (answer : LoadAnswer) (rest : List (Attempt × LoadAnswer)) (e : LoadError) :
    (lastError? ((a, answer) :: rest)).getD e = (lastError? rest).getD (answer.error?.getD e) := by
  unfold lastError?
  rw [List.filterMap_cons]
  cases answer.error? with
  | none => rfl
  | some e' =>
    dsimp only
    rw [List.getLast?_cons]
    rfl

/-- **A search passes libraries** that have no scene, until one of them ends it or none is left. By induction on
the libraries to ask. -/
theorem exists_passed (m : Manager) (r : LoadRequest) (attempts : List Attempt) (last : LoadError)
    (s : LoadState) :
    ∃ passed rest s', passed.map (·.1) ++ rest = attempts ∧ Passed r s passed s' ∧
      Ending m r ((lastError? passed).getD last) s' rest (m.conclude (search r attempts last s)) := by
  induction attempts generalizing last s with
  | nil => exact ⟨[], [], s, rfl, .nil s, .exhausted⟩
  | cons a attempts ih =>
    obtain ⟨l, lifetime⟩ := a
    rw [search]
    cases hstop : r.control.isCancelled s.asked with
    | true => exact ⟨[], _, s, rfl, .nil s, .stopped hstop⟩
    | false =>
      rw [if_neg nofun]
      -- whoever is passed comes before those that the rest of the search passes
      have hpass : ∀ (answer : LoadAnswer) (s' : LoadState), ask r (l, lifetime) s = (answer, s') → answer.passes →
          ∃ passed rest s'', passed.map (·.1) ++ rest = (l, lifetime) :: attempts ∧ Passed r s passed s'' ∧
            Ending m r ((lastError? passed).getD last) s'' rest (m.conclude (search r attempts
              (answer.error?.getD last) { s' with world := note r (l, lifetime) answer s'.world })) := by
        intro answer s' hanswer hpasses
        obtain ⟨passed, rest, s'', hsplit, hpassed, hending⟩ :=
          ih (answer.error?.getD last) { s' with world := note r (l, lifetime) answer s'.world }
        refine ⟨((l, lifetime), answer) :: passed, rest, s'', ?_, .cons hstop hanswer hpasses hpassed, ?_⟩
        · rw [List.map_cons, List.cons_append, hsplit]
        · rwa [lastError?_cons]
      split
      · rename_i scene s' hanswer
        exact ⟨[], _, s, rfl, .nil s, .found hstop hanswer⟩
      · rename_i s' hanswer
        exact hpass .declined s' hanswer trivial
      · rename_i e s' hanswer
        split
        · rename_i hends
          rcases e.endsSearch_iff.1 hends with rfl | ⟨fault, rfl⟩
          · exact ⟨[], _, s, rfl, .nil s, .cancelled hstop hanswer⟩
          · exact ⟨[], _, s, rfl, .nil s, .faulty hstop hanswer⟩
        · rename_i hgoes
          exact hpass (.failed e) s' hanswer (Bool.eq_false_iff.2 hgoes)

/-! ### Whom to ask -/

/-- The libraries that are registered, in the order of the list. -/
def libraries (m : Manager) : List Library := m.registrations.map (·.library)

/-- The first library has the higher priority, or it has the same one and has been present for longer. -/
def Precedes (settings : Settings) (scenes : List Scene) (w : World) (calls : List RegistrationCall)
    (a b : Library) : Prop :=
  ∃ r ∈ (after settings scenes w calls).1.registrations, ∃ s ∈ (after settings scenes w calls).1.registrations,
    r.library = a ∧ s.library = b ∧ (s.priority < r.priority ∨ s.priority = r.priority ∧
      lastAbsence settings scenes w calls a.name < lastAbsence settings scenes w calls b.name)

/-- The libraries to ask for a file with some extension: those that load such files, each once, with permanent
scenes first, and by priority and age. -/
structure Agenda (settings : Settings) (scenes : List Scene) (w : World) (calls : List RegistrationCall)
    (extension : String) (attempts : List Attempt) : Prop where
  mem_iff : ∀ l lifetime, (l, lifetime) ∈ attempts ↔ l ∈ (after settings scenes w calls).1.libraries ∧
    l.supports extension = true ∧ l.lifetime? = some lifetime
  once : (attempts.map (·.1.name)).Nodup
  ordered : attempts.Pairwise fun a b => a.2 = .permanent ∧ b.2 = .transient ∨
    a.2 = b.2 ∧ Precedes settings scenes w calls a.1 b.1

theorem mem_attempts_iff (m : Manager) (extension : String) (l : Library) (lifetime : Lifetime) :
    (l, lifetime) ∈ m.attempts extension ↔
      l ∈ m.libraries ∧ l.supports extension = true ∧ l.lifetime? = some lifetime := by
  have hpart : ∀ (p : Library → Bool) (kind : Lifetime),
      (l, lifetime) ∈ ((m.libraries.filter (·.supports extension)).filter p).map (·, kind) ↔
        (l ∈ m.libraries ∧ l.supports extension = true) ∧ p l = true ∧ kind = lifetime := by
    intro p kind
    rw [List.mem_map]
    constructor
    · rintro ⟨x, hx, heq⟩
      obtain ⟨rfl, rfl⟩ := Prod.mk.inj heq
      exact ⟨List.mem_filter.1 (List.mem_filter.1 hx).1, (List.mem_filter.1 hx).2, rfl⟩
    · rintro ⟨hx, hp, rfl⟩
      exact ⟨l, List.mem_filter.2 ⟨List.mem_filter.2 hx, hp⟩, rfl⟩
  have hattempts : (l, lifetime) ∈ m.attempts extension ↔ _ ∨ _ :=
    List.mem_append.trans (or_congr (hpart _ _) (hpart _ _))
  rw [hattempts, ← and_or_left, ← and_assoc]
  refine and_congr_right fun _ => ?_
  unfold Library.lifetime?
  cases l.lifetimes.permanent <;> cases l.lifetimes.transient <;> cases lifetime <;> simp

/-- Every library makes scenes of one lifetime at most, so it is asked once. -/
theorem nodup_attempts {m : Manager} (h : m.names.Nodup) (extension : String) :
    ((m.attempts extension).map (·.1.name)).Nodup := by
  have hlibraries : (m.libraries.map (·.name)).Nodup := by
    rw [libraries, List.map_map]
    exact h
  have hpart : ∀ p : Library → Bool, (((m.libraries.filter (·.supports extension)).filter p).map (·.name)).Nodup :=
    fun p => hlibraries.sublist ((List.filter_sublist.trans List.filter_sublist).map _)
  unfold attempts
  dsimp only
  rw [List.map_append, List.map_map, List.map_map, List.nodup_append]
  refine ⟨hpart _, hpart _, fun name hfirst other hsecond heq => ?_⟩
  obtain ⟨a, ha, rfl⟩ := List.mem_map.1 hfirst
  obtain ⟨b, hb, rfl⟩ := List.mem_map.1 hsecond
  obtain ⟨ha, hpermanent⟩ := List.mem_filter.1 ha
  obtain ⟨hb, htransient⟩ := List.mem_filter.1 hb
  have hab : a = b := List.inj_on_of_nodup_map hlibraries (List.mem_filter.1 ha).1 (List.mem_filter.1 hb).1 heq
  simp [← hab, hpermanent] at htransient

/-- **Whom a load asks**, and in which order. -/
theorem agenda (settings : Settings) (scenes : List Scene) (w : World) (calls : List RegistrationCall)
    (extension : String) :
    Agenda settings scenes w calls extension ((after settings scenes w calls).1.attempts extension) := by
  have htracks := tracks_after settings scenes w calls
  refine ⟨mem_attempts_iff _ extension, nodup_attempts htracks.distinct extension, ?_⟩
  have hlist : (after settings scenes w calls).1.libraries.Pairwise (Precedes settings scenes w calls) := by
    refine List.pairwise_map.2 (htracks.sorted.imp_of_mem fun {r s} hr hs hrs => ?_)
    exact ⟨r, hr, s, hs, rfl, rfl, hrs⟩
  have hpart : ∀ (p : Library → Bool) (lifetime : Lifetime),
      ((((after settings scenes w calls).1.libraries.filter (·.supports extension)).filter p).map
        (·, lifetime)).Pairwise fun a b => a.2 = .permanent ∧ b.2 = .transient ∨
          a.2 = b.2 ∧ Precedes settings scenes w calls a.1 b.1 := by
    intro p lifetime
    refine List.pairwise_map.2 ((hlist.sublist (List.filter_sublist.trans List.filter_sublist)).imp fun h => ?_)
    exact .inr ⟨rfl, h⟩
  unfold attempts
  refine List.pairwise_append.2 ⟨hpart _ _, hpart _ _, fun a ha b hb => .inl ?_⟩
  obtain ⟨_, -, rfl⟩ := List.mem_map.1 ha
  obtain ⟨_, -, rfl⟩ := List.mem_map.1 hb
  exact ⟨rfl, rfl⟩

/-! ### What is kept -/

/-- A scene that is kept is found under its id, and every other one as before. -/
theorem find?_insertScene (s : Scene) (scenes : List Scene) (id : NodeId) :
    (insertScene s scenes).find? (·.root == id) =
      if id = s.root then some s else scenes.find? (·.root == id) := by
  have hnew : ∀ (scenes : List Scene), (s :: scenes).find? (·.root == id) =
      if id = s.root then some s else scenes.find? (·.root == id) := by
    intro scenes
    by_cases hid : id = s.root
    · rw [if_pos hid, List.find?_cons_of_pos (by simp [hid])]
    · rw [if_neg hid, List.find?_cons_of_neg (by simpa using Ne.symm hid)]
  induction scenes with
  | nil => exact hnew []
  | cons x rest ih =>
    rw [insertScene]
    split
    · exact hnew (x :: rest)
    split
    · rename_i hsame
      rw [hnew rest]
      by_cases hid : id = s.root
      · rw [if_pos hid, if_pos hid]
      · rw [if_neg hid, if_neg hid, List.find?_cons_of_neg (by simpa [← hsame] using Ne.symm hid)]
    · rename_i hother
      by_cases hx : x.root = id
      · have hid : id ≠ s.root := fun hid => hother (hid.symm.trans hx.symm)
        rw [if_neg hid, List.find?_cons_of_pos (by simpa using hx), List.find?_cons_of_pos (by simpa using hx)]
      · rw [List.find?_cons_of_neg (by simpa using hx), List.find?_cons_of_neg (by simpa using hx), ih]

/-- What a load does to the permanent scenes: it adds the one that it answers with, and nothing else. -/
def Keeps (m m' : Manager) : Except LoadError Loaded → Prop
  | .ok ⟨.permanent scene, _⟩ => m' = { m with scenes := m'.scenes } ∧
      ∀ id, m'.scene? id = if id = scene.root then some scene else m.scene? id
  | _ => m' = m

theorem keeps_keep (m : Manager) (scene : LoadedScene) (progress : Float32) (w : World) :
    Keeps m (m.keep scene w).1 (.ok ⟨scene, progress⟩) := by
  cases scene with
  | permanent scene => exact ⟨rfl, find?_insertScene scene m.scenes⟩
  | transient scene apply => rfl

theorem Ending.keeps {m : Manager} {r : LoadRequest} {last : LoadError} {s : LoadState} {rest : List Attempt}
    {out : Except LoadError Loaded × Manager × World} (h : Ending m r last s rest out) :
    Keeps m out.2.1 out.1 := by
  cases h with
  | exhausted => rfl
  | stopped _ => rfl
  | found _ _ => exact keeps_keep _ _ _ _
  | cancelled _ _ => rfl
  | faulty _ _ => rfl

/-! ### Loads -/

/-- A request for the file that a path leads to. -/
def requestFor (r : LoadRequest) (path : String) : LoadRequest := { r with path, extension := extensionOf path }

/-- A load of a file that is found is a search among the libraries for its extension. -/
theorem load_eq {m : Manager} {r : LoadRequest} {path : String} (hpath : m.resolve r.storage r.path = some path)
    (w : World) :
    m.load r w = m.conclude (search (requestFor r path) (m.attempts (extensionOf path))
      (.unsupportedExtension path (extensionOf path)) { world := w }) := by
  rw [load, hpath]
  dsimp only
  split <;> (rename_i hsearch; rw [requestFor, hsearch]; rfl)

/-- **A load asks libraries in order.** It asks those that load files with the extension, permanent scenes first,
by priority and age, and each at most once: it passes those that decline or fail, as long as the host does not
ask to stop, and ends at the next one or, if none is left, with the last error. Afterwards the permanent scenes
are those of before and, if the answer is one, the answer. -/
theorem load_dispatches (settings : Settings) (scenes : List Scene) (w₀ : World) (calls : List RegistrationCall)
    (r : LoadRequest) (w : World) {m : Manager} (hm : m = (after settings scenes w₀ calls).1) {path : String}
    (hpath : m.resolve r.storage r.path = some path) :
    Agenda settings scenes w₀ calls (extensionOf path) (m.attempts (extensionOf path)) ∧
      (∃ passed rest s, passed.map (·.1) ++ rest = m.attempts (extensionOf path) ∧
        Passed (requestFor r path) { world := w } passed s ∧
        Ending m (requestFor r path) ((lastError? passed).getD (.unsupportedExtension path (extensionOf path))) s
          rest (m.load r w)) ∧
      Keeps m (m.load r w).2.1 (m.load r w).1 := by
  have hsearch := exists_passed m (requestFor r path) (m.attempts (extensionOf path))
    (.unsupportedExtension path (extensionOf path)) { world := w }
  rw [← load_eq hpath] at hsearch
  obtain ⟨passed, rest, s, hsplit, hpassed, hending⟩ := hsearch
  exact ⟨hm ▸ agenda settings scenes w₀ calls _, ⟨passed, rest, s, hsplit, hpassed, hending⟩, hending.keeps⟩

/-! ### Three libraries for one file -/

/-- A library that makes transient scenes has the highest priority, two that make permanent ones share a lower
one, and a fourth loads other files. -/
def rehearsalCalls : List RegistrationCall :=
  let worlds : List FileExtension := [.ofSpelling ".wrl" "worlds"]
  [.register (.rehearsal "fleeting" { transient := true } worlds .scene) 9,
    .register (.rehearsal "failing" { permanent := true } worlds .fail) 5,
    .register (.rehearsal "declining" { permanent := true, transient := true } worlds .decline) 5,
    .register (.rehearsal "other" { permanent := true } [.ofSpelling "obj" "meshes"] .scene) 9]

def rehearsalManager : Manager := (after {} [] {} rehearsalCalls).1

/-- A request for a file, where every path leads to one. -/
def rehearsalRequest : LoadRequest where
  storage := { workingDirectory := "/", entry := fun _ => .file .empty }
  path := "/a.WRL"
  extension := ""
  renders := false
  time := .unset
  now := .unset
  lifetime := .permanent
  control := {}

theorem load_dispatches_rehearsal :
    (rehearsalManager.attempts "wrl").map (fun a => (a.1.name, a.2)) =
        [("failing", .permanent), ("declining", .permanent), ("fleeting", .transient)] ∧
      rehearsalManager.resolve rehearsalRequest.storage rehearsalRequest.path = some "/a.WRL" ∧
      Agenda {} [] {} rehearsalCalls (extensionOf "/a.WRL") (rehearsalManager.attempts (extensionOf "/a.WRL")) ∧
      Keeps rehearsalManager (rehearsalManager.load rehearsalRequest {}).2.1
        (rehearsalManager.load rehearsalRequest {}).1 := by
  have hfile : rehearsalManager.resolve rehearsalRequest.storage rehearsalRequest.path = some "/a.WRL" := by
    decide +kernel
  have hload := load_dispatches {} [] {} rehearsalCalls rehearsalRequest {} rfl hfile
  exact ⟨by decide +kernel, hfile, hload.1, hload.2.2⟩

end Manager

end SceneGraph
