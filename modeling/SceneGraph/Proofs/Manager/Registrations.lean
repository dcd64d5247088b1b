import Mathlib.Data.List.Induction
import Mathlib.Data.List.Nodup
import Mathlib.Data.Nat.Find
import SceneGraph.Manager

/-!
# The list of libraries along a run

A manager starts without libraries, and calls register libraries and take registrations back, in any
order (`Manager.RegistrationCall`). What the list looks like afterwards is told against the calls: a name
was absent for the last time after so many of them (`Manager.lastAbsence`), and the calls from then on are
what counts for it (`Manager.callsSince`).

* `Manager.Tracks`: what every call preserves.
* `Manager.tracks_after`: so it holds after every run of calls.
* `Manager.registrations_follow_calls`: names are unique, a name is listed if it was registered more often than
  unregistered since it was absent, and the list is sorted by priority and then by age.
-/

namespace SceneGraph.Manager

/-- A call that registers a library, or takes a registration back. -/
inductive RegistrationCall where
  | register (library : Library) (priority : Int)
  | unregister (name : String)

namespace RegistrationCall

/-- What becomes of a manager and of the world. -/
def run (m : Manager) (w : World) : RegistrationCall → Manager × World
  | register library priority => m.register library priority w
  | unregister name => (m.unregister name w).2

/-- The call registers a library of the name. -/
def registers (name : String) : RegistrationCall → Bool
  | register library _ => library.name == name
  | unregister _ => false

/-- The call takes a registration of the name back. -/
def unregisters (name : String) : RegistrationCall → Bool
  | register .. => false
  | unregister other => other == name

variable (library : Library) (priority : Int) (name other : String)

@[simp]
theorem registers_register : (register library priority).registers name = (library.name == name) := rfl

@[simp]
theorem registers_unregister : (unregister other).registers name = false := rfl

@[simp]
theorem unregisters_register : (register library priority).unregisters name = false := rfl

@[simp]
theorem unregisters_unregister : (unregister other).unregisters name = (other == name) := rfl

end RegistrationCall

/-- A manager that keeps some scenes, after calls, the first one first. It knew no libraries before. -/
def after (settings : Settings) (scenes : List Scene) (w : World) (calls : List RegistrationCall) :
    Manager × World :=
  calls.foldl (fun s c => c.run s.1 s.2) ({ settings, scenes }, w)

/-- The names of the libraries that are registered. -/
def names (m : Manager) : List String := m.registrations.map (·.library.name)

variable (settings : Settings) (scenes : List Scene) (w : World) (calls : List RegistrationCall)

/-- After how many calls no library of the name was registered, the last time that this was so. -/
def lastAbsence (name : String) : Nat :=
  Nat.findGreatest (fun k => name ∉ (after settings scenes w (calls.take k)).1.names) calls.length

/-- The calls since no library of the name was registered. -/
def callsSince (name : String) : List RegistrationCall :=
  calls.drop (lastAbsence settings scenes w calls name)

/-- What the calls say about a list of libraries that came out of them. -/
structure Tracks (rs : List Registration) : Prop where
  distinct : (rs.map (·.library.name)).Nodup
  /-- The first call since a library was absent registered it. -/
  begun : ∀ r ∈ rs,
    (callsSince settings scenes w calls r.library.name).head? = some (.register r.library r.priority)
  counted : ∀ r ∈ rs, 0 < r.count ∧
    r.count + (callsSince settings scenes w calls r.library.name).countP (·.unregisters r.library.name) =
      (callsSince settings scenes w calls r.library.name).countP (·.registers r.library.name)
  sorted : rs.Pairwise fun r s => s.priority < r.priority ∨ s.priority = r.priority ∧
    lastAbsence settings scenes w calls r.library.name < lastAbsence settings scenes w calls s.library.name

/-! ### The last absence -/

variable {settings scenes w calls} {name : String} {rs : List Registration} {r : Registration}
  {c : RegistrationCall} {m : Manager}

theorem after_concat (calls : List RegistrationCall) (c : RegistrationCall) :
    after settings scenes w (calls ++ [c]) =
      c.run (after settings scenes w calls).1 (after settings scenes w calls).2 := by
  rw [after, List.foldl_append]
  rfl

theorem lastAbsence_le (calls : List RegistrationCall) (name : String) :
    lastAbsence settings scenes w calls name ≤ calls.length := Nat.findGreatest_le _

/-- A name that is listed was absent before. -/
theorem lastAbsence_lt (h : name ∈ (after settings scenes w calls).1.names) :
    lastAbsence settings scenes w calls name < calls.length := by
  refine lt_of_le_of_ne (lastAbsence_le calls name) fun heq => ?_
  have hempty : name ∉ (after settings scenes w (calls.take 0)).1.names := List.not_mem_nil
  have hspec := Nat.findGreatest_spec (P := fun k => name ∉ (after settings scenes w (calls.take k)).1.names)
    (Nat.zero_le calls.length) hempty
  rw [← lastAbsence, heq, List.take_length] at hspec
  exact hspec h

theorem lastAbsence_eq_length (h : name ∉ (after settings scenes w calls).1.names) :
    lastAbsence settings scenes w calls name = calls.length := by
  refine le_antisymm (lastAbsence_le calls name) (Nat.le_findGreatest le_rfl ?_)
  rwa [List.take_length]

/-- As long as a name is listed, one more call does not change when it was absent. -/
theorem lastAbsence_concat (h : name ∈ (after settings scenes w (calls ++ [c])).1.names) :
    lastAbsence settings scenes w (calls ++ [c]) name = lastAbsence settings scenes w calls name := by
  have hnow : ¬ name ∉ (after settings scenes w ((calls ++ [c]).take (calls.length + 1))).1.names := by
    rw [List.take_of_length_le (by simp)]
    exact not_not.2 h
  have hbefore : ∀ k ≤ calls.length, (calls ++ [c]).take k = calls.take k :=
    fun k hk => List.take_append_of_le_length hk
  rw [lastAbsence, lastAbsence, List.length_append, List.length_singleton, Nat.findGreatest_of_not hnow,
    Nat.findGreatest_eq_iff]
  obtain ⟨hle, hspec, hmax⟩ := (Nat.findGreatest_eq_iff (k := calls.length)
    (P := fun k => name ∉ (after settings scenes w (calls.take k)).1.names)).1 rfl
  refine ⟨hle, fun hne => ?_, fun n hlt hn => ?_⟩
  · rw [hbefore _ hle]
    exact hspec hne
  · rw [hbefore n hn]
    exact hmax hlt hn

theorem callsSince_concat (h : name ∈ (after settings scenes w (calls ++ [c])).1.names) :
    callsSince settings scenes w (calls ++ [c]) name = callsSince settings scenes w calls name ++ [c] := by
  rw [callsSince, lastAbsence_concat h, List.drop_append_of_le_length (lastAbsence_le calls name), callsSince]

/-! ### What the calls do to the list -/

theorem hasLibrary_iff (m : Manager) (name : String) : m.hasLibrary name = true ↔ name ∈ m.names := by
  simp [hasLibrary, names]

theorem perm_insert (r : Registration) (rs : List Registration) : (insert r rs).Perm (r :: rs) := by
  induction rs with
  | nil => exact .refl _
  | cons s rest ih =>
    rw [insert]
    split
    · exact .refl _
    · exact (ih.cons s).trans (.swap r s rest)

/-- A sorted list stays sorted when a library is inserted that comes after all others of its priority. -/
theorem pairwise_insert {older : Registration → Registration → Prop}
    (hsorted : rs.Pairwise fun r s => s.priority < r.priority ∨ s.priority = r.priority ∧ older r s)
    (hnew : ∀ s ∈ rs, older s r) :
    (insert r rs).Pairwise fun r s => s.priority < r.priority ∨ s.priority = r.priority ∧ older r s := by
  induction rs with
  | nil => exact List.pairwise_singleton _ r
  | cons s rest ih =>
    obtain ⟨hfirst, hrest⟩ := List.pairwise_cons.1 hsorted
    rw [insert]
    split
    · rename_i hlower
      refine List.pairwise_cons.2 ⟨fun t ht => .inl ?_, hsorted⟩
      rcases List.mem_cons.1 ht with rfl | ht
      · exact hlower
      · rcases hfirst t ht with h | h <;> omega
    · rename_i hlower
      refine List.pairwise_cons.2 ⟨fun t ht => ?_, ih hrest fun t ht => hnew t (List.mem_cons_of_mem s ht)⟩
      rcases List.mem_cons.1 ((perm_insert r rest).mem_iff.1 ht) with rfl | ht
      · have hs := hnew s List.mem_cons_self
        rcases Int.lt_or_eq_of_le (Int.not_lt.1 hlower) with h | h
        · exact .inl h
        · exact .inr ⟨h, hs⟩
      · exact hfirst t ht

/-- A registration counted once more, or once less, if a call is about its library. -/
def RegistrationCall.recount (c : RegistrationCall) (r : Registration) : Registration :=
  { r with count := r.count + (if c.registers r.library.name then 1 else 0) -
      (if c.unregisters r.library.name then 1 else 0) }

/-- **What a call does to the list**: it adds a library that is not listed, strikes off one whose last
registration is taken back, or counts anew. -/
theorem registrations_run (c : RegistrationCall) (w : World) (hd : m.names.Nodup) :
    (∃ library priority, c = .register library priority ∧ library.name ∉ m.names ∧
      (c.run m w).1.registrations = insert ⟨library, priority, 1⟩ m.registrations) ∨
    (∃ name, c = .unregister name ∧
      (c.run m w).1.registrations = m.registrations.filter (·.library.name != name)) ∨
    (c.run m w).1.registrations = m.registrations.map c.recount ∧
      ∀ r ∈ m.registrations, c.unregisters r.library.name = true → 1 < r.count := by
  cases c with
  | register library priority =>
    by_cases hlisted : m.hasLibrary library.name = true
    · refine .inr (.inr ⟨?_, fun r _ hr => nomatch hr⟩)
      rw [RegistrationCall.run, Manager.register, if_pos hlisted]
      refine List.map_congr_left fun r _ => ?_
      by_cases hname : library.name = r.library.name
      · simp [RegistrationCall.recount, hname]
      · simp [RegistrationCall.recount, hname, Ne.symm hname]
    · refine .inl ⟨library, priority, rfl, fun h => hlisted ((hasLibrary_iff m _).2 h), ?_⟩
      rw [RegistrationCall.run, Manager.register, if_neg hlisted]
  | unregister name =>
    rw [RegistrationCall.run, Manager.unregister]
    split
    · rename_i hfind
      have hother : ∀ r ∈ m.registrations, name ≠ r.library.name := by
        intro r hr heq
        simpa [heq] using List.find?_eq_none.1 hfind r hr
      refine .inr (.inr ⟨?_, fun r hr h => absurd (by simpa using h) (hother r hr)⟩)
      refine (List.map_congr_left fun r hr => ?_).trans (List.map_id _) |>.symm
      simp [RegistrationCall.recount, hother r hr]
    · rename_i r hfind
      have hname : r.library.name = name := by simpa using List.find?_some hfind
      split
      · exact .inr (.inl ⟨name, rfl, rfl⟩)
      · rename_i hcount
        refine .inr (.inr ⟨List.map_congr_left fun s _ => ?_, fun s hs h => ?_⟩)
        · by_cases hs : name = s.library.name
          · simp [RegistrationCall.recount, hs]
          · simp [RegistrationCall.recount, hs, Ne.symm hs]
        · have hsame : s.library.name = r.library.name := (beq_iff_eq.1 h).symm.trans hname.symm
          rw [List.inj_on_of_nodup_map hd hs (List.mem_of_find?_eq_some hfind) hsame]
          omega

/-! ### Every call -/

/-- The libraries of a list go on as the calls say. -/
structure Follows (settings : Settings) (scenes : List Scene) (w : World) (calls : List RegistrationCall)
    (c : RegistrationCall) (r : Registration) : Prop where
  begun : (callsSince settings scenes w calls r.library.name ++ [c]).head? = some (.register r.library r.priority)
  counted : 0 < r.count ∧
    r.count + (callsSince settings scenes w calls r.library.name ++ [c]).countP (·.unregisters r.library.name) =
      (callsSince settings scenes w calls r.library.name ++ [c]).countP (·.registers r.library.name)

/-- A library stays in the list if its last registration is not taken back. -/
theorem Tracks.follows (h : Tracks settings scenes w calls rs) (hr : r ∈ rs)
    (hcount : c.unregisters r.library.name = true → 1 < r.count) :
    Follows settings scenes w calls c (c.recount r) := by
  have hbegun := h.begun r hr
  obtain ⟨hpos, hcounted⟩ := h.counted r hr
  refine ⟨?_, ?_⟩
  · change (callsSince settings scenes w calls r.library.name ++ [c]).head? = some (.register r.library r.priority)
    rw [List.head?_append, hbegun]
    rfl
  · change 0 < (c.recount r).count ∧ (c.recount r).count +
      (callsSince settings scenes w calls r.library.name ++ [c]).countP (·.unregisters r.library.name) =
        (callsSince settings scenes w calls r.library.name ++ [c]).countP (·.registers r.library.name)
    rw [List.countP_append, List.countP_append, List.countP_singleton, List.countP_singleton,
      RegistrationCall.recount]
    dsimp only
    split <;> split <;> simp_all <;> omega

/-- What the calls say of a list after one more of them, in terms of those before. -/
theorem Tracks.concat (hrs : (after settings scenes w (calls ++ [c])).1.registrations = rs)
    (hdistinct : (rs.map (·.library.name)).Nodup) (hfollows : ∀ r ∈ rs, Follows settings scenes w calls c r)
    (hsorted : rs.Pairwise fun r s => s.priority < r.priority ∨ s.priority = r.priority ∧
      lastAbsence settings scenes w calls r.library.name < lastAbsence settings scenes w calls s.library.name) :
    Tracks settings scenes w (calls ++ [c]) rs := by
  have hlisted : ∀ r ∈ rs, r.library.name ∈ (after settings scenes w (calls ++ [c])).1.names := by
    intro r hr
    rw [names, hrs]
    exact List.mem_map_of_mem hr
  refine ⟨hdistinct, fun r hr => ?_, fun r hr => ?_, hsorted.imp_of_mem fun {r s} hr hs hrs => ?_⟩
  · rw [callsSince_concat (hlisted r hr)]
    exact (hfollows r hr).begun
  · rw [callsSince_concat (hlisted r hr)]
    exact (hfollows r hr).counted
  · rwa [lastAbsence_concat (hlisted r hr), lastAbsence_concat (hlisted s hs)]

/-- **Every call keeps the list in step with the calls.** -/
theorem Tracks.step (h : Tracks settings scenes w calls (after settings scenes w calls).1.registrations)
    (c : RegistrationCall) :
    Tracks settings scenes w (calls ++ [c]) (after settings scenes w (calls ++ [c])).1.registrations := by
  set m := (after settings scenes w calls).1 with hm
  have hrun : (after settings scenes w (calls ++ [c])).1 = (c.run m (after settings scenes w calls).2).1 := by
    rw [after_concat]
  rcases registrations_run c (after settings scenes w calls).2 h.distinct with
    ⟨library, priority, rfl, hnew, hrs⟩ | ⟨name, rfl, hrs⟩ | ⟨hrs, hcount⟩
  · -- a library is added, behind all of its priority
    have hperm := perm_insert ⟨library, priority, 1⟩ m.registrations
    have habsent : lastAbsence settings scenes w calls library.name = calls.length := lastAbsence_eq_length hnew
    rw [hrun, hrs]
    refine .concat (hrun ▸ hrs) ?_ (fun r hr => ?_) (pairwise_insert h.sorted fun s hs => ?_)
    · rw [(hperm.map _).nodup_iff]
      exact List.nodup_cons.2 ⟨hnew, h.distinct⟩
    · rcases List.mem_cons.1 (hperm.mem_iff.1 hr) with rfl | hr
      · have hsince : callsSince settings scenes w calls library.name = [] := by
          rw [callsSince, habsent, List.drop_length]
        exact ⟨by rw [hsince]; rfl, by simp [hsince]⟩
      · have hother : library.name ≠ r.library.name := fun heq => hnew (heq ▸ List.mem_map_of_mem hr)
        have hfollows := h.follows (c := .register library priority) hr nofun
        rwa [RegistrationCall.recount, RegistrationCall.registers_register, if_neg (by simpa using hother)]
          at hfollows
    · rw [habsent]
      exact lastAbsence_lt (List.mem_map_of_mem hs)
  · -- a library is struck off
    rw [hrun, hrs]
    refine .concat (hrun ▸ hrs) (h.distinct.sublist (List.filter_sublist.map _)) (fun r hr => ?_)
      (h.sorted.sublist List.filter_sublist)
    obtain ⟨hr, hother⟩ := List.mem_filter.1 hr
    have hother : ¬ name == r.library.name := fun heq => by simp [beq_iff_eq.1 heq] at hother
    have hfollows := h.follows (c := .unregister name) hr fun heq => absurd heq hother
    rwa [RegistrationCall.recount, RegistrationCall.unregisters_unregister, if_neg hother] at hfollows
  · -- the same libraries as before
    rw [hrun, hrs]
    refine .concat (hrun ▸ hrs) ?_ (fun r hr => ?_) (List.pairwise_map.2 h.sorted)
    · rw [List.map_map]
      exact h.distinct
    · obtain ⟨s, hs, rfl⟩ := List.mem_map.1 hr
      exact h.follows hs (hcount s hs)

/-- The list is in step with the calls after every run, by induction on the run. -/
theorem tracks_after (settings : Settings) (scenes : List Scene) (w : World) (calls : List RegistrationCall) :
    Tracks settings scenes w calls (after settings scenes w calls).1.registrations := by
  induction calls using List.reverseRecOn with
  | nil => exact ⟨List.nodup_nil, nofun, nofun, .nil⟩
  | append_singleton calls c ih => exact ih.step c

theorem unregister_eq_true_iff (m : Manager) (name : String) (w : World) :
    (m.unregister name w).1 = true ↔ name ∈ m.names := by
  rw [unregister]
  split
  · rename_i hfind
    refine iff_of_false nofun fun hlisted => ?_
    obtain ⟨r, hr, rfl⟩ := List.mem_map.1 hlisted
    simpa using List.find?_eq_none.1 hfind r hr
  · rename_i r hfind
    have hname : r.library.name = name := by simpa using List.find?_some hfind
    have hlisted : name ∈ m.names := hname ▸ List.mem_map_of_mem (List.mem_of_find?_eq_some hfind)
    split <;> exact iff_of_true rfl hlisted

/-- A name is listed if it was registered more often than unregistered since it was absent. -/
theorem mem_names_iff (name : String) :
    name ∈ (after settings scenes w calls).1.names ↔
      (callsSince settings scenes w calls name).countP (·.unregisters name) <
        (callsSince settings scenes w calls name).countP (·.registers name) := by
  constructor
  · intro hlisted
    obtain ⟨r, hr, rfl⟩ := List.mem_map.1 hlisted
    have hcounted := (tracks_after settings scenes w calls).counted r hr
    omega
  · intro hcount
    by_contra habsent
    rw [callsSince, lastAbsence_eq_length habsent, List.drop_length] at hcount
    exact absurd hcount (Nat.lt_irrefl 0)

/-- **Libraries are registered by counting, in order.** After calls of any number a name is listed once, and
exactly if it was registered more often than unregistered since it was absent for the last time; taking back a
registration succeeds exactly then. A library that is listed is the one of the call that made it present, with
the priority of that call. Higher priorities come first, and of libraries of one priority those that have been
present for longer. -/
theorem registrations_follow_calls (settings : Settings) (scenes : List Scene) (w : World)
    (calls : List RegistrationCall) :
    (after settings scenes w calls).1.names.Nodup ∧
      (∀ name, name ∈ (after settings scenes w calls).1.names ↔
        (callsSince settings scenes w calls name).countP (·.unregisters name) <
          (callsSince settings scenes w calls name).countP (·.registers name)) ∧
      (∀ name w', ((after settings scenes w calls).1.unregister name w').1 = true ↔
        name ∈ (after settings scenes w calls).1.names) ∧
      (∀ r ∈ (after settings scenes w calls).1.registrations,
        (callsSince settings scenes w calls r.library.name).head? = some (.register r.library r.priority)) ∧
      (after settings scenes w calls).1.registrations.Pairwise fun r s =>
        s.priority < r.priority ∨ s.priority = r.priority ∧
          lastAbsence settings scenes w calls r.library.name <
            lastAbsence settings scenes w calls s.library.name :=
  have h := tracks_after settings scenes w calls
  ⟨h.distinct, mem_names_iff, fun name w' => unregister_eq_true_iff _ name w', h.begun, h.sorted⟩

end SceneGraph.Manager
