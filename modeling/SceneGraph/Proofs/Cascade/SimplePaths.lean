import Mathlib.Data.List.Chain
import Mathlib.Data.List.Nodup
import Mathlib.Data.List.Infix
import SceneGraph.World.Cascade

/-!
# Simple paths

An `OutGraph` says for every point where one can go next. A trail is a path that meets no point
twice; like the cascade stack it is written end first. `OutGraph.trailsFrom` lists the trails that
go on from a given one in depth-first preorder.

* `mem_trailsFrom`: the listing has exactly the trails that extend the given one.
* `nodup_trailsFrom`: it has each of them once, if no point lists a neighbour twice.
-/

namespace SceneGraph

/-- For every point its neighbours in order; all of them are among `ends`. -/
structure OutGraph (α : Type) where
  next : α → List α
  ends : List α
  next_subset : ∀ a, next a ⊆ ends

namespace OutGraph

variable {α : Type} [DecidableEq α] (g : OutGraph α)

/-- A path without repetition, its end first. -/
structure IsTrail (p : List α) : Prop where
  chain : p.IsChain fun b a => b ∈ g.next a
  nodup : p.Nodup

/-- The neighbours of the end of a path that are not on it. -/
def extensions : List α → List α
  | [] => []
  | a :: rest => (g.next a).filter (· ∉ a :: rest)

/-- The possible ends that are not on a path. -/
def unvisited (path : List α) : List α := g.ends.filter (· ∉ path)

variable {g} {path p : List α} {a b : α}

theorem mem_extensions : b ∈ g.extensions path ↔ ∃ a, path.head? = some a ∧ b ∈ g.next a ∧ b ∉ path := by
  cases path with
  | nil => simp [extensions]
  | cons a rest => simp only [extensions, List.mem_filter, List.head?_cons, Option.some.injEq,
      exists_eq_left', decide_eq_true_eq]

/-- Every step to an unvisited end leaves fewer of them. -/
theorem length_unvisited_lt (he : b ∈ g.ends) (hb : b ∉ path) :
    (g.unvisited (b :: path)).length < (g.unvisited path).length := by
  have hsub : g.unvisited (b :: path) = (g.unvisited path).filter (· ≠ b) := by
    simp only [unvisited, List.filter_filter, List.mem_cons, not_or]
    apply List.filter_congr
    intro x _
    simp [Bool.decide_and]
  rw [hsub]
  apply List.length_filter_lt_length_iff_exists.2
  exact ⟨b, by simp [unvisited, he, hb], by simp⟩

theorem length_unvisited_extension_lt (h : b ∈ g.extensions path) :
    (g.unvisited (b :: path)).length < (g.unvisited path).length := by
  obtain ⟨a, -, hn, hp⟩ := mem_extensions.1 h
  exact length_unvisited_lt (g.next_subset a hn) hp

variable (g) in
/-- The trails that go on from a path, in depth-first preorder: the path itself, and then for each
of its extensions in order those that go on from there. -/
def trailsFrom (path : List α) : List (List α) :=
  path :: (g.extensions path).attach.flatMap fun b => trailsFrom (b.1 :: path)
termination_by (g.unvisited path).length
decreasing_by exact length_unvisited_extension_lt b.2

variable (g path) in
theorem trailsFrom_eq :
    g.trailsFrom path = path :: (g.extensions path).flatMap fun b => g.trailsFrom (b :: path) := by
  rw [trailsFrom]
  conv_rhs => rw [← List.attach_map_subtype_val (g.extensions path), List.flatMap_map]

theorem IsTrail.extend (h : g.IsTrail path) (hb : b ∈ g.extensions path) :
    g.IsTrail (b :: path) := by
  obtain ⟨a, ha, hn, hp⟩ := mem_extensions.1 hb
  refine ⟨List.isChain_cons.2 ⟨fun y hy => ?_, h.chain⟩, List.nodup_cons.2 ⟨hp, h.nodup⟩⟩
  obtain rfl : a = y := Option.some.inj (ha.symm.trans hy)
  exact hn

/-- The last step of a trail is one of the extensions of what was there before. -/
theorem IsTrail.mem_extensions (hpath : path ≠ []) (h : g.IsTrail (b :: path)) :
    b ∈ g.extensions path := by
  obtain ⟨a, rest, rfl⟩ := List.exists_cons_of_ne_nil hpath
  refine OutGraph.mem_extensions.2 ⟨a, rfl, ?_, (List.nodup_cons.1 h.nodup).1⟩
  exact (List.isChain_cons_cons.1 h.chain).1

omit [DecidableEq α] in
theorem IsTrail.of_suffix (h : g.IsTrail p) (hs : path <:+ p) : g.IsTrail path :=
  ⟨h.chain.suffix hs, h.nodup.sublist hs.sublist⟩

omit [DecidableEq α] in
theorem suffix_cons_of_ne (hs : path <:+ p) (hne : path ≠ p) : ∃ b, b :: path <:+ p := by
  obtain ⟨q, rfl⟩ := hs
  rcases List.eq_nil_or_concat q with rfl | ⟨q, b, rfl⟩
  · exact absurd (List.nil_append path).symm hne
  · exact ⟨b, q, by simp⟩

/-- **The listing is complete and nothing else is in it**: it has exactly the trails that extend
the path. -/
theorem mem_trailsFrom (hpath : path ≠ []) (h : g.IsTrail path) :
    p ∈ g.trailsFrom path ↔ path <:+ p ∧ g.IsTrail p := by
  induction hk : (g.unvisited path).length using Nat.strong_induction_on generalizing path with
  | _ k ih =>
    subst hk
    rw [trailsFrom_eq, List.mem_cons, List.mem_flatMap]
    constructor
    · rintro (rfl | ⟨b, hb, hp⟩)
      · exact ⟨List.suffix_rfl, h⟩
      · have hlt := length_unvisited_extension_lt hb
        obtain ⟨hs, ht⟩ := (ih _ hlt (List.cons_ne_nil _ _) (h.extend hb) rfl).1 hp
        exact ⟨(List.suffix_cons b path).trans hs, ht⟩
    · rintro ⟨hs, ht⟩
      by_cases hne : path = p
      · exact .inl hne.symm
      · obtain ⟨b, hbs⟩ := suffix_cons_of_ne hs hne
        have hb : b ∈ g.extensions path := (ht.of_suffix hbs).mem_extensions hpath
        have hlt := length_unvisited_extension_lt hb
        exact .inr ⟨b, hb, (ih _ hlt (List.cons_ne_nil _ _) (h.extend hb) rfl).2 ⟨hbs, ht⟩⟩

theorem suffix_of_mem_trailsFrom (h : p ∈ g.trailsFrom path) : path <:+ p := by
  induction hk : (g.unvisited path).length using Nat.strong_induction_on generalizing path with
  | _ k ih =>
    subst hk
    rw [trailsFrom_eq, List.mem_cons, List.mem_flatMap] at h
    rcases h with rfl | ⟨b, hb, hp⟩
    · exact List.suffix_rfl
    · exact (List.suffix_cons b path).trans (ih _ (length_unvisited_extension_lt hb) hp rfl)

theorem nodup_extensions (hg : ∀ a, (g.next a).Nodup) : (g.extensions path).Nodup := by
  cases path with
  | nil => exact List.nodup_nil
  | cons a rest => exact (hg a).filter _

/-- Only the neighbours matter, not what is known about ends. -/
theorem trailsFrom_congr {g' : OutGraph α} (hn : g.next = g'.next) (path : List α) :
    g.trailsFrom path = g'.trailsFrom path := by
  induction hk : (g.unvisited path).length using Nat.strong_induction_on generalizing path with
  | _ k ih =>
    subst hk
    have he : g.extensions path = g'.extensions path := by
      cases path with
      | nil => rfl
      | cons a rest => simp only [extensions, hn]
    rw [trailsFrom_eq, trailsFrom_eq g', he]
    congr 1
    apply List.flatMap_congr
    intro b hb
    exact ih _ (length_unvisited_extension_lt (he ▸ hb)) _ rfl

/-- **Every trail is listed once**, if no point lists a neighbour twice. -/
theorem nodup_trailsFrom (hg : ∀ a, (g.next a).Nodup) (path : List α) :
    (g.trailsFrom path).Nodup := by
  induction hk : (g.unvisited path).length using Nat.strong_induction_on generalizing path with
  | _ k ih =>
    subst hk
    rw [trailsFrom_eq, List.nodup_cons]
    constructor
    · intro hmem
      obtain ⟨b, -, hp⟩ := List.mem_flatMap.1 hmem
      have := (suffix_of_mem_trailsFrom hp).length_le
      simp only [List.length_cons] at this
      omega
    · refine List.nodup_flatMap.2 ⟨fun b hb => ih _ (length_unvisited_extension_lt hb) _ rfl, ?_⟩
      refine (nodup_extensions hg).imp fun {b c} hbc => ?_
      intro p hb hc
      obtain ⟨q, hq⟩ := suffix_of_mem_trailsFrom hb
      have hcs := suffix_of_mem_trailsFrom hc
      obtain ⟨r, hr⟩ := hcs
      exact hbc (List.cons.inj (List.append_inj_right' (hq.trans hr.symm) (by simp))).1

end OutGraph

end SceneGraph
