import SceneGraph.Proofs.Cascade.Fitting
import SceneGraph.Proofs.Document.Texts

/-!
# Playing a document

The reader adds a route only if it fits. A scene that was read from a document without a skipped
declaration therefore has routes that fit between its nodes (`Scene.IsSettled.exists_feeds`), and they are
never refused while the scene is played.

* `Document.never_refused`: so it is for every run of a host.
-/

namespace SceneGraph

open World (Carries Delivers Plays Ready Refuses)

namespace Scene

variable {header : Header} {env : Environment} {s : Scene} {w : World}

/-- The routes between nodes of a scene, with the kinds of the fields that they leave. -/
def links (s : Scene) (w : World) : World.Links := fun slot route k =>
  (slot.1, slot.2, route) ∈ s.routes w ∧ route.target ∈ s.nodes w ∧
    ∃ n, w.node? slot.1 = some n ∧ n.kind? slot.2 = some k

/-- The routes of a settled scene fit. -/
theorem IsSettled.carries (h : s.IsSettled header env w) : Carries (s.links w) w where
  sources := by
    rintro slot route k ⟨-, -, m, hm, hk⟩ n hn
    obtain rfl : m = n := Option.some.inj (hm.symm.trans hn)
    exact hk
  targets := by
    rintro slot route k ⟨hroute, htarget, m, hm, hk⟩ n hn
    obtain ⟨a, b, ha, hb, -, hfeeds⟩ := h.exists_feeds hroute htarget
    obtain rfl : a = m := Option.some.inj (ha.symm.trans hm)
    obtain rfl : b = n := Option.some.inj (hb.symm.trans hn)
    obtain ⟨k', houtput, hinput⟩ := hfeeds.kinds
    obtain rfl : k' = k := Option.some.inj (houtput.symm.trans hk)
    exact ⟨hinput, hfeeds.settable⟩

end Scene

namespace Document

variable {d : Document} {w v : World} {s : Scene}

/-- **No route of a document is refused while its scene is played.** The document was read without a
skipped declaration; then fields are set, frames and input are passed on, and handles are taken and given
back, any number of times. Whenever a value goes out along a route that the reader added between nodes of
the scene, its end takes the value, unless its node is gone. A route to a node outside the scene is another
matter: where the end of the text cut a declaration off, its node has lost the fields of its own, and refuses
what comes for them if it is still there. -/
theorem never_refused (hw : Ready w) (hcatalog : d.catalog = Catalog.standard) (hread : (d.read w).result = .ok s)
    (hskip : ¬ w.Skipped d.file (d.read w).world) (hplays : Plays (d.read w).world v) :
    ∃ news, v.journal = news ++ (d.read w).world.journal ∧
      ∀ r ∈ s.routes (d.read w).world, r.2.2.target ∈ s.nodes (d.read w).world →
        ∀ value error, .step (.followed r.1 r.2.1 r.2.2.target r.2.2.field value (some error)) ∉ news := by
  obtain ⟨header, hheader⟩ := exists_header hread
  have hsettled := isSettled hw hcatalog hheader hread hskip
  obtain ⟨-, -, news, hnews, hquiet⟩ := hplays.delivers hsettled.orderly.sound hsettled.carries
  refine ⟨news, hnews, fun r hr htarget value error hmem => hquiet _ hmem ?_⟩
  obtain ⟨a, b, ha, -, -, hfeeds⟩ := hsettled.exists_feeds hr htarget
  obtain ⟨k, hk, -⟩ := hfeeds.kinds
  exact ⟨(r.1, r.2.1), r.2.2, k, value, error, ⟨hr, htarget, a, ha, hk⟩, rfl⟩

end Document

end SceneGraph
