import SceneGraph.Library.Basic

/-!
# Libraries for rehearsals

A library that does not look at files at all: whatever it is asked for, it enters the request into
the journal and gives the answer that it was told to give. Hosts try out their handling of libraries
with it.
-/

namespace SceneGraph

/-- The answer of a library for rehearsals. -/
inductive RehearsedAnswer where
  | decline
  /-- Fails as if the file were not there. -/
  | fail
  | cancel
  /-- Answers with a scene without nodes. -/
  | scene
  deriving DecidableEq, Repr

namespace Library

/-- Gives an answer that was fixed before. -/
def loadRehearsed (name : String) (answer : RehearsedAnswer) (r : LoadRequest) (s : LoadState) :
    LoadAnswer × LoadState :=
  let w := s.world.tell (.loading name r.extension r.lifetime.only.debugText)
  match answer with
  | .decline => (.declined, { s with world := w })
  | .fail => (.failed (.notFound r.path), { s with world := w })
  | .cancel => (.failed (.document .cancelled), { s with world := w })
  | .scene =>
    let (scene, w) := Scene.create w name r.path r.renders r.time
    let loaded :=
      match r.lifetime with
      | .permanent => .permanent scene
      | .transient => .transient scene (·.tell (.applied scene.root))
    (.loaded loaded, { s with world := w })

/-- A library that always gives the same answer. -/
def rehearsal (name : String) (lifetimes : Lifetimes) (extensions : List FileExtension)
    (answer : RehearsedAnswer) : Library where
  name := name
  lifetimes := lifetimes
  extensions := extensions
  load := loadRehearsed name answer

end Library

end SceneGraph
