import SceneGraph.Library.Basic
import SceneGraph.Settings

/-!
# The library of documents

`Library.documents` loads documents into permanent scenes. It makes nodes of the types of a catalog.
-/

namespace SceneGraph

namespace Library

/-- The name of the library of documents. -/
def documentsName : String := "classic"

/-- Loads a document from storage. -/
def loadDocument (catalog : Catalog) (r : LoadRequest) (s : LoadState) : LoadAnswer × LoadState :=
  match r.lifetime with
  | .transient => (.declined, s)
  | .permanent =>
    match r.storage.read r.path with
    | .error fault => (.failed (.unreadable r.path fault), s)
    | .ok text =>
      let w := s.world.log .debug s!"classic: parsing {r.path} ({text.utf8ByteSize} bytes)"
      let document : Document :=
        { text
          file := r.path
          catalog
          library := documentsName
          time := r.time
          now := r.now
          renders := r.renders
          control := r.control.after s.asked
          progress := s.progress }
      let out := document.read w
      let seen : LoadState :=
        { world := out.world
          asked := s.asked + out.checkpoints.length
          progress := out.progress }
      match out.result with
      | .error e => (.failed (.document e), seen)
      | .ok scene =>
        let count := (scene.nodes out.world).length
        let message := s!"loaded {r.path} as scene #{scene.root} ({count} nodes)"
        (.loaded (.permanent scene), { seen with world := out.world.log .info message })

/-- The library that loads documents with the given extensions. -/
def documents (catalog : Catalog) (extensions : List FileExtension) : Library where
  name := documentsName
  lifetimes := { permanent := true }
  extensions := extensions
  load := loadDocument catalog

end Library

/-- The extensions that the settings name. -/
def DocumentSettings.fileExtensions (s : DocumentSettings) : List FileExtension :=
  (s.extensions.map fun (extension, description) => .ofSpelling extension description).foldl
    FileExtension.register []

end SceneGraph
