import SceneGraph.Proofs.Document.Separation
import SceneGraph.Proofs.World.Listing
import SceneGraph.Proofs.World.Upheld

/-!
# What reading keeps in order

What survives all that readers do, the root's taking its children and the set-up survives the reading of a
document (`Document.read_induction`). So after a document was read every node that lives is held
(`Document.upheld_read`), and the registry lists the nodes of the scene behind those that it listed before
(`Document.listsSince_read`).
-/

namespace SceneGraph

namespace World

variable {w₀ : World}

/-- Whatever readers do, nobody lives on whom nobody holds. -/
theorem Upheld.invariant (ctx : DocumentContext) : Reader.Invariant ctx (Upheld []) fun _ => True where
  enter _ e h := h.enter e
  create w typeName id w' h hcreate := by
    refine ⟨?_, fun _ _ => trivial⟩
    obtain ⟨-, rfl⟩ | ⟨t, -, spec, v, hspec, -, rfl⟩ := createOfType_cases hcreate
    · exact h
    · exact (h.specification hspec).create ..
  hold _ _ n h _ := ⟨h.holdAll [n.id], trivial⟩
  setName _ id name h _ := h.setName id name
  initField _ id name value h _ _ := h.initField id name value
  addField _ id name k h _ := h.addField id name k
  connect _ _ a output b input h _ := h.addConnection a.id output ⟨b.id, input⟩
  discard _ id h _ := h.discard id
  dropAll _ ids h _ := h.dropAll ids

/-- Whatever readers do, the registry keeps what it listed before. -/
theorem ListsSince.invariant (hw₀ : w₀.Sealed) (ctx : DocumentContext) :
    Reader.Invariant ctx (ListsSince w₀) fun _ => True where
  enter w e h := h.kept (.enter w e)
  create _ _ _ _ h hcreate := ⟨h.createOfType hw₀ hcreate, fun _ _ => trivial⟩
  hold _ _ _ h _ := ⟨h.kept ⟨rfl, rfl⟩, trivial⟩
  setName _ id name h _ := h.setName id name
  initField w id name value h _ _ := h.moves hw₀ (unfolds_initField w id name value).moves
  addField w id name k h _ := h.kept (keeps_addField w id name (.initial k))
  connect w _ a output b input h _ := h.kept (keeps_addConnection w a.id output ⟨b.id, input⟩)
  discard w id h _ := (h.setName id "").moves hw₀ (moves_discard w id)
  dropAll w ids h _ := h.moves hw₀ (moves_dropAll w ids)

end World

namespace Reader

variable {ctx : DocumentContext} {s : ReaderState}

/-- A document whose root refuses the top-level nodes lets go of them, and of the root. -/
theorem exec_document_refused {ids : List NodeId} {t : ReaderState} {u : World} {e : NodeError}
    (hstatements : exec (statements ctx (s.lexemes.length + 1) []) s = (.ok ids, t))
    (hset : t.scene.setChildren t.world ids = (.error e, u)) :
    exec (document ctx) s =
      (.error (.node e t.last), { t with world := (u.dropAll ids).drop ctx.environment.scene }) := by
  have hread : exec (onFailure (do Reader.statements ctx ((← get).lexemes.length + 1) [])
      (·.drop ctx.environment.scene)) s = (.ok ids, t) := by
    rw [exec_onFailure, exec_bind_ok (exec_get s), hstatements]
  rw [document, exec_bind_ok hread, exec_bind_ok (exec_get t), hset]
  dsimp only
  rw [exec_bind_ok (exec_set t _), exec_bind_ok (exec_act _ _), exec_throw]

end Reader

namespace Document

open Reader (exec)
open World (ListsSince Sealed Upheld)

variable {d : Document} {w w₀ : World}

/-- **What survives each part of a reading** holds of the world afterwards, whether the document was read or not. -/
theorem read_induction {I : World → Prop} (hbefore : I w)
    (hinvariant : ∀ header, Reader.Invariant (d.context header w) I fun _ => True)
    (hstart : ∀ time, I (Scene.create w d.library d.file d.renders time).2)
    (hset : ∀ header ids t, exec (Reader.statements (d.context header w) ((d.start header w).lexemes.length + 1) [])
      (d.start header w) = (.ok ids, t) → I t.world → I (t.scene.setChildren t.world ids).2)
    (hsetUp : ∀ v id time, I v → I (v.initializeNode id time)) : I (d.read w).world := by
  cases hheader : d.header with
  | error e =>
    rw [read_of_error w hheader]
    exact hbefore
  | ok header =>
    obtain ⟨-, hworld⟩ := read_eq w hheader
    rw [hworld]
    have hI := hinvariant header
    have hnone : ∀ id ∈ ([] : List NodeId), True := by simp
    have hbegun : I (d.start header w).world := hstart (if d.time.isUnset then d.now else d.time)
    have hroot : (d.start header w).scene.root = (d.context header w).environment.scene :=
      root_create w d.library d.file d.renders (if d.time.isUnset then d.now else d.time)
    obtain ⟨hstatements, -, -⟩ := hI.statements ((d.start header w).lexemes.length + 1) hnone
      (d.start header w) hbegun hroot
    cases hrun : exec (Reader.statements (d.context header w) ((d.start header w).lexemes.length + 1) [])
        (d.start header w) with
    | mk r t =>
    rw [hrun] at hstatements
    obtain e | ids := r
    · rw [Reader.exec_document_error hrun]
      exact hI.drop trivial _ hstatements
    have hchildren := hI.dropAll _ ids (hset header ids t hrun hstatements) fun _ _ => trivial
    cases hresult : t.scene.setChildren t.world ids with
    | mk r u =>
    rw [hresult] at hchildren
    obtain e | _ := r
    · rw [Reader.exec_document_refused hrun hresult]
      exact hI.drop trivial _ hchildren
    · obtain ⟨e, s', -, hdone, -, hlast⟩ := Reader.exec_document_of_statements hrun hresult
      rw [hdone, hlast]
      exact hI.enter _ e (hsetUp _ _ _ hchildren)

/-- **Every node that lives is held** after a document was read into an empty world, or failed to be read. -/
theorem upheld_read (hcatalog : d.catalog = Catalog.standard) : Upheld [] (d.read {}).world := by
  have hmade : ∀ time, Upheld [] (Scene.create {} d.library d.file d.renders time).2 := by
    intro time
    have hlayouts : World.HasLayouts {} := by simp [World.HasLayouts]
    obtain ⟨specifications, -, hcreate⟩ := hlayouts.createScene d.library d.file d.renders time
    rw [hcreate]
    exact (Upheld.empty.learn specifications).create ..
  refine read_induction .empty (fun header => Upheld.invariant _) hmade
    (fun header ids t hstatements h => ?_) fun v id time h => h.initializeUpTo time _ id
  -- the root is bare until it takes its children
  obtain ⟨hbare, hscene, hids⟩ := bareRoot_statements World.AtRest.empty (hcatalog ▸ wellFormed_standard) hstatements
  rw [Scene.setChildren, hscene]
  have hquiet : ((d.context header {}).environment.scene, childrenField) ∉ t.world.cascade := by
    rw [hbare.idle]
    exact List.not_mem_nil
  rw [World.setField_root hbare.node hquiet hids]
  have hnone : (Node.fresh (d.context header {}).environment.scene Scene.nodeType.layout .grouping
      (d.context header {}).environment).field? childrenField = some _ := rfl
  have hstored := h.store hbare.node hnone (.nodes ids t.scene.time)
  exact ((hstored.enter _).enter _).enter _

/-- **The registry lists the nodes of the scene last**, behind what it listed before. -/
theorem listsSince_read (hw₀ : w₀.Sealed) (d : Document) : ListsSince w₀ (d.read w₀).world := by
  refine read_induction (.refl w₀) (fun header => ListsSince.invariant hw₀ _)
    (fun time => (ListsSince.refl w₀).createScene hw₀ ..) (fun header ids t _ h => ?_)
    fun v id time h => h.moves hw₀ (@World.Call.moves v (.setUp id time) not_false)
  exact h.moves hw₀ (@World.Call.moves _ (.setField ..) not_false)

end Document

end SceneGraph
