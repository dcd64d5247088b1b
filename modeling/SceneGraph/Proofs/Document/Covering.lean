import SceneGraph.Proofs.Document.Outlining
import SceneGraph.Proofs.World.Fields
import SceneGraph.Proofs.World.Visiting

/-!
# Documents cover their scenes

Which names a document needs is counted over one walk, along all references. The document itself is made by another
walk, which skips what is not written and meets nodes again that it has declared. The two agree as long as no node
refers to the root: what the second walk visits is a part of what the first one counted (`Scene.Covers`), so that
whenever a node is met again, it has a name.

* `World.Intact`: what all worlds keep that calls make (`World.Reachable.intact`) or documents (`Document.intact`).
* `Scene.outline_covers`: every node that is reached along written fields is declared once, in the order of a
  depth-first walk, and all further occurrences use its name.
-/

namespace SceneGraph

open Relation (ReflTransGen)
open World (Call fresh_of_any)

/-! ### The declarations of an outline -/

mutual

/-- The nodes that an outline declares, in the order of its text. -/
def NodeOutline.declares : NodeOutline → List NodeId
  | .null => []
  | .use _ => []
  | .declare id _ _ entries => id :: EntryOutline.allDeclare entries

/-- The nodes that an entry declares. -/
def EntryOutline.declares : EntryOutline → List NodeId
  | .value _ _ => []
  | .node _ o => o.declares
  | .nodes _ os => NodeOutline.allDeclare os

/-- The nodes that outlines declare, one after the other. -/
def NodeOutline.allDeclare : List NodeOutline → List NodeId
  | [] => []
  | o :: rest => o.declares ++ NodeOutline.allDeclare rest

/-- The nodes that entries declare, one after the other. -/
def EntryOutline.allDeclare : List EntryOutline → List NodeId
  | [] => []
  | e :: rest => e.declares ++ EntryOutline.allDeclare rest

end

section Declarations

variable {w : World} {names : NodeNames}

mutual

/-- What is declared after an outline was declared before, or the outline declares it. -/
theorem NodeOutline.Tells.after_eq {before after : List NodeId} {o : NodeOutline} {target : Option NodeId}
    (h : o.Tells w names before target after) : after = o.declares.reverse ++ before :=
  match h with
  | .null _ => rfl
  | .use _ _ _ => rfl
  | .declare _ _ _ _ _ hentries => by
    rw [hentries.after_eq, NodeOutline.declares, List.reverse_cons, List.append_assoc]
    rfl

theorem EntryOutline.TellAll.after_eq {before after : List NodeId} {es : List EntryOutline}
    {fs : List WrittenField}
    (h : EntryOutline.TellAll w names before es fs after) : after = (EntryOutline.allDeclare es).reverse ++ before :=
  match h with
  | .nil _ => rfl
  | .value _ _ hrest => hrest.after_eq
  | .node _ _ _ _ hnode hrest => by
    rw [hrest.after_eq, hnode.after_eq, EntryOutline.allDeclare, EntryOutline.declares, List.reverse_append,
      List.append_assoc]
  | .nodes _ _ _ hnodes hrest => by
    rw [hrest.after_eq, hnodes.after_eq, EntryOutline.allDeclare, EntryOutline.declares, List.reverse_append,
      List.append_assoc]

theorem NodeOutline.TellAll.after_eq {before after ids : List NodeId} {os : List NodeOutline}
    (h : NodeOutline.TellAll w names before os ids after) : after = (NodeOutline.allDeclare os).reverse ++ before :=
  match h with
  | .nil _ => rfl
  | .cons hnode hrest => by
    rw [hrest.after_eq, hnode.after_eq, NodeOutline.allDeclare, List.reverse_append, List.append_assoc]

end

end Declarations

/-! ### What documents tell of -/

/-- The fields of a node that documents tell of: those of its type that can be read or cannot be set, and all of its
own. -/
def Node.told (n : Node) : List Field := n.toldOfType ++ n.dynamic.map (·.2)

namespace Node

variable {n : Node}

/-- Under any header the fields that are written refer to what documents tell of. -/
theorem flatMap_written_under (h : n.IsRegular) (header : Header) :
    (n.under header).written.flatMap (·.value.references) = n.told.flatMap Field.references := by
  have hown : ∀ fs : List (String × Field),
      (fs.filter header.allows).flatMap (·.2.references) = fs.flatMap (·.2.references) := by
    intro fs
    induction fs with
    | nil => rfl
    | cons f fs ih =>
      cases hallows : header.allows f with
      | true => rw [List.filter_cons_of_pos hallows, List.flatMap_cons, List.flatMap_cons, ih]
      | false =>
        -- no extended type is that of nodes
        have htype : f.2.kind.type ≠ .node := by
          intro ht
          rw [Header.allows, ht] at hallows
          cases hallows
        rw [List.filter_cons_of_neg (ne_true_of_eq_false hallows), List.flatMap_cons,
          Field.references_eq_nil htype, List.nil_append, ih]
  rw [written_under, told, List.flatMap_append, List.flatMap_append, List.flatMap_map, List.flatMap_map,
    List.flatMap_map, flatMap_writtenFields h, hown]

/-- They refer to a part of what the node refers to. -/
theorem sublist_references (h : n.IsRegular) : (n.told.flatMap Field.references).Sublist n.references := by
  rw [references_eq_fields h, told, List.flatMap_append, List.flatMap_map]
  refine List.Sublist.append ?_ (List.Sublist.refl _)
  rw [toldOfType, flatMap_filterMap_eq]
  refine List.Sublist.flatMap_right _ fun e _ => ?_
  split
  · exact List.nil_sublist _
  · exact List.Sublist.refl _

theorem nodesIn_sublist (n : Node) (name : String) : (n.nodesIn name).Sublist n.references := by
  unfold nodesIn
  split
  · rename_i f hf
    split
    · exact List.sublist_flatten_of_mem (List.mem_map_of_mem (mem_allFields_of_field? hf))
    · exact List.nil_sublist _
  · exact List.nil_sublist _

end Node

namespace World

variable {w : World} {types : Catalog} {id : NodeId} {header : Header}

/-- The fields that documents tell of at a node. -/
def toldOf (w : World) (id : NodeId) : List Field := ((w.node? id).map Node.told).getD []

/-- Where these fields lead. -/
def toldReferencesOf (w : World) (id : NodeId) : List NodeId := (w.toldOf id).flatMap Field.references

/-- References lead to live nodes, and every node has the fields of its type. -/
structure Intact (w : World) : Prop where
  live : ∀ n ∈ w.nodes, ∀ r ∈ n.references, w.isLive r = true
  regular : ∀ n ∈ w.nodes, n.IsRegular

theorem Sound.intact (hr : types.Regular) (hnames : ∀ t ∈ types, t.layout.names.Nodup) (hs : Sound types w) :
    w.Intact where
  live _ hn _ hr := hs.references _ (references_subset_of_mem hn hr)
  regular _ hn := hs.isRegular hr hnames hn

/-- **Calls make intact worlds.** -/
theorem Reachable.intact (hr : types.Regular) (hw : Reachable types w) : w.Intact :=
  ((hw.usable hr).sound hr.usable).intact hr.usable fun _ ht => (Catalog.mem_usable.1 ht).2

theorem Orderly.intact (h : w.Orderly) : w.Intact := h.sound.intact Catalog.regular_withScenes (by decide)

theorem toldReferencesOf_of_node? {n : Node} (hn : w.node? id = some n) :
    w.toldReferencesOf id = n.told.flatMap Field.references := by
  rw [toldReferencesOf, toldOf, hn]
  rfl

theorem toldOf_eq_nil (hid : id ∉ w.liveIds) : w.toldOf id = [] := by
  cases hn : w.node? id with
  | none =>
    rw [toldOf, hn]
    rfl
  | some n => exact absurd (mem_liveIds.2 (isLive_of_node? hn)) hid

theorem toldReferencesOf_eq_nil (hid : id ∉ w.liveIds) : w.toldReferencesOf id = [] := by
  rw [toldReferencesOf, toldOf_eq_nil hid]
  rfl

theorem Intact.sublist_referencesOf (h : w.Intact) (id : NodeId) :
    (w.toldReferencesOf id).Sublist (w.referencesOf id) := by
  cases hn : w.node? id with
  | none =>
    rw [toldReferencesOf, toldOf, hn]
    exact List.nil_sublist _
  | some n =>
    rw [toldReferencesOf_of_node? hn, referencesOf, hn]
    exact Node.sublist_references (h.regular n (mem_nodes_of_node? hn))

theorem Intact.isLive_reference (h : w.Intact) {r : NodeId} (hr : r ∈ w.referencesOf id) : w.isLive r = true := by
  obtain ⟨n, hn, hr⟩ := Refers.exists_node hr
  exact h.live n (mem_nodes_of_node? hn) r hr

theorem children_sublist (w : World) (id : NodeId) : (w.children id).Sublist (w.referencesOf id) := by
  unfold children referencesOf
  cases w.node? id with
  | none => exact List.Sublist.refl _
  | some n => exact n.nodesIn_sublist childrenField

/-- A world of which a document tells under a header. -/
def under (w : World) (header : Header) : World := { w with nodes := w.nodes.map (·.under header) }

theorem node?_under {n : Node} (hn : w.node? id = some n) : (w.under header).node? id = some (n.under header) := by
  have hsame : ((fun m : Node => m.id == id) ∘ fun m : Node => m.under header) = fun m => m.id == id := rfl
  rw [node?, under, List.find?_map, hsame]
  exact congrArg (Option.map (·.under header)) hn

end World

/-- **Documents make intact worlds**, one after the other. -/
theorem Document.intact {d : Document} {header : Header} {w : World} {s : Scene} (hw : w.Ready)
    (hcatalog : d.catalog = Catalog.standard) (hheader : d.header = .ok header) (hread : (d.read w).result = .ok s) :
    (d.read w).world.Intact := (ready hw hcatalog hheader hread).orderly.intact

/-! ### The walk that makes a document -/

namespace Scene

variable {s : Scene} {w : World} {before stack : List NodeId} {id x : NodeId} {header : Header}

/-- The nodes that are reached from the top-level nodes along the fields that documents tell of. -/
def told (s : Scene) (w : World) : List NodeId := preorder w.toldReferencesOf w.liveIds (s.children w) []

theorem nodup_told (s : Scene) (w : World) : (s.told w).Nodup := (nodup_preorder _ _ _ _).1

theorem told_subset_nodes (hw : w.Intact) (hroot : ∀ n ∈ w.nodes, s.root ∉ n.references) : s.told w ⊆ s.nodes w := by
  intro x hx
  have hnot : ∀ id, s.root ∉ w.referencesOf id := fun id hmem => by
    obtain ⟨n, hn, hmem⟩ := World.Refers.exists_node hmem
    exact hroot n (World.mem_nodes_of_node? hn) hmem
  obtain ⟨c, hc, hway⟩ := exists_of_mem_preorder hx
  have hc := (w.children_sublist s.root).subset hc
  have hway : ReflTransGen (fun a b => b ∈ w.referencesOf a) c x :=
    hway.lift (fun a => a) fun a b hb => (hw.sublist_referencesOf a).subset hb
  have hne : x ≠ s.root := by
    rintro rfl
    rcases ReflTransGen.cases_tail hway with rfl | ⟨y, -, hy⟩
    · exact hnot _ hc
    · exact hnot y hy
  have hmem : x ∈ s.root :: s.nodes w := by
    rw [s.root_cons_nodes, mem_preorder_iff fun _ => World.referencesOf_eq_nil]
    exact ⟨s.root, List.mem_cons_self, .head hc hway⟩
  exact (List.mem_cons.1 hmem).resolve_left hne

theorem nodes_subset_liveIds (hw : w.Intact) : s.nodes w ⊆ w.liveIds := by
  intro x hx
  obtain ⟨c, hc, hway⟩ := exists_of_mem_preorder hx
  rcases ReflTransGen.cases_tail hway with rfl | ⟨y, -, hy⟩
  · exact World.mem_liveIds.2 (hw.isLive_reference hc)
  · exact World.mem_liveIds.2 (hw.isLive_reference hy)

/-- What is told is a part of what is used: the children of the root among its references, and each node that is told
of among those of the scene. -/
theorem count_told_le (hw : w.Intact) (hroot : ∀ n ∈ w.nodes, s.root ∉ n.references) (x : NodeId) :
    (s.children w ++ (s.told w).flatMap w.toldReferencesOf).count x ≤ (s.uses w).count x := by
  obtain ⟨part, hperm, hpart⟩ := List.subperm_of_subset (s.nodup_told w) (told_subset_nodes hw hroot)
  have hrefs : ((s.told w).flatMap w.toldReferencesOf).Sublist ((s.told w).flatMap w.referencesOf) :=
    List.Sublist.flatMap_right _ fun id _ => hw.sublist_referencesOf id
  rw [Scene.uses, List.flatMap_cons, List.count_append, List.count_append]
  refine Nat.add_le_add ((w.children_sublist s.root).count_le x) ?_
  calc ((s.told w).flatMap w.toldReferencesOf).count x
      ≤ ((s.told w).flatMap w.referencesOf).count x := hrefs.count_le x
    _ = (part.flatMap w.referencesOf).count x := (hperm.flatMap_right _).symm.count_eq x
    _ ≤ ((s.nodes w).flatMap w.referencesOf).count x := (hpart.flatMap _).count_le x

/-- The walk that makes a document has declared the nodes `before`, the last one first, and is about to visit those of
a stack, which are live. -/
structure Covers (s : Scene) (w : World) (before stack : List NodeId) : Prop where
  live : ∀ x ∈ stack, w.isLive x = true
  tallied : Tallied w.toldReferencesOf w.liveIds [] (s.told w) (s.uses w) before stack

namespace Covers

/-- The walk starts with the top-level nodes. -/
theorem start (hw : w.Intact) (hroot : ∀ n ∈ w.nodes, s.root ∉ n.references) : s.Covers w [] (s.children w) where
  live _ hc := hw.isLive_reference ((w.children_sublist s.root).subset hc)
  tallied := by
    refine ⟨rfl, fun x => ?_⟩
    have hcount := count_told_le hw hroot x
    rw [List.count_append] at hcount
    rw [if_neg List.not_mem_nil, Nat.zero_add]
    exact hcount

/-- **The walk never leaves a reference out**: it passes by what has a name, and enters everything else. -/
theorem guides (hw : w.Intact) (hroot : ∀ n ∈ w.nodes, s.root ∉ n.references) (header : Header) :
    Outliner.Guides (s.outlineContext w header) (w.under header) (fun t stack => s.Covers w t.declared stack)
      (s.told w).length where
  bounded _ _ h := h.tallied.length_le
  pass t stack id h hid := by
    obtain ⟨n, hn⟩ := World.isLive_iff.1 (h.live id List.mem_cons_self)
    obtain ⟨htallied, huses⟩ := h.tallied.pass hid
    exact ⟨⟨fun x hx => h.live x (List.mem_cons_of_mem _ hx), htallied⟩,
      exists_name (told_subset_nodes hw hroot (h.tallied.mem hid)) hn (.inl huses)⟩
  enter t stack id h hid := by
    have hlive := h.live id List.mem_cons_self
    obtain ⟨n, hn⟩ := World.isLive_iff.1 hlive
    obtain ⟨htallied, -⟩ := h.tallied.enter hid List.not_mem_nil (World.mem_liveIds.2 hlive)
    have hrefs : (n.under header).written.flatMap (·.value.references) = w.toldReferencesOf id := by
      rw [World.toldReferencesOf_of_node? hn]
      exact Node.flatMap_written_under (hw.regular n (World.mem_nodes_of_node? hn)) header
    refine ⟨n, hn, World.node?_under hn, fun _ _ _ _ _ h => h, ?_⟩
    rw [outlineContext, hrefs]
    refine ⟨fun x hx => ?_, htallied⟩
    rcases List.mem_append.1 hx with hx | hx
    · exact hw.isLive_reference ((hw.sublist_referencesOf id).subset hx)
    · exact h.live x (List.mem_cons_of_mem _ hx)

end Covers

/-- The nodes that the document of a scene declares, in the order of its text. -/
def declares (s : Scene) (w : World) (header : Header) : List NodeId := NodeOutline.allDeclare (s.outline w header).1

/-- **A document covers its scene.** If no node refers to the root, then every node that is reached from the top-level
nodes along the fields that documents tell of is declared exactly once, in the order of a depth-first walk by
recursion. Wherever a field refers to a node, the document declares the node there, with all its fields that the
header allows, or uses the name of a node that was declared before; it says `NULL` only where there is no node. -/
theorem outline_covers (s : Scene) (w : World) (header : Header) (hw : w.Intact)
    (hroot : ∀ n ∈ w.nodes, s.root ∉ n.references) :
    (s.write w header).1 = s.preamble header ++
        String.join ((s.outline w header).1.map fun o => "\n" ++ o.text 0 ++ "\n") ++ s.routeLines w ∧
      NodeOutline.TellAll (w.under header) (s.namesFor w) [] (s.outline w header).1 (s.children w)
        (s.declares w header).reverse ∧
      VisitsNodes w.toldOf [] (s.children w) (s.declares w header) ∧
      (s.declares w header).Nodup ∧
      ∀ x, x ∈ s.declares w header ↔
        ∃ c ∈ s.children w, ReflTransGen (fun a b => b ∈ w.toldReferencesOf a) c x := by
  have hlength : (s.told w).length + 1 - (w.nodes.length + 1) ≤ ([] : List NodeId).length := by
    have hsubset : s.told w ⊆ w.liveIds := fun _ hx => nodes_subset_liveIds hw (told_subset_nodes hw hroot hx)
    have hle := (List.subperm_of_subset (s.nodup_told w) hsubset).length_le
    rw [World.liveIds, List.length_map] at hle
    rw [List.length_nil]
    omega
  have hstart := Covers.start hw hroot
  rw [← List.append_nil (s.children w)] at hstart
  obtain ⟨os, t, hrun, htells, hend⟩ :=
    ((Covers.guides hw hroot header).walks (w.nodes.length + 1)).nodes (t := {}) hlength hstart
  have houtline : s.outline w header = (os, t) := hrun
  have hafter : t.declared = (NodeOutline.allDeclare os).reverse := by
    rw [htells.after_eq, List.append_nil]
  have htold : NodeOutline.allDeclare os = s.told w := by
    rw [hend.tallied.nodes, hafter, List.reverse_reverse, preorder, List.append_nil]
  refine ⟨rfl, ?_⟩
  rw [declares, houtline]
  refine ⟨hafter ▸ htells, ?_, ?_, fun x => ?_⟩
  · exact (visitsNodes_iff fun _ => World.toldOf_eq_nil).2 htold
  · exact htold ▸ s.nodup_told w
  · rw [htold]
    exact mem_preorder_iff fun _ => World.toldReferencesOf_eq_nil

/-! ### A scene with shared nodes and a cycle -/

/-- The root is the first node. A group lists a shape twice and a script, the shape refers to the script as well, and
the script refers back to the group. A second shape only stands where nobody reads. -/
def entangled : World :=
  (Call.setField ⟨1⟩ childrenField (.nodes [⟨2⟩, ⟨4⟩])).run <|
    (Call.addField ⟨4⟩ "back" (.single .node (some ⟨2⟩))).run <|
      (Call.initField ⟨3⟩ "geometry" (.single .node (some ⟨4⟩))).run <|
        (Call.initField ⟨2⟩ "addChildren" (.nodes [⟨5⟩])).run <|
          (Call.initField ⟨2⟩ childrenField (.nodes [⟨3⟩, ⟨3⟩, ⟨4⟩])).run <|
            (Call.create Catalog.withScenes "Shape" .detached).run <|
              (Call.create Catalog.withScenes "Script" .detached).run <|
                (Call.create Catalog.withScenes "Shape" .detached).run <|
                  (Call.create Catalog.withScenes "Group" .detached).run <|
                    (Call.createScene "" "" false .unset).run {}

theorem reachable_entangled : World.Reachable Catalog.withScenes entangled := by
  refine .call (.call (.call (.call (.call (.call (.call (.call (.call (.call .empty List.mem_cons_self)
    fun _ ht => ht) fun _ ht => ht) fun _ ht => ht) fun _ ht => ht) ⟨?_, fresh_of_any ?_⟩) ⟨?_, fresh_of_any ?_⟩)
    ⟨?_, fresh_of_any ?_⟩) ?_) ?_
  iterate 6 decide +kernel
  all_goals
    rw [Call.Allowed]
    decide +kernel

/-- The group, the first shape and the script are declared, in this order, and nothing else. -/
theorem outline_covers_entangled :
    entangled.Intact ∧ (∀ n ∈ entangled.nodes, ⟨1⟩ ∉ n.references) ∧
      VisitsNodes entangled.toldOf [] [⟨2⟩, ⟨4⟩] [⟨2⟩, ⟨3⟩, ⟨4⟩] ∧
      ({ root := ⟨1⟩, time := .unset } : Scene).nodes entangled = [⟨2⟩, ⟨3⟩, ⟨4⟩, ⟨5⟩] := by
  have hintact := reachable_entangled.intact Catalog.regular_withScenes
  have hroot : ∀ n ∈ entangled.nodes, ⟨1⟩ ∉ n.references := by decide +kernel
  have hchildren : ({ root := ⟨1⟩, time := .unset } : Scene).children entangled = [⟨2⟩, ⟨4⟩] := by decide +kernel
  have hdeclares : ({ root := ⟨1⟩, time := .unset } : Scene).declares entangled .vrml = [⟨2⟩, ⟨3⟩, ⟨4⟩] := by
    decide +kernel
  obtain ⟨-, -, hvisits, -⟩ := outline_covers { root := ⟨1⟩, time := .unset } entangled .vrml hintact hroot
  rw [hchildren, hdeclares] at hvisits
  exact ⟨hintact, hroot, hvisits, by decide +kernel⟩

end Scene

end SceneGraph
