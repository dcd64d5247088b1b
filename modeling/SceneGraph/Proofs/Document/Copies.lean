import SceneGraph.Proofs.Document.Texts
import SceneGraph.Proofs.World.Renaming

/-!
# Copies of nodes

A copy of a node has its type, its fields of its own in the same order, and the same values in the fields
that can be read, where references lead to the images of nodes under a map of ids (`Node.CopiedAs`).

* `Node.copiedAs_fill`: a fresh node becomes a copy when it is filled with what is written of another node.
* `Node.CopiedAs.references`: a copy refers to the images of what its original refers to.
-/

namespace SceneGraph

variable {header : Header} {env : Environment} {φ : NodeId → NodeId}

/-! ### Values -/

namespace Field

/-- A field has the value of another one, with images in place of nodes. -/
def CopiedAs (φ : NodeId → NodeId) (f g : Field) : Prop := (f.mapNodes φ).sameValue g = true

theorem kind_of_sameValue {f g : Field} (h : f.sameValue g = true) : f.kind = g.kind := by
  obtain ⟨⟨s, d⟩, a, time⟩ := f
  obtain ⟨⟨t, e⟩, b, time'⟩ := g
  cases d <;> cases e
  · change (if h : s = t then t.sameValue (h ▸ a) b else false) = true at h
    split at h
    · subst s
      rfl
    · cases h
  · cases h
  · cases h
  · change (if h : s = t then sameValues t (h ▸ a) b else false) = true at h
    split at h
    · subst s
      rfl
    · cases h

theorem sameValues_node_self (vs : List (Option NodeId)) : sameValues .node vs vs = true := by
  induction vs with
  | nil => rfl
  | cons v vs ih =>
    rw [sameValues, ih, Bool.and_true]
    exact beq_self_eq_true v

namespace CopiedAs

variable {f g : Field}

theorem kind (h : f.CopiedAs φ g) : g.kind = f.kind :=
  (kind_of_sameValue h).symm.trans (kind_mapNodes φ f)

theorem references (h : f.CopiedAs φ g) : g.references = f.references.map φ :=
  (references_of_sameValue h).symm.trans (references_mapNodes φ f)

theorem of_sameValue (hrefs : f.references = []) (h : f.sameValue g = true) : f.CopiedAs φ g := by
  rwa [CopiedAs, mapNodes_of_references hrefs]

/-- A single reference that is read. -/
theorem single_node (hkind : f.kind = ⟨.node, .single⟩) (time : Timestamp) :
    f.CopiedAs φ (single .node (f.references.head?.map φ) time) := by
  obtain ⟨⟨t, d⟩, content, stamp⟩ := f
  obtain ⟨rfl, rfl⟩ := Kind.mk.inj hkind
  cases content with
  | none => rfl
  | some id => exact beq_self_eq_true (some (φ id))

/-- A list of references that is read. -/
theorem nodes {ids : List NodeId} {stamp : Timestamp} (time : Timestamp) :
    (Field.nodes ids stamp).CopiedAs φ (Field.nodes (ids.map φ) time) := by
  have hmap : (ids.map some).map (Option.map φ) = (ids.map φ).map some := by
    rw [List.map_map, List.map_map]
    rfl
  change (if h : FieldType.node = .node then sameValues .node ((ids.map some).map (Option.map φ))
    ((ids.map φ).map some) else false) = true
  rw [dif_pos rfl, hmap]
  exact sameValues_node_self _

end CopiedAs

end Field

/-! ### Filling in -/

/-- A written field and its copy. -/
structure WrittenField.CopiedAs (φ : NodeId → NodeId) (f g : WrittenField) : Prop where
  own : g.own = f.own
  name : g.name = f.name
  value : f.value.CopiedAs φ g.value

namespace Node

/-- A node with one more field filled in: a field of its type gets a value, a field of its own is added. -/
def fillIn (n : Node) (f : WrittenField) : Node :=
  if f.own then { n with dynamic := n.dynamic ++ [(f.name, f.value)] } else n.store f.name f.value

/-- A node with some more fields filled in. -/
def fill (n : Node) (fs : List WrittenField) : Node := fs.foldl fillIn n

/-- Fields can be filled into a node one after the other. -/
structure Awaits (n : Node) (fs : List WrittenField) : Prop where
  distinct : (fs.map (·.name)).Nodup
  given : ∀ f ∈ fs, f.own = false → (∃ i, n.spec.index? f.name = some i) ∧
    ∃ old, n.field? f.name = some old ∧ old.kind = f.value.kind ∧ old.references = []
  new : ∀ f ∈ fs, f.own = true → n.capabilities.dynamic = true ∧ n.hasField f.name = false

variable {n m : Node} {f : WrittenField} {fs gs : List WrittenField} {name : String}

@[simp] theorem fillIn_id (n : Node) (f : WrittenField) : (n.fillIn f).id = n.id := by
  unfold fillIn; split <;> simp

@[simp] theorem fillIn_spec (n : Node) (f : WrittenField) : (n.fillIn f).spec = n.spec := by
  unfold fillIn; split <;> simp

@[simp] theorem fillIn_behavior (n : Node) (f : WrittenField) : (n.fillIn f).behavior = n.behavior := by
  unfold fillIn; split <;> simp

@[simp] theorem fillIn_name (n : Node) (f : WrittenField) : (n.fillIn f).name = n.name := by
  unfold fillIn; split <;> simp

@[simp] theorem fillIn_routes (n : Node) (f : WrittenField) : (n.fillIn f).routes = n.routes := by
  unfold fillIn; split <;> simp

@[simp] theorem fillIn_environment (n : Node) (f : WrittenField) :
    (n.fillIn f).environment = n.environment := by
  unfold fillIn; split <;> simp

/-- A node has the fields of its type for which a value is awaited. -/
theorem Awaits.hasField (h : n.Awaits fs) (hf : f ∈ fs) (hown : f.own = false) : n.hasField f.name = true := by
  obtain ⟨⟨i, hi⟩, -⟩ := h.given f hf hown
  cases hfield : n.hasField f.name with
  | true => rfl
  | false =>
    rw [(hasField_eq_false.1 hfield).1] at hi
    cases hi

/-- A new field of a node's own that is given its value is added with this value. -/
theorem store_extended (hnew : n.hasField name = false) (first value : Field) :
    ({ n with dynamic := n.dynamic ++ [(name, first)] } : Node).store name value =
      { n with dynamic := n.dynamic ++ [(name, value)] } := by
  obtain ⟨hindex, hnone⟩ := hasField_eq_false.1 hnew
  rw [dynamicField?, Option.map_eq_none_iff, List.find?_eq_none] at hnone
  unfold store
  rw [hindex]
  dsimp only
  congr 1
  rw [List.map_append, List.map_singleton, if_pos (beq_self_eq_true name)]
  congr 1
  refine (List.map_congr_left fun e he => ?_).trans (List.map_id _)
  have hne : (e.1 == name) = false := Bool.eq_false_iff.2 (hnone e he)
  rw [hne]
  rfl

/-- A field that is filled in, and the others. -/
theorem field?_fillIn (h : n.Awaits (f :: fs)) (name : String) (value : Field) :
    (n.fillIn ⟨f.own, f.name, value⟩).field? name = if name = f.name then some value else n.field? name := by
  unfold fillIn
  cases hown : f.own with
  | false =>
    obtain ⟨-, old, hold, -, -⟩ := h.given f List.mem_cons_self hown
    rw [if_neg Bool.false_ne_true, field?_store, hold]
    rfl
  | true =>
    obtain ⟨hindex, hnone⟩ := hasField_eq_false.1 (h.new f List.mem_cons_self hown).2
    rw [if_pos rfl]
    unfold field?
    cases hname : n.spec.index? name with
    | some i =>
      rw [if_neg]
      rintro rfl
      rw [hindex] at hname
      cases hname
    | none =>
      dsimp only
      rw [dynamicField?, List.find?_append]
      rw [dynamicField?] at hnone ⊢
      by_cases hf : name = f.name
      · subst hf
        rw [Option.map_eq_none_iff.1 hnone, if_pos rfl]
        simp
      · rw [if_neg hf]
        cases n.dynamic.find? (·.1 == name) with
        | some e => rfl
        | none => simp [Ne.symm hf]

theorem hasField_fillIn (f : WrittenField) (value : Field) (hname : name ≠ f.name) :
    (n.fillIn ⟨f.own, f.name, value⟩).hasField name = n.hasField name := by
  unfold fillIn
  split
  · have hne : (f.name == name) = false := by simpa using Ne.symm hname
    simp [hasField, dynamicField?, List.find?_append, hne]
  · rw [hasField, hasField, store_spec, isSome_dynamicField?_store]

/-- What is still to be filled in stays so. -/
theorem Awaits.fillIn (h : n.Awaits (f :: fs)) (value : Field) :
    (n.fillIn ⟨f.own, f.name, value⟩).Awaits fs := by
  obtain ⟨hnew, hdistinct⟩ := List.nodup_cons.1 h.distinct
  have hne : ∀ g ∈ fs, g.name ≠ f.name := fun g hg heq => hnew (List.mem_map.2 ⟨g, hg, heq⟩)
  refine ⟨hdistinct, fun g hg hown => ?_, fun g hg hown => ?_⟩
  · rw [fillIn_spec, field?_fillIn h, if_neg (hne g hg)]
    exact h.given g (List.mem_cons_of_mem _ hg) hown
  · rw [hasField_fillIn f _ (hne g hg), capabilities, fillIn_behavior]
    exact h.new g (List.mem_cons_of_mem _ hg) hown

/-- A field of a node's own that is new is filled in by adding it with its first value and storing the
other value. -/
theorem store_fillIn (h : n.Awaits (f :: fs)) (hown : f.own = true) (first value : Field) :
    (n.fillIn ⟨f.own, f.name, first⟩).store f.name value = n.fillIn ⟨f.own, f.name, value⟩ := by
  rw [fillIn, fillIn, if_pos hown, if_pos hown]
  exact store_extended (h.new f List.mem_cons_self hown).2 first value

/-! ### Filling in copies -/

/-- The fields of a node's own among those that are written. -/
def ownOf (fs : List WrittenField) : List (String × Field) :=
  (fs.filter (·.own)).map fun f => (f.name, f.value)

theorem ownOf_written (n : Node) : ownOf n.written = n.dynamic := by
  simp [ownOf, written, List.filter_append, List.filter_map, Function.comp_def]

/-- Fields of a node's own and their copies. -/
def OwnCopied (φ : NodeId → NodeId) : List (String × Field) → List (String × Field) → Prop :=
  List.Forall₂ fun e d => d.1 = e.1 ∧ e.2.CopiedAs φ d.2

theorem ownCopied_ownOf (h : List.Forall₂ (WrittenField.CopiedAs φ) fs gs) :
    OwnCopied φ (ownOf fs) (ownOf gs) := by
  induction h with
  | nil => exact .nil
  | @cons f g fs gs hfg _ ih =>
    unfold ownOf at ih ⊢
    rw [List.filter_cons, List.filter_cons, hfg.own]
    split
    · exact .cons ⟨hfg.name, hfg.value⟩ ih
    · exact ih

/-- What filling in does to the fields, by induction on their number. -/
theorem fill_spec (h : n.Awaits fs) (hcopied : List.Forall₂ (WrittenField.CopiedAs φ) fs gs) :
    (n.fill gs).dynamic = n.dynamic ++ ownOf gs ∧
      (∀ name, name ∉ fs.map (·.name) → (n.fill gs).field? name = n.field? name) ∧
        ∀ f ∈ fs, ∃ g, (n.fill gs).field? f.name = some g ∧ f.value.CopiedAs φ g := by
  induction hcopied generalizing n with
  | nil => exact ⟨(List.append_nil _).symm, fun _ _ => rfl, by simp⟩
  | @cons f g fs gs hfg _ ih =>
    obtain ⟨own, name, value⟩ := g
    obtain ⟨rfl, rfl, hvalue⟩ := hfg
    obtain ⟨hdynamic, hother, hfilled⟩ := ih (h.fillIn value)
    obtain ⟨hnew, -⟩ := List.nodup_cons.1 h.distinct
    refine ⟨?_, fun name hname => ?_, fun f' hf' => ?_⟩
    · refine hdynamic.trans ?_
      unfold fillIn ownOf
      rw [List.filter_cons]
      cases hown : f.own with
      | true =>
        rw [if_pos rfl, if_pos rfl]
        exact List.append_assoc ..
      | false =>
        obtain ⟨⟨i, hi⟩, -⟩ := h.given f List.mem_cons_self hown
        rw [if_neg Bool.false_ne_true, if_neg Bool.false_ne_true, store, hi]
    · rw [List.map_cons, List.mem_cons, not_or] at hname
      refine (hother name hname.2).trans ?_
      rw [field?_fillIn h, if_neg hname.1]
    · rcases List.mem_cons.1 hf' with rfl | hf'
      · refine ⟨value, (hother _ hnew).trans ?_, hvalue⟩
        rw [field?_fillIn h, if_pos rfl]
      · exact hfilled f' hf'

/-- Filling in leaves the rest of a node alone. -/
theorem fill_same (n : Node) (gs : List WrittenField) : (n.fill gs).id = n.id ∧ (n.fill gs).spec = n.spec ∧
    (n.fill gs).behavior = n.behavior ∧ (n.fill gs).name = n.name ∧ (n.fill gs).routes = n.routes ∧
      (n.fill gs).environment = n.environment := by
  induction gs generalizing n with
  | nil => exact ⟨rfl, rfl, rfl, rfl, rfl, rfl⟩
  | cons g gs ih =>
    obtain ⟨hid, hspec, hbehavior, hname, hroutes, henvironment⟩ := ih (n.fillIn g)
    exact ⟨hid.trans (fillIn_id n g), hspec.trans (fillIn_spec n g), hbehavior.trans (fillIn_behavior n g),
      hname.trans (fillIn_name n g), hroutes.trans (fillIn_routes n g),
      henvironment.trans (fillIn_environment n g)⟩

/-- A node with nothing but the type and the name that a copy has. -/
def blank (n : Node) (env : Environment) (id : NodeId) (name : String) : Node :=
  { fresh id n.spec n.behavior env with name }

theorem field?_blank (h : n.spec.names.Nodup) {e : FieldSpec} (he : e ∈ n.spec.entries) (env : Environment)
    (id : NodeId) (name : String) : (n.blank env id name).field? e.name = some e.initial := by
  obtain ⟨i, hi, rfl⟩ := List.getElem_of_mem he
  have hspec : (n.blank env id name).spec = n.spec := rfl
  have hfields : (n.blank env id name).fields = n.spec.entries.map (·.initial) := rfl
  rw [field?, hspec, Specification.index?_getElem h hi, hfields]
  simp [hi]

/-- A field of the node's type has the kind that the layout says. -/
theorem IsRegular.kind_eq (h : n.IsRegular) {e : FieldSpec} (he : e ∈ n.spec.entries) {value : Field}
    (hvalue : n.field? e.name = some value) : value.kind = e.initial.kind := by
  obtain ⟨i, hi, rfl⟩ := List.getElem_of_mem he
  rw [field?, Specification.index?_getElem h.names hi] at hvalue
  have hkind := congrArg (·[i]?) h.kinds
  dsimp only at hkind hvalue
  rw [List.getElem?_map, hvalue, List.getElem?_map, List.getElem?_eq_getElem hi] at hkind
  exact Option.some.inj hkind

/-- The kind that a node knows for a field is the kind of the field. -/
theorem IsRegular.kind?_eq (h : n.IsRegular) (name : String) :
    n.kind? name = (n.field? name).map (·.kind) := kind?_eq_map h.kinds name

/-- The written fields of the node's type have different names. -/
theorem map_fst_writtenFields_sublist (n : Node) :
    ((Outliner.writtenFields n).map (·.1)).Sublist n.spec.names := by
  unfold Outliner.writtenFields Specification.names
  induction n.spec.entries with
  | nil => exact .slnil
  | cons e entries ih =>
    rw [List.filterMap_cons]
    split
    · exact ih.cons _
    · rename_i f hf
      have hname : f.1 = e.name := by
        split at hf
        · cases hf
        split at hf
        · split at hf
          · cases hf
          · rw [← Option.some.inj hf]
        · cases hf
      rw [List.map_cons, List.map_cons, hname]
      exact ih.cons_cons _

/-- Whether a field of the node's type is written. -/
theorem mem_writtenFields {e : FieldSpec} (hnames : n.spec.names.Nodup) (he : e ∈ n.spec.entries)
    {value : Field} : (e.name, value) ∈ Outliner.writtenFields n ↔
      (e.access.set && !e.access.get) = false ∧ n.field? e.name = some value ∧
        value.sameValue e.initial = false := by
  refine ⟨fun h => ?_, fun ⟨hset, hvalue, hsame⟩ => List.mem_filterMap.2 ⟨e, he, ?_⟩⟩
  · obtain ⟨e', he', hwritten⟩ := List.mem_filterMap.1 h
    split at hwritten
    · cases hwritten
    rename_i hset
    split at hwritten
    · rename_i value' hvalue
      split at hwritten
      · cases hwritten
      · rename_i hsame
        obtain ⟨hname, rfl⟩ := Prod.mk.inj (Option.some.inj hwritten)
        obtain rfl := List.inj_on_of_nodup_map hnames he' he hname
        exact ⟨Bool.eq_false_iff.2 hset, hvalue, Bool.eq_false_iff.2 hsame⟩
    · cases hwritten
  · rw [if_neg (ne_true_of_eq_false hset), hvalue]
    dsimp only
    rw [if_neg (ne_true_of_eq_false hsame)]

/-- A blank node awaits what is written of the node that it is to be a copy of. -/
theorem awaits_blank (hregular : n.IsRegular) (hdraft : n.IsDraft header env) (env' : Environment)
    (id : NodeId) (name : String) : (n.blank env' id name).Awaits n.written := by
  have hspec : (n.blank env' id name).spec = n.spec := rfl
  have hfree : ∀ d ∈ n.dynamic, n.spec.entry? d.1 = none := fun d hd =>
    Option.isNone_iff_eq_none.1 (Option.isSome_eq_false_iff.1 (hdraft.own d hd).new)
  have hstatic : ∀ f ∈ n.written, f.own = false → (f.name, f.value) ∈ Outliner.writtenFields n := by
    intro f hf hown
    rcases List.mem_append.1 hf with hf | hf
    · obtain ⟨g, hg, rfl⟩ := List.mem_map.1 hf
      exact hg
    · obtain ⟨g, -, rfl⟩ := List.mem_map.1 hf
      cases hown
  have hdynamic : ∀ f ∈ n.written, f.own = true → (f.name, f.value) ∈ n.dynamic := by
    intro f hf hown
    rcases List.mem_append.1 hf with hf | hf
    · obtain ⟨g, -, rfl⟩ := List.mem_map.1 hf
      cases hown
    · obtain ⟨g, hg, rfl⟩ := List.mem_map.1 hf
      exact hg
  refine ⟨?_, fun f hf hown => ?_, fun f hf hown => ?_⟩
  · have hnames : n.written.map (·.name) = (Outliner.writtenFields n).map (·.1) ++ n.dynamicNames := by
      rw [written, List.map_append, List.map_map, List.map_map]
      rfl
    rw [hnames, List.nodup_append]
    refine ⟨hregular.names.sublist (map_fst_writtenFields_sublist n), hdraft.ownNames, ?_⟩
    -- a field of its own is not in the layout
    rintro a ha b hb rfl
    obtain ⟨f, hf, rfl⟩ := List.mem_map.1 ha
    obtain ⟨e, he, hname, -⟩ := exists_of_mem_writtenFields hf
    obtain ⟨d, hd, hown⟩ := List.mem_map.1 hb
    exact List.find?_eq_none.1 (hfree d hd) e he (beq_iff_eq.2 (hname.trans hown.symm))
  · obtain ⟨e, he, hname, hvalue⟩ := exists_of_mem_writtenFields (hstatic f hf hown)
    dsimp only at hname hvalue
    rw [← hname] at hvalue ⊢
    refine ⟨?_, e.initial, field?_blank hregular.names he env' id name, (hregular.kind_eq he hvalue).symm,
      hregular.initial e he⟩
    obtain ⟨i, hi, rfl⟩ := List.getElem_of_mem he
    exact ⟨i, Specification.index?_getElem hregular.names hi⟩
  · have hmem := hdynamic f hf hown
    refine ⟨hregular.own (List.ne_nil_of_mem hmem), hasField_eq_false.2 ⟨?_, rfl⟩⟩
    rw [hspec, Specification.index?, List.findIdx?_eq_none_iff]
    exact fun e he => Bool.eq_false_iff.2 (List.find?_eq_none.1 (hfree _ hmem) e he)

/-- A node is a copy of another one. Fields that can be set but not read are at their first values. -/
structure CopiedAs (φ : NodeId → NodeId) (n m : Node) : Prop where
  spec : m.spec = n.spec
  behavior : m.behavior = n.behavior
  fields : ∀ e ∈ n.spec.entries, (e.access.set && !e.access.get) = false →
    ∃ f g, n.field? e.name = some f ∧ m.field? e.name = some g ∧ f.CopiedAs φ g
  hidden : ∀ e ∈ n.spec.entries, (e.access.set && !e.access.get) = true → m.field? e.name = some e.initial
  own : OwnCopied φ n.dynamic m.dynamic

/-- **A blank node becomes a copy** when copies of all that is written are filled in. -/
theorem copiedAs_fill (hregular : n.IsRegular) (hdraft : n.IsDraft header env) (env' : Environment)
    (id : NodeId) (name : String) (hcopied : List.Forall₂ (WrittenField.CopiedAs φ) n.written gs) :
    n.CopiedAs φ ((n.blank env' id name).fill gs) := by
  have hawaits := awaits_blank hregular hdraft env' id name
  obtain ⟨hdynamic, hother, hfilled⟩ := fill_spec hawaits hcopied
  obtain ⟨-, hspec, hbehavior, -⟩ := (n.blank env' id name).fill_same gs
  -- what is not written is at its first value
  have hunwritten : ∀ e ∈ n.spec.entries, (∀ value, (e.name, value) ∉ Outliner.writtenFields n) →
      ((n.blank env' id name).fill gs).field? e.name = some e.initial := by
    intro e he hnot
    refine (hother e.name fun hmem => ?_).trans (field?_blank hregular.names he env' id name)
    obtain ⟨f, hf, hname⟩ := List.mem_map.1 hmem
    rcases List.mem_append.1 hf with hf | hf
    · obtain ⟨g, hg, rfl⟩ := List.mem_map.1 hf
      exact hnot g.2 (hname ▸ hg)
    · obtain ⟨d, hd, rfl⟩ := List.mem_map.1 hf
      have hnew := (hdraft.own d hd).new
      rw [Specification.hasField, Option.isSome_eq_false_iff, Option.isNone_iff_eq_none] at hnew
      exact List.find?_eq_none.1 hnew e he (beq_iff_eq.2 hname.symm)
  refine ⟨hspec, hbehavior, fun e he hshown => ?_, fun e he hhidden => hunwritten e he fun value hvalue => ?_, ?_⟩
  · obtain ⟨i, hi, rfl⟩ := List.getElem_of_mem he
    obtain ⟨f, hf⟩ : ∃ f, n.field? n.spec.entries[i].name = some f := by
      rw [field?, Specification.index?_getElem hregular.names hi]
      exact ⟨_, List.getElem?_eq_getElem (hregular.length ▸ hi)⟩
    cases hsame : f.sameValue n.spec.entries[i].initial with
    | true =>
      refine ⟨f, _, hf, hunwritten _ he fun value hvalue => ?_, .of_sameValue ?_ hsame⟩
      · obtain ⟨-, hvalue, hdiffers⟩ := (mem_writtenFields hregular.names he).1 hvalue
        obtain rfl := Option.some.inj (hf.symm.trans hvalue)
        rw [hsame] at hdiffers
        cases hdiffers
      · exact (Field.references_of_sameValue hsame).trans (hregular.initial _ he)
    | false =>
      have hwritten := (mem_writtenFields hregular.names he).2 ⟨hshown, hf, hsame⟩
      obtain ⟨g, hg, hfg⟩ := hfilled _ (List.mem_append_left _ (List.mem_map_of_mem hwritten))
      exact ⟨f, g, hf, hg, hfg⟩
  · have hshown := ((mem_writtenFields hregular.names he).1 hvalue).1
    rw [hhidden] at hshown
    cases hshown
  · rw [hdynamic]
    exact ownOf_written n ▸ ownCopied_ownOf hcopied

namespace CopiedAs

/-- A copy refers to the images of what its original refers to. -/
theorem references (h : n.CopiedAs φ m) (hn : n.IsRegular) (hm : m.IsRegular) (hhides : ¬ n.HidesNodes) :
    m.references = n.references.map φ := by
  have hown : m.dynamic.flatMap (·.2.references) = (n.dynamic.flatMap (·.2.references)).map φ := by
    have hall := h.own
    generalize n.dynamic = ds, m.dynamic = es at hall
    induction hall with
    | nil => rfl
    | cons hde _ ih => rw [List.flatMap_cons, List.flatMap_cons, List.map_append, ih, hde.2.references]
  rw [references_eq_fields hn, references_eq_fields hm, h.spec, List.map_append, hown]
  congr 1
  rw [List.map_flatMap]
  refine List.flatMap_congr fun e he => ?_
  cases hset : (e.access.set && !e.access.get) with
  | false =>
    obtain ⟨f, g, hf, hg, hfg⟩ := h.fields e he hset
    rw [hf, hg]
    exact hfg.references
  | true =>
    -- a field that cannot be read holds no nodes, here and there
    rw [h.hidden e he hset]
    rw [Bool.and_eq_true, Bool.not_eq_true'] at hset
    have hnone : (n.field? e.name).elim [] Field.references = [] := by
      cases hf : n.field? e.name with
      | none => rfl
      | some f =>
        by_contra hne
        exact hhides ⟨e, he, hset.1, hset.2, f, hf, hne⟩
    rw [hnone]
    exact hn.initial e he

/-- A copy has copies of the fields of the node's own. -/
theorem rel_dynamicField? (h : n.CopiedAs φ m) (name : String) :
    Option.Rel (Field.CopiedAs φ) (n.dynamicField? name) (m.dynamicField? name) := by
  have hall := h.own
  unfold dynamicField?
  generalize n.dynamic = ds, m.dynamic = es at hall
  induction hall with
  | nil => exact .none
  | @cons d e ds es hde _ ih =>
    rw [List.find?_cons, List.find?_cons, hde.1]
    split
    · exact .some hde.2
    · exact ih

theorem kind_dynamicField? (h : n.CopiedAs φ m) (name : String) :
    (m.dynamicField? name).map (·.kind) = (n.dynamicField? name).map (·.kind) := by
  have hrel := h.rel_dynamicField? name
  generalize n.dynamicField? name = f, m.dynamicField? name = g at hrel
  cases hrel with
  | none => rfl
  | some hfg => exact congrArg some hfg.kind

/-- A field of a copy is a copy, or refers to nothing. -/
theorem exists_field (h : n.CopiedAs φ m) (hn : n.IsRegular) {name : String} {g : Field}
    (hg : m.field? name = some g) : g.references = [] ∨ ∃ f, n.field? name = some f ∧ f.CopiedAs φ g := by
  cases hindex : n.spec.index? name with
  | none =>
    have hrel := h.rel_dynamicField? name
    rw [field?, h.spec, hindex] at hg
    rw [field?, hindex]
    dsimp only at hg ⊢
    rw [hg] at hrel
    generalize n.dynamicField? name = f at hrel
    cases hrel with
    | some hfg => exact .inr ⟨_, rfl, hfg⟩
  | some i =>
    obtain ⟨hi, hname, -⟩ := List.findIdx?_eq_some_iff_getElem.1 hindex
    have he := List.getElem_mem hi
    have hname : n.spec.entries[i].name = name := beq_iff_eq.1 hname
    rw [← hname] at hg ⊢
    cases hset : (n.spec.entries[i].access.set && !n.spec.entries[i].access.get) with
    | false =>
      obtain ⟨f, g', hf, hg', hfg⟩ := h.fields _ he hset
      exact .inr ⟨f, hf, Option.some.inj (hg.symm.trans hg') ▸ hfg⟩
    | true =>
      rw [h.hidden _ he hset] at hg
      exact .inl (Option.some.inj hg ▸ hn.initial _ he)

/-- What a copy lists are the images of what its original lists. -/
theorem exists_of_mem_nodesIn (h : n.CopiedAs φ m) (hn : n.IsRegular) {name : String} {x : NodeId}
    (hx : x ∈ m.nodesIn name) : ∃ b ∈ n.nodesIn name, x = φ b := by
  unfold nodesIn at hx ⊢
  split at hx
  · rename_i g hg
    split at hx
    · rename_i hkind
      rcases h.exists_field hn hg with hnone | ⟨f, hf, hfg⟩
      · rw [hnone] at hx
        cases hx
      · rw [hfg.references] at hx
        obtain ⟨b, hb, rfl⟩ := List.mem_map.1 hx
        rw [hf]
        dsimp only
        rw [if_pos (hfg.kind.symm.trans hkind)]
        exact ⟨b, hb, rfl⟩
    · cases hx
  · cases hx

theorem kind? (h : n.CopiedAs φ m) (name : String) : m.kind? name = n.kind? name := by
  rw [Node.kind?, Node.kind?, h.spec, h.kind_dynamicField? name]

theorem isSome_dynamicField? (h : n.CopiedAs φ m) (name : String) :
    (m.dynamicField? name).isSome = (n.dynamicField? name).isSome := by
  have hkinds := congrArg Option.isSome (h.kind_dynamicField? name)
  rwa [Option.isSome_map, Option.isSome_map] at hkinds

theorem access? (h : n.CopiedAs φ m) (name : String) : m.access? name = n.access? name := by
  have hsome := h.isSome_dynamicField? name
  unfold Node.access?
  rw [h.spec]
  cases n.spec.entry? name with
  | some e => rfl
  | none => cases hm : m.dynamicField? name <;> cases hn : n.dynamicField? name <;> simp_all

/-- A route may lead between copies where it may lead between their originals. -/
theorem feeds {a a' b b' : Node} (ha : a.CopiedAs φ a') (hb : b.CopiedAs φ b') {output input : String}
    (h : a.Feeds output b input) : a'.Feeds output b' input where
  kinds := by
    obtain ⟨k, hk, hk'⟩ := h.kinds
    exact ⟨k, (ha.kind? output).trans hk, (hb.kind? input).trans hk'⟩
  readable := by rw [ha.access? output]; exact h.readable
  settable := by rw [hb.access? input]; exact h.settable

/-- Only the type and the fields matter. -/
theorem congr {m' : Node} (h : n.CopiedAs φ m) (hspec : m'.spec = m.spec) (hbehavior : m'.behavior = m.behavior)
    (hfields : m'.fields = m.fields) (hdynamic : m'.dynamic = m.dynamic) : n.CopiedAs φ m' where
  spec := hspec.trans h.spec
  behavior := hbehavior.trans h.behavior
  fields := by
    unfold Node.field? dynamicField?
    rw [hspec, hfields, hdynamic]
    exact h.fields
  hidden := by
    unfold Node.field? dynamicField?
    rw [hspec, hfields, hdynamic]
    exact h.hidden
  own := hdynamic ▸ h.own

end CopiedAs

end Node

end SceneGraph
