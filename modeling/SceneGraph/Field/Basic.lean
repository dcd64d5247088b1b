import SceneGraph.Field.Value
import SceneGraph.Timestamp

/-!
# Fields

A field is a value, or a list of values, of a fixed kind together with the time it was set. Its
kind decides the type of its content, so a field never holds a value of another kind: `Field.assign`
takes over content and time of a field of the same kind and refuses every other.
-/

namespace SceneGraph

/-- What a field of a kind holds. -/
@[reducible] def Kind.Content : Kind → Type
  | ⟨t, .single⟩ => t.Carrier
  | ⟨t, .multi⟩ => List t.Carrier

/-- A value or list of values with the time it was set. -/
structure Field where
  kind : Kind
  content : kind.Content
  timestamp : Timestamp

namespace Field

/-- The field holding one value. -/
def single (t : FieldType) (value : t.Carrier) (timestamp : Timestamp := .unset) : Field :=
  ⟨⟨t, .single⟩, value, timestamp⟩

/-- The field holding a list of values. -/
def multi (t : FieldType) (values : List t.Carrier) (timestamp : Timestamp := .unset) : Field :=
  ⟨⟨t, .multi⟩, values, timestamp⟩

/-- The field of a kind that was never set. -/
def initial : Kind → Field
  | ⟨t, .single⟩ => single t t.initial
  | ⟨t, .multi⟩ => multi t []

/-- The field holding references to nodes. -/
def nodes (ids : List NodeId) (timestamp : Timestamp := .unset) : Field :=
  multi .node (ids.map some) timestamp

/-- The value of a single-valued field of type `t`. -/
def single? (t : FieldType) : Field → Option t.Carrier
  | ⟨⟨s, .single⟩, value, _⟩ => if h : s = t then some (h ▸ value) else none
  | ⟨⟨_, .multi⟩, _, _⟩ => none

/-- The values of a list field of type `t`. -/
def multi? (t : FieldType) : Field → Option (List t.Carrier)
  | ⟨⟨_, .single⟩, _, _⟩ => none
  | ⟨⟨s, .multi⟩, values, _⟩ => if h : s = t then some (h ▸ values) else none

/-- The content of a field that is expected to be of kind `k`; otherwise a message that names the
field's own kind. -/
def contentAs (k : Kind) (f : Field) : Except String k.Content :=
  if h : f.kind = k then .ok (h ▸ f.content) else .error s!"invalid field cast from {f.kind.label}"

/-- The values of a field as a list, a single value being a list of one. -/
def values : (f : Field) → List f.kind.type.Carrier
  | ⟨⟨_, .single⟩, value, _⟩ => [value]
  | ⟨⟨_, .multi⟩, values, _⟩ => values

/-- The nodes that a field refers to, in order. -/
def references (f : Field) : List NodeId := f.values.filterMap f.kind.type.nodeOf?

/-- The field with another time. -/
def stamped (f : Field) (timestamp : Timestamp) : Field := { f with timestamp }

/-- What a field holds after another one is assigned to it: all of the other, if the kinds agree. -/
def assign (f other : Field) : Option Field := if f.kind = other.kind then some other else none

/-- Equality of lists of values. -/
def sameValues (t : FieldType) : List t.Carrier → List t.Carrier → Bool
  | [], [] => true
  | a :: as, b :: bs => t.sameValue a b && sameValues t as bs
  | _, _ => false

/-- Equality of kind and content; the times do not matter. -/
def sameValue : Field → Field → Bool
  | ⟨⟨s, .single⟩, a, _⟩, ⟨⟨t, .single⟩, b, _⟩ => if h : s = t then t.sameValue (h ▸ a) b else false
  | ⟨⟨s, .multi⟩, a, _⟩, ⟨⟨t, .multi⟩, b, _⟩ => if h : s = t then sameValues t (h ▸ a) b else false
  | _, _ => false

/-- The content in JSON; `describe` tells how a node looks there. -/
def json (describe : NodeId → Json) : Field → Json
  | ⟨⟨t, .single⟩, value, _⟩ => t.json describe value
  | ⟨⟨t, .multi⟩, values, _⟩ => .array (values.map (t.json describe))

theorem assign_eq_some_iff {f g h : Field} : f.assign g = some h ↔ f.kind = g.kind ∧ g = h := by
  unfold assign
  split <;> simp_all

theorem single?_single (t : FieldType) (v : t.Carrier) (ts : Timestamp) :
    (single t v ts).single? t = some v := by
  simp [single, single?]

theorem multi?_multi (t : FieldType) (vs : List t.Carrier) (ts : Timestamp) :
    (multi t vs ts).multi? t = some vs := by
  simp [multi, multi?]

theorem kind_initial (k : Kind) : (initial k).kind = k := by
  obtain ⟨t, d⟩ := k
  cases d <;> rfl

/-- A field of a type without nodes refers to none. -/
theorem references_eq_nil {f : Field} (h : f.kind.type ≠ .node) : f.references = [] :=
  List.filterMap_eq_nil_iff.2 fun v _ => FieldType.nodeOf?_eq_none h v

theorem references_initial (k : Kind) : (initial k).references = [] := by
  obtain ⟨t, d⟩ := k
  cases t <;> cases d <;> rfl

@[simp] theorem references_nodes (ids : List NodeId) (ts : Timestamp) :
    (nodes ids ts).references = ids := by
  induction ids with
  | nil => rfl
  | cons a rest ih => exact congrArg (a :: ·) ih

end Field

end SceneGraph
