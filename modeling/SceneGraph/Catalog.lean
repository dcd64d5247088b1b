import SceneGraph.World.Grouping

/-!
# Types of nodes

A `NodeType` is what is needed to make nodes of a type: its name, its fields and its behaviour. A
`Catalog` lists types, and a name means the first type of that name; `Catalog.standard` holds the
built-in ones.
-/

namespace SceneGraph

/-- A type of nodes. -/
structure NodeType where
  name : String
  fields : List FieldSpec
  behavior : Behavior

/-- The types that nodes can be made of. -/
abbrev Catalog := List NodeType

namespace Catalog

/-- The built-in types. -/
def standard : Catalog :=
  [{ name := "Group", fields := groupingFields, behavior := .grouping },
    { name := "Transform"
      fields := groupingFields ++
        [⟨"translation", .getSet, .single .vector3 .zero⟩,
          ⟨"rotation", .getSet, .single .rotation .identity⟩,
          ⟨"scale", .getSet, .single .vector3 (.splat 1)⟩,
          ⟨"center", .getSet, .single .vector3 .zero⟩]
      behavior := .grouping },
    { name := "Shape"
      fields := [⟨"appearance", .getSet, .initial ⟨.node, .single⟩⟩,
        ⟨"geometry", .getSet, .initial ⟨.node, .single⟩⟩]
      behavior := .plain },
    { name := "Appearance"
      fields := [⟨"material", .getSet, .initial ⟨.node, .single⟩⟩]
      behavior := .plain },
    { name := "Material"
      fields := [⟨"diffuseColor", .getSet, .single .color (⟨0.8, 0.8, 0.8⟩ : Color)⟩,
        ⟨"emissiveColor", .getSet, .single .color Color.black⟩,
        ⟨"specularColor", .getSet, .single .color Color.black⟩,
        ⟨"ambientIntensity", .getSet, .single .float (0.2 : Float32)⟩,
        ⟨"shininess", .getSet, .single .float (0.2 : Float32)⟩,
        ⟨"transparency", .getSet, .single .float (0 : Float32)⟩]
      behavior := .plain },
    { name := "Box"
      fields := [⟨"size", .none, .single .vector3 (.splat 2)⟩]
      behavior := .plain },
    { name := "WorldInfo"
      fields := [⟨"title", .none, .single .string ""⟩, ⟨"info", .none, .multi .string []⟩]
      behavior := .plain },
    { name := "BooleanFilter"
      fields := [⟨"set_boolean", .setExplicit, .single .boolean false⟩,
        ⟨"inputTrue", .getOnly, .single .boolean false⟩,
        ⟨"inputFalse", .getOnly, .single .boolean false⟩,
        ⟨"inputNegate", .getOnly, .single .boolean false⟩]
      behavior := .filter },
    { name := "Script"
      fields := [⟨"url", .getSet, .multi .string []⟩]
      behavior := .dynamic },
    { name := "TimeSensor"
      fields := [⟨"enabled", .getSet, .single .boolean true⟩,
        ⟨"loop", .getSet, .single .boolean false⟩,
        ⟨"cycleInterval", .getSet, .single .time (1 : Float)⟩,
        ⟨"startTime", .getSet, .single .time (0 : Float)⟩,
        ⟨"stopTime", .getSet, .single .time (0 : Float)⟩,
        ⟨"isActive", .getOnly, .single .boolean false⟩,
        ⟨"fraction_changed", .getOnly, .single .float (0 : Float32)⟩,
        ⟨"time", .getOnly, .single .time (0 : Float)⟩]
      behavior := .timer },
    { name := "TouchSensor"
      fields := [⟨"enabled", .getSet, .single .boolean true⟩,
        ⟨"isActive", .getOnly, .single .boolean false⟩,
        ⟨"touchTime", .getOnly, .single .time (0 : Float)⟩]
      behavior := .touch }]

def typeNames (c : Catalog) : List String := c.map (·.name)

/-- The type that a name means. -/
def type? (c : Catalog) (name : String) : Option NodeType := c.find? (·.name == name)

end Catalog

namespace World

/-- Makes a node of a type that a catalog knows, and takes a handle of it. -/
def createOfType (w : World) (catalog : Catalog) (typeName : String) (environment : Environment) :
    Except LayoutError (Option NodeId × World) :=
  match catalog.type? typeName with
  | none => .ok (none, w)
  | some t =>
    match w.specification t.name t.fields with
    | .error e => .error e
    | .ok (spec, w) =>
      let (id, w) := w.create spec t.behavior environment
      .ok (some id, w)

end World

end SceneGraph
