import EntityQuery.Path

/-!
Entity types, their properties, and the registry that holds them.
-/

namespace EntityQuery

/-- What conditions on a property are turned into. -/
inductive Translator where
  /-- Comparisons of text disregard case. -/
  | ignoreCase
  /-- The property stands for the properties at these paths. -/
  | expand (names : List String)
  deriving DecidableEq

/-- A declared property. -/
structure PropertyDef where
  name : String
  type : PropertyType
  nullable : Bool
  translator? : Option Translator
  deriving DecidableEq

/-- A declared entity type. -/
structure EntityDef where
  name : String
  /-- The name of the property that identifies instances. -/
  idProperty : String
  properties : List PropertyDef
  deriving DecidableEq

namespace EntityDef

/-- The property of a name. -/
def property? (e : EntityDef) (name : String) : Option PropertyDef :=
  e.properties.find? fun p => p.name == name

/-- The property that identifies instances. -/
def id? (e : EntityDef) : Option PropertyDef :=
  e.property? e.idProperty

end EntityDef

/-- The entity types that queries can be about, in the order of their declaration. -/
structure Registry where
  entities : List EntityDef
  deriving DecidableEq

namespace Registry

/-- The registry without entity types. -/
def empty : Registry :=
  ⟨[]⟩

/-- The entity type of a name. -/
def entity? (r : Registry) (name : String) : Option EntityDef :=
  r.entities.find? fun e => e.name == name

/-- The entity types, sorted by name. -/
def byName (r : Registry) : List EntityDef :=
  r.entities.mergeSort fun a b => compare a.name b.name != .gt

/-- The type of the ids of an entity type. -/
def idType? (r : Registry) (entity : String) : Option PropertyType :=
  ((r.entity? entity).bind EntityDef.id?).map PropertyDef.type

end Registry

end EntityQuery
