/-!
Mappings: the tables and columns that hold the properties of entity types.
-/

namespace EntityQuery

/-- Where a property is stored. -/
inductive ColumnMapping where
  /-- A column of the entity type's own table. -/
  | column (name : String)
  /-- A column with the id of an instance of the target. -/
  | manyToOne (column target : String)
  /-- Rows of the target's table that point back. -/
  | oneToMany (target mappedBy : String)
  /-- Rows of a table that links instances with instances of the target. -/
  | manyToMany (joinTable ownerColumn targetColumn target : String)
  /-- Rows of a table that holds plain values. -/
  | elements (table ownerColumn valueColumn : String)
  deriving DecidableEq

/-- The table of an entity type and where its properties are stored, the latest mapping of a name
first. -/
structure EntityMapping where
  entity : String
  table : String
  idColumn : String
  properties : List (String × ColumnMapping)
  deriving DecidableEq

namespace EntityMapping

/-- A mapping whose id column is a property of its own name. -/
def named (entity table idColumn : String) : EntityMapping :=
  ⟨entity, table, idColumn, [(idColumn, .column idColumn)]⟩

/-- Maps a property; an earlier mapping of the name is replaced. -/
def map (m : EntityMapping) (property : String) (c : ColumnMapping) : EntityMapping :=
  { m with properties := (property, c) :: m.properties }

/-- Maps the property that identifies instances to the id column. -/
def idProperty (m : EntityMapping) (name : String) : EntityMapping :=
  m.map name (.column m.idColumn)

/-- Where a property is stored. -/
def property? (m : EntityMapping) (name : String) : Option ColumnMapping :=
  m.properties.lookup name

end EntityMapping

/-- The mappings of entity types, the latest one of a name first. -/
structure Mappings where
  entities : List EntityMapping

namespace Mappings

/-- No mappings. -/
def empty : Mappings :=
  ⟨[]⟩

/-- Adds the mapping of an entity type; an earlier one is replaced. -/
def add (ms : Mappings) (m : EntityMapping) : Mappings :=
  ⟨m :: ms.entities⟩

/-- The mapping of an entity type. -/
def entity? (ms : Mappings) (name : String) : Option EntityMapping :=
  ms.entities.find? fun m => m.entity == name

end Mappings

end EntityQuery
