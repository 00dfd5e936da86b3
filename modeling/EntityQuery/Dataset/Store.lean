import EntityQuery.Instance

/-!
Stored records, as instances whose associations lead to other records of the same store.
-/

namespace EntityQuery

/-- The values of a record, by property. -/
abbrev Row := List (String × Value)

/-- The value of a property; null if the record has no such property. -/
def Row.get (row : Row) (property : String) : Value :=
  (row.lookup property).getD .null

/-- The records of an entity type. -/
structure Table where
  entity : String
  /-- The property that identifies records. -/
  idProperty : String
  rows : List Row

namespace Table

/-- What records are told apart by: the literal of their id. -/
def key (id : Value) : String :=
  id.identity.literal

/-- The position of the record with an id. -/
def find? (t : Table) (id : Value) : Option Nat :=
  t.rows.findIdx? fun row => key (row.get t.idProperty) == key id

end Table

/-- The records of all entity types. -/
structure Store where
  tables : List Table

/-- The table of an entity type. -/
def Store.table? (s : Store) (entity : String) : Option Table :=
  s.tables.find? fun t => t.entity == entity

/-- A record: its place in a store. -/
structure Record where
  store : Store
  entity : String
  index : Nat

namespace Store

/-- The records of an entity type, in the order of the dataset. -/
def records (s : Store) (entity : String) : List Record :=
  match s.table? entity with
  | none => []
  | some t => (List.range t.rows.length).map fun index => ⟨s, entity, index⟩

/-- The record that a reference leads to; none if there is no such record. -/
def target? (s : Store) : Value → Option Record
  | .ref entity id =>
    ((s.table? entity).bind fun t => t.find? id).map fun index => ⟨s, entity, index⟩
  | _ => none

end Store

namespace Record

/-- The values of a record. -/
def row (r : Record) : Row :=
  ((r.store.table? r.entity).bind fun t => t.rows[r.index]?).getD []

/-- The value of a property. -/
def valueOf (r : Record) (property : String) : Value :=
  r.row.get property

/-- The references of an association, of one element or several. -/
def references : Value → List Value
  | .list items => items
  | .null => []
  | single => [single]

/-- The records that an association leads to; references to records that are missing are passed
over. -/
def related (r : Record) (property : String) : List Record :=
  (references (r.valueOf property)).filterMap r.store.target?

/-- The record as diagnostics show it: its entity type and its position. -/
def shown (r : Record) : String :=
  r.entity ++ "#" ++ Text.integerText r.index

/-- The values of a record, sorted by property. -/
def values (r : Record) : List (String × Value) :=
  r.row.mergeSort fun a b => compare a.1 b.1 != .gt

end Record

instance : Instance Record := ⟨Record.valueOf, Record.related⟩

end EntityQuery
