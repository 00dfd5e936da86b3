import EntityQuery.Dataset.Declaration
import EntityQuery.Dataset.Store
import EntityQuery.Registry.Builder

/-!
Loading datasets: the declarations make a registry, and the records, converted to the declared
types, make a store.
-/

namespace EntityQuery

/-- What is wrong with a record. -/
inductive RecordFault where
  /-- A value that does not fit the type declared for it. -/
  | mismatch (property : String) (declared : PropertyType) (found : Json)
  | undeclared (property : String)
  | missingId
  | duplicateId (id : Value)

/-- The wording of a record fault. -/
def RecordFault.message : RecordFault → String
  | mismatch property declared found =>
    property ++ ": expected " ++ declared.declaration ++ ", found " ++ found.text
  | undeclared property => "undeclared property '" ++ property ++ "'"
  | missingId => "missing id"
  | duplicateId id => "duplicate id " ++ id.literal

/-- Why a dataset cannot be loaded. -/
inductive DatasetError where
  /-- A text that is no document, or a document that declares no dataset. -/
  | document
  | registry (e : RegistryError)
  | record (entity : String) (index : Nat) (fault : RecordFault)

/-- The wording of a load error. -/
def DatasetError.message : DatasetError → String
  | document => "Invalid dataset: not a dataset document"
  | registry e => "Invalid dataset: " ++ e.message
  | record entity index fault =>
    "Invalid record " ++ entity ++ "#" ++ Text.integerText index ++ ": " ++ fault.message

/-- A loaded dataset. -/
structure Dataset where
  registry : Registry
  store : Store

namespace EntityDecl

/-- The entity type as it enters a registry: the property that identifies records is always present
and has no translator. -/
def draft (d : EntityDecl) : EntityDraft :=
  d.properties.foldl (fun draft p =>
    if p.name = d.idProperty then draft.withId p.name p.type else draft.withProperty p)
    (.named d.name)

/-- The registry of declared entity types. -/
def registry (decls : List EntityDecl) : Except RegistryError Registry :=
  go .empty decls
where
  /-- Adds the entity types that remain. -/
  go (b : RegistryBuilder) : List EntityDecl → Except RegistryError Registry
    | [] => b.build
    | d :: ds =>
      match b.add d.draft with
      | .error e => .error e
      | .ok b => go b ds

end EntityDecl

/-- Converts items one after the other, until one fails. -/
def convertAll {α β ε : Type} (convert : α → Except ε β) : List α → Except ε (List β)
  | [] => .ok []
  | a :: as =>
    match convert a with
    | .error e => .error e
    | .ok b => (convertAll convert as).map (b :: ·)

namespace Value

/-- A value of a type that is no collection, from a document that is not null. -/
def scalarOfJson? : PropertyType → Json → Option Value
  | .text, .string s => some (.text s)
  | .int, .number n => n.int?.map .int
  | .float, .number n => some (.float n.toDouble)
  | .bool, .bool b => some (.bool b)
  | .date, .string s => (Date.ofText? s).map .date
  | .dateTime, .string s => (DateTime.ofText? s).map .dateTime
  | .enum _ constants, .string s => if constants.contains s then some (.enum s) else none
  | .entity target, .string s => some (.ref target (.text s))
  | .entity target, .number n => n.int?.map fun i => .ref target (.int i)
  | _, _ => none

/-- The value of a declared type that a document stands for. A collection is never null. The error
is the type and the document that do not fit, which may be those of an element. -/
def ofJson : PropertyType → Json → Except (PropertyType × Json) Value
  | .collection _, .null => .ok (.list [])
  | .collection e, .array items => (convertAll (ofJson e) items).map .list
  | _, .null => .ok .null
  | t, j =>
    match scalarOfJson? t j with
    | some v => .ok v
    | none => .error (t, j)

end Value

namespace EntityDecl

/-- The value of a declared property in a record. -/
def propertyValue (record : List (String × Json)) (p : PropertyDef) :
    Except RecordFault (String × Value) :=
  match Value.ofJson p.type ((record.lookup p.name).getD .null) with
  | .ok v => .ok (p.name, v)
  | .error (declared, found) => .error (.mismatch p.name declared found)

/-- The values of a record, which may have declared properties only. -/
def row (d : EntityDecl) (record : List (String × Json)) : Except RecordFault Row :=
  match convertAll (propertyValue record) d.properties with
  | .error fault => .error fault
  | .ok row =>
    match record.find? fun m => (row.lookup m.1).isNone with
    | some (name, _) => .error (.undeclared name)
    | none => .ok row

/-- Adds a record to a table. Its id has to be present and new. -/
def addRow (d : EntityDecl) (t : Table) (record : List (String × Json)) :
    Except RecordFault Table :=
  match d.row record with
  | .error fault => .error fault
  | .ok row =>
    let id := row.get t.idProperty
    if id.isNull then .error .missingId
    else if (t.find? id).isSome then .error (.duplicateId id)
    else .ok { t with rows := t.rows ++ [row] }

/-- Adds the records that remain to a table. -/
def addRows (d : EntityDecl) (t : Table) :
    List (List (String × Json)) → Except DatasetError Table
  | [] => .ok t
  | record :: rest =>
    match d.addRow t record with
    | .error fault => .error (.record d.name t.rows.length fault)
    | .ok t => d.addRows t rest

/-- The table of an entity type. -/
def table (d : EntityDecl) : Except DatasetError Table :=
  d.addRows ⟨d.name, d.idProperty, []⟩ d.records

end EntityDecl

namespace Dataset

/-- Loads declared entity types with their records. -/
def load (decls : List EntityDecl) : Except DatasetError Dataset :=
  match EntityDecl.registry decls with
  | .error e => .error (.registry e)
  | .ok registry => (convertAll EntityDecl.table decls).map fun tables => ⟨registry, ⟨tables⟩⟩

/-- Loads the text of a dataset. -/
def ofText (text : String) : Except DatasetError Dataset :=
  match (Json.ofText? text).bind EntityDecl.allOfJson? with
  | none => .error .document
  | some decls => load decls

/-- The records of an entity type, in the order of the dataset. -/
def records (d : Dataset) (entity : String) : List Record :=
  d.store.records entity

end Dataset

end EntityQuery
