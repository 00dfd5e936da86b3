import EntityQuery.Json.Read
import EntityQuery.Registry

/-!
The declarations of a dataset, read from a document: entity types with their properties, and the
records of each entity type, still as documents.

A declaration is an object with members of fixed names, each at most once; members of other names
are passed over. An array that gives the same values in order is a declaration too.
-/

namespace EntityQuery

/-- A declared entity type with its records. The members of a record stand by name. -/
structure EntityDecl where
  name : String
  /-- The name of the property that identifies records. -/
  idProperty : String
  properties : List PropertyDef
  records : List (List (String × Json))

namespace Json

/-- The content of a string. -/
def string? : Json → Option String
  | string s => some s
  | _ => none

/-- The contents of an array of strings. -/
def strings? : Json → Option (List String)
  | array items => items.mapM string?
  | _ => none

/-- A truth value. -/
def bool? : Json → Option Bool
  | bool b => some b
  | _ => none

/-- The member of a name: there may be none, but not several. -/
def member? (members : List (String × Json)) (name : String) : Option (Option Json) :=
  match members.filter fun m => m.1 == name with
  | [] => some none
  | [(_, j)] => some (some j)
  | _ => none

/-- The values of the fields of a declaration. -/
def fields? (names : List String) : Json → Option (List (Option Json))
  | object members => names.mapM (member? members)
  | array items =>
    if items.length ≤ names.length then
      some (items.map some ++ List.replicate (names.length - items.length) none)
    else none
  | _ => none

end Json

namespace PropertyType

/-- The type that is declared by its name alone. -/
def ofName? (name : String) : Option PropertyType :=
  [("text", text), ("int", int), ("float", float), ("bool", bool), ("date", date),
    ("dateTime", dateTime)].lookup name

/-- The declared type of a document: a name, or an object whose only member says what it is. Its
containers may lie within each other up to the given number of levels; an enumeration takes up
three. -/
def ofJson? : Nat → Json → Option PropertyType
  | _, .string name => ofName? name
  | levels + 1, .object [(name, j)] =>
    match name with
    | "list" => (ofJson? levels j).map collection
    | "ref" => j.string?.map entity
    | "enum" =>
      match j.fields? ["name", "constants"] with
      | some [some name, some constants] => do
        guard (2 ≤ levels)
        return enum (← name.string?) (← constants.strings?)
      | _ => none
    | name =>
      match j with
      | .null => ofName? name
      | _ => none
  | _, _ => none

/-- A type as messages about records show its declaration. -/
def declaration : PropertyType → String
  | enum name constants =>
    "Enum \x7b name: " ++ Text.shown name ++ ", constants: " ++ Text.shownList constants ++ " \x7d"
  | entity name => "Ref(" ++ Text.shown name ++ ")"
  | collection e => "List(" ++ declaration e ++ ")"
  | t => t.shown

end PropertyType

/-- The declared translator of a document. -/
def Translator.ofJson? : Json → Option Translator
  | .string "ignoreCase" => some ignoreCase
  | .object [("ignoreCase", .null)] => some ignoreCase
  | .object [("expand", names)] => names.strings?.map expand
  | _ => none

/-- How many levels of containers there may be in the value of a record or in the declared type of a
property. There may be 127 in all; a record and a property are the fifth. -/
def partLevels : Nat :=
  127 - 5

/-- The declared property of a document. It may be absent from records unless it is required. -/
def PropertyDef.ofJson? (j : Json) : Option PropertyDef :=
  match j.fields? ["name", "type", "required", "translator"] with
  | some [some name, some type, required, translator] => do
    let name ← name.string?
    let type ← PropertyType.ofJson? partLevels type
    let required ← match required with
      | none => some false
      | some j => j.bool?
    let translator ← match translator with
      | none | some .null => some none
      | some j => (Translator.ofJson? j).map some
    return ⟨name, type, !required, translator⟩
  | _ => none

namespace EntityDecl

/-- The record of a document: all of its parts have to be legible. -/
def record? : Json → Option (List (String × Json))
  | .object members =>
    if Json.membersLegible partLevels members then some (Json.byName members) else none
  | _ => none

/-- The declared entity type of a document. -/
def ofJson? (j : Json) : Option EntityDecl :=
  match j.fields? ["name", "id", "properties", "records"] with
  | some [some name, some id, some (.array properties), records] => do
    let name ← name.string?
    let id ← id.string?
    let properties ← properties.mapM PropertyDef.ofJson?
    let records ← match records with
      | none => some []
      | some (.array records) => records.mapM record?
      | some _ => none
    return ⟨name, id, properties, records⟩
  | _ => none

/-- The declared entity types of a dataset's document. -/
def allOfJson? (j : Json) : Option (List EntityDecl) :=
  match j.fields? ["entities"] with
  | some [some (.array entities)] => entities.mapM ofJson?
  | _ => none

end EntityDecl

end EntityQuery
