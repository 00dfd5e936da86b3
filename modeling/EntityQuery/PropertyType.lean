import EntityQuery.Text.Quoted

/-!
Declared types of properties, and the kinds of property that operators distinguish.
-/

namespace EntityQuery

/-- The declared type of a property. -/
inductive PropertyType where
  | text
  | int
  | float
  | bool
  | date
  | dateTime
  /-- An enumeration with a fixed list of constants. -/
  | enum (name : String) (constants : List String)
  /-- A single-valued association. -/
  | entity (name : String)
  /-- A multi-valued property. -/
  | collection (element : PropertyType)
  deriving DecidableEq, Inhabited

/-- A class of property types that take the same operators. -/
inductive PropertyKind where
  | text
  | number
  | temporal
  | boolean
  | enum
  | reference
  | collection
  deriving DecidableEq, Inhabited

namespace PropertyKind

/-- Every kind. -/
def all : List PropertyKind :=
  [text, number, temporal, boolean, enum, reference, collection]

/-- The name of a kind. -/
def name : PropertyKind → String
  | text => "Text"
  | number => "Number"
  | temporal => "Temporal"
  | boolean => "Boolean"
  | enum => "Enum"
  | reference => "Reference"
  | collection => "Collection"

/-- The name of a kind inside a sentence. -/
def lowerName : PropertyKind → String
  | text => "text"
  | number => "number"
  | temporal => "temporal"
  | boolean => "boolean"
  | enum => "enum"
  | reference => "reference"
  | collection => "collection"

end PropertyKind

namespace PropertyType

/-- The kind of a type. -/
def kind : PropertyType → PropertyKind
  | text => .text
  | int | float => .number
  | date | dateTime => .temporal
  | bool => .boolean
  | enum _ _ => .enum
  | entity _ => .reference
  | collection _ => .collection

/-- Whether the type is that of a multi-valued property. -/
def isCollection : PropertyType → Bool
  | collection _ => true
  | _ => false

/-- The type of a collection's elements; any other type itself. -/
def element : PropertyType → PropertyType
  | collection e => e
  | t => t

/-- The entity type that an association leads to. -/
def target? (t : PropertyType) : Option String :=
  match t.element with
  | entity name => some name
  | _ => none

/-- The type as messages show it. -/
def shown : PropertyType → String
  | text => "Text"
  | int => "Int"
  | float => "Float"
  | bool => "Bool"
  | date => "Date"
  | dateTime => "DateTime"
  | enum name _ => name
  | entity name => name
  | collection e => "[" ++ shown e ++ "]"

/-- The type as a list of properties shows it: constants are spelled out. -/
def described : PropertyType → String
  | enum name constants => name ++ " " ++ Text.shownList constants
  | collection e => "list of " ++ described e
  | t => shown t

end PropertyType

end EntityQuery
