import EntityQuery.Number.Written
import EntityQuery.Text.Quoted
import EntityQuery.Time.Written

/-!
Values: what properties hold and what conditions compare with.

There are three comparisons. `beq` is structural, `sameAs` is equality as a query sees it (numbers
by their value, references by the id they carry, null equal to nothing) and `compare?` is the order
within a family of values. `text` writes a value as a literal of the query language.
-/

namespace EntityQuery

/-- A typed value. -/
inductive Value where
  | null
  | bool (b : Bool)
  | int (i : Int64)
  | float (f : Double)
  | text (s : String)
  | date (d : Date)
  | dateTime (t : DateTime)
  /-- A constant of an enumeration, by its name. -/
  | enum (name : String)
  /-- A reference to an instance of an entity type, by the instance's id. -/
  | ref (entity : String) (id : Value)
  | list (items : List Value)
  deriving Inhabited

namespace Value

/-- Whether the value is null. -/
def isNull : Value → Bool
  | null => true
  | _ => false

/-- The content of a text. -/
def text? : Value → Option String
  | text s => some s
  | _ => none

/-- The number of an integer. -/
def int? : Value → Option Int64
  | int i => some i
  | _ => none

/-- The items of a list. -/
def list? : Value → Option (List Value)
  | list items => some items
  | _ => none

/-- What a value is compared and stored by: a reference stands for its id. -/
def identity : Value → Value
  | ref _ id => id.identity
  | v => v

/-- The name of the value's variant. -/
def typeName : Value → String
  | null => "Null"
  | bool _ => "Bool"
  | int _ => "Int"
  | float _ => "Float"
  | text _ => "Text"
  | date _ => "Date"
  | dateTime _ => "DateTime"
  | enum _ => "Enum"
  | ref _ _ => "Ref"
  | list _ => "List"

mutual

/-- Structural equality; floating point numbers compare numerically. -/
def beq : Value → Value → Bool
  | null, null => true
  | bool a, bool b => a == b
  | int a, int b => a == b
  | float a, float b => a == b
  | text a, text b => a == b
  | date a, date b => a == b
  | dateTime a, dateTime b => a == b
  | enum a, enum b => a == b
  | ref e a, ref f b => e == f && beq a b
  | list as, list bs => beqAll as bs
  | _, _ => false

/-- Structural equality item by item. -/
def beqAll : List Value → List Value → Bool
  | [], [] => true
  | a :: as, b :: bs => beq a b && beqAll as bs
  | _, _ => false

end

instance : BEq Value := ⟨beq⟩

/-- Equality as a query sees it: numbers compare numerically and references by their ids; null
equals nothing. -/
def sameAs (a b : Value) : Bool :=
  match a.identity, b.identity with
  | null, _ | _, null => false
  | int i, float f | float f, int i => Double.ofInt i.toInt == f
  | a, b => a == b

/-- The order of two values of one family; values of different families do not compare. -/
def compare? (a b : Value) : Option Ordering :=
  match a.identity, b.identity with
  | int a, int b => some (compare a b)
  | float a, float b => a.compare? b
  | int a, float b => (Double.ofInt a.toInt).compare? b
  | float a, int b => a.compare? (Double.ofInt b.toInt)
  | text a, text b => some (compare a b)
  | bool a, bool b => some (compare a b)
  | date a, date b => some (a.compare b)
  | dateTime a, dateTime b => some (a.compare b)
  | enum a, enum b => some (compare a b)
  | _, _ => none

/-- The order for sorting: null comes first, and values that do not compare count as equal. -/
def sortOrder (a b : Value) : Ordering :=
  match a.identity, b.identity with
  | null, null => .eq
  | null, _ => .lt
  | _, null => .gt
  | a, b => (a.compare? b).getD .eq

mutual

/-- The value as a literal of the query language; a reference is written as its id. -/
def literal : Value → String
  | null => "NULL"
  | bool b => if b then "true" else "false"
  | int i => Text.integerText i.toInt
  | float f => f.plainText
  | text s => Text.quote s
  | date d => Text.quote d.text
  | dateTime t => Text.quote t.text
  | enum name => name
  | ref _ id => literal id
  | list items => Text.bracketed "(" ")" (literals items)

/-- The literals of a list of values. -/
def literals : List Value → List String
  | [] => []
  | v :: vs => literal v :: literals vs

end

end Value

end EntityQuery
