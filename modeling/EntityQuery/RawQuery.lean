import EntityQuery.Operator
import EntityQuery.Query
import EntityQuery.Value

/-!
Queries as they are written: property paths are text, and operands have the shape they had in the
query. Types come in when a query is prepared.
-/

namespace EntityQuery

/-- The functions that may stand for a value. -/
inductive Function where
  | today
  | now
  | currentUser
  deriving DecidableEq, Inhabited

namespace Function

/-- Every function. -/
def all : List Function :=
  [today, now, currentUser]

/-- The name of a function. -/
def name : Function → String
  | today => "today"
  | now => "now"
  | currentUser => "currentUser"

/-- The call of a function. -/
def call (f : Function) : String :=
  f.name ++ "()"

end Function

/-- Equality of texts up to the case of ASCII letters. -/
def sameWord (a b : String) : Bool :=
  a.toList.map Char.toLower == b.toList.map Char.toLower

/-- The function of a name, in whatever case. -/
def Function.ofName? (name : String) : Option Function :=
  all.find? fun f => sameWord f.name name

/-- An operand without a type. -/
inductive Operand where
  | null
  | string (s : String)
  | integer (i : Int64)
  | decimal (d : Double)
  /-- A bare word: a constant, a truth value or an id. -/
  | word (s : String)
  | function (f : Function)
  | list (items : List Operand)
  /-- A value that has its type already. -/
  | value (v : Value)
  deriving Inhabited

namespace Operand

mutual

/-- Structural equality; decimals compare numerically. -/
def beq : Operand → Operand → Bool
  | null, null => true
  | string a, string b => a == b
  | integer a, integer b => a == b
  | decimal a, decimal b => a == b
  | word a, word b => a == b
  | function f, function g => f == g
  | list as, list bs => beqAll as bs
  | value a, value b => a == b
  | _, _ => false

/-- Structural equality operand by operand. -/
def beqAll : List Operand → List Operand → Bool
  | [], [] => true
  | a :: as, b :: bs => beq a b && beqAll as bs
  | _, _ => false

end

instance : BEq Operand := ⟨beq⟩

mutual

/-- The operand as it is written. -/
def text : Operand → String
  | null => "NULL"
  | string s => Text.quote s
  | integer i => Text.integerText i.toInt
  | decimal d => d.literalText
  | word s => s
  | function f => f.call
  | list items => Text.bracketed "(" ")" (texts items)
  | value v => v.literal

/-- The texts of a list of operands. -/
def texts : List Operand → List String
  | [] => []
  | o :: os => text o :: texts os

end

end Operand

/-- A condition as it is written. -/
structure RawCondition where
  property : String
  operator : Operator
  /-- None for the operators that take no operand. -/
  operand? : Option Operand

/-- A query as it is written. -/
abbrev RawQuery := Query RawCondition String

namespace RawCondition

/-- Equality by property, operator and structural equality of operands. -/
def beq (a b : RawCondition) : Bool :=
  a.property == b.property && a.operator == b.operator && a.operand? == b.operand?

instance : BEq RawCondition := ⟨beq⟩

/-- The text of a condition. -/
def text (c : RawCondition) : String :=
  c.property ++ " " ++ c.operator.token
    ++ (match c.operand? with
      | some o => " " ++ o.text
      | none => "")

end RawCondition

/-- The text of a query. -/
def RawQuery.text (q : RawQuery) : String :=
  Query.text RawCondition.text id q

end EntityQuery
