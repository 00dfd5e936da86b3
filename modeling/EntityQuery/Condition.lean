import EntityQuery.Operator
import EntityQuery.Path
import EntityQuery.Query
import EntityQuery.Value

/-!
Prepared conditions: a resolved path, an operator and operands of the types that fit.
-/

namespace EntityQuery

/-- A condition on a resolved path. -/
structure Condition where
  property : PropertyPath
  operator : Operator
  /-- Nothing for a unary operator, the elements of a list of values, otherwise a single value. -/
  operands : List Value

/-- A query on resolved paths. -/
abbrev PreparedQuery := Query Condition PropertyPath

namespace Condition

/-- The condition with another operator and other operands. -/
def replace (c : Condition) (operator : Operator) (operands : List Value) : Condition :=
  ⟨c.property, operator, operands⟩

/-- The text of the first operand, if it is text. -/
def text? (c : Condition) : Option String :=
  c.operands.head?.bind Value.text?

/-- Equality by path, operator and structural equality of operands. -/
def beq (a b : Condition) : Bool :=
  a.property == b.property && a.operator == b.operator && Value.beqAll a.operands b.operands

instance : BEq Condition := ⟨beq⟩

/-- The operands as they are written: a list, unless a single value stands alone. -/
def operandText (c : Condition) : String :=
  match c.operator.takesList, c.operands with
  | false, [v] => v.literal
  | _, vs => (Value.list vs).literal

/-- The text of a condition. -/
def text (c : Condition) : String :=
  c.property.text ++ " " ++ c.operator.token
    ++ (if c.operator.isUnary then "" else " " ++ c.operandText)

end Condition

/-- The text of a prepared query. -/
def PreparedQuery.text (q : PreparedQuery) : String :=
  Query.text Condition.text PropertyPath.text q

end EntityQuery
