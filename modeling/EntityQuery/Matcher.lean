import EntityQuery.Like
import EntityQuery.Value

/-!
Matchers: a strategy with its operands, ready to test the values of a property.
-/

namespace EntityQuery

/-- A strategy bound to its operands. -/
structure Matcher where
  strategy : Strategy
  operands : List Value
  /-- The pattern that was read, for a strategy that compares with one. -/
  pattern? : Option LikePattern

namespace Matcher

/-- Binds a strategy to operands. The number of operands has to fit, and a pattern has to be
readable; an operand that is not text counts as the empty pattern. -/
def make (strategy : Strategy) (operands : List Value) : Except EvaluationError Matcher :=
  match strategy.operandCount? with
  | some n =>
    if operands.length = n then bind strategy operands
    else .error (.operandCount strategy n operands.length)
  | none => bind strategy operands
where
  /-- Reads the pattern, if the strategy has one. -/
  bind (strategy : Strategy) (operands : List Value) : Except EvaluationError Matcher :=
    match strategy with
    | .pattern ignoreCase _ =>
      (LikePattern.compile ((operands.head?.bind Value.text?).getD "") ignoreCase).map
        fun p => ⟨strategy, operands, some p⟩
    | _ => .ok ⟨strategy, operands, none⟩

/-- Whether an order of value and operand is what an ordering operator asks for. -/
def holds (operator : Operator) (ordering : Ordering) : Bool :=
  match operator with
  | .gt => ordering == .gt
  | .ge => ordering != .lt
  | .lt => ordering == .lt
  | _ => ordering != .gt

/-- The single operand; null if there is none. -/
def operand (m : Matcher) : Value :=
  m.operands.headD .null

/-- Whether a collection has no elements; null has none. -/
def lacksElements : Value → Bool
  | .null => true
  | .list items => items.isEmpty
  | _ => false

/-- Tests the value of a property. Only the tests for absence accept null. -/
def accepts (m : Matcher) (value : Value) : Bool :=
  match m.strategy with
  | .nullness negated => value.isNull != negated
  | .emptiness negated => lacksElements value != negated
  | .equality negated => !value.isNull && value.sameAs m.operand != negated
  | .ordering operator =>
    match value.compare? m.operand with
    | some ordering => holds operator ordering
    | none => false
  | .pattern _ negated =>
    match value.text?, m.pattern? with
    | some text, some pattern => pattern.accepts text != negated
    | _, _ => false
  | .membership negated => !value.isNull && m.operands.any (value.sameAs ·) != negated
  | .containment negated =>
    match value with
    | .list items => items.any (·.sameAs m.operand) != negated
    | _ => false

end Matcher

end EntityQuery
