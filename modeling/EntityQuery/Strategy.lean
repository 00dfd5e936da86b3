import EntityQuery.Operator
import EntityQuery.PropertyType
import EntityQuery.Text.Numeral

/-!
Comparison strategies: the one way in which an operator compares values of one kind of property.
-/

namespace EntityQuery

/-- How a condition compares a value with its operands. -/
inductive Strategy where
  /-- Equal, or with a value present and different. -/
  | equality (negated : Bool)
  /-- Before or after in the order of values. -/
  | ordering (operator : Operator)
  /-- A text that a pattern describes. -/
  | pattern (ignoreCase negated : Bool)
  /-- One of a list of values. -/
  | membership (negated : Bool)
  /-- The absence of a value. -/
  | nullness (negated : Bool)
  /-- The absence of elements. -/
  | emptiness (negated : Bool)
  /-- An element of a collection. -/
  | containment (negated : Bool)
  deriving DecidableEq

/-- A fault found while values are compared with conditions. -/
inductive EvaluationError where
  /-- A pattern that cannot be read. -/
  | invalidPattern (pattern message : String)
  /-- A number of operands other than the strategy compares with. -/
  | operandCount (strategy : Strategy) (expected actual : Nat)
  /-- An operator without a strategy for a kind of property. -/
  | unsupportedOperator (operator : Operator) (kind : PropertyKind)
  /-- A strategy that the properties of a kind do not offer. -/
  | unsupportedStrategy (strategy : Strategy) (kind : PropertyKind)
  deriving DecidableEq

namespace Strategy

/-- The strategy of an operator for a kind of property, if the pair is legal. -/
def of? (operator : Operator) (kind : PropertyKind) : Option Strategy :=
  let scalar := kind != .collection
  let ordered := kind == .text || kind == .number || kind == .temporal
  match operator with
  | .eq | .ne => if scalar then some (.equality (operator == .ne)) else none
  | .gt | .ge | .lt | .le => if ordered then some (.ordering operator) else none
  | .like | .notLike | .ilike | .notIlike =>
    if kind == .text then
      some (.pattern (operator == .ilike || operator == .notIlike) operator.isNegation)
    else none
  | .isIn | .notIn => if scalar then some (.membership (operator == .notIn)) else none
  | .isNull | .isNotNull => if scalar then some (.nullness (operator == .isNotNull)) else none
  | .isEmpty | .isNotEmpty =>
    if scalar then none else some (.emptiness (operator == .isNotEmpty))
  | .contains | .notContains =>
    if scalar then none else some (.containment (operator == .notContains))

/-- The strategy of a pair, or the error that says it is illegal. -/
def require (operator : Operator) (kind : PropertyKind) : Except EvaluationError Strategy :=
  match of? operator kind with
  | some strategy => .ok strategy
  | none => .error (.unsupportedOperator operator kind)

/-- Whether the strategy is decided on absent values too; every other strategy rejects null. -/
def testsAbsence : Strategy → Bool
  | nullness _ | emptiness _ => true
  | _ => false

/-- How many operands the strategy compares with; any number for membership. -/
def operandCount? : Strategy → Option Nat
  | nullness _ | emptiness _ => some 0
  | membership _ => none
  | _ => some 1

/-- A field of a strategy in diagnostics. -/
def fieldText (name : String) (b : Bool) : String :=
  name ++ ": " ++ (if b then "true" else "false")

/-- The strategy as diagnostics show it. -/
def shown : Strategy → String
  | equality n => "Equality \x7b " ++ fieldText "negated" n ++ " \x7d"
  | ordering operator => "Ordering(" ++ operator.name ++ ")"
  | pattern i n =>
    "Pattern \x7b " ++ fieldText "case_insensitive" i ++ ", " ++ fieldText "negated" n ++ " \x7d"
  | membership n => "Membership \x7b " ++ fieldText "negated" n ++ " \x7d"
  | nullness n => "Nullness \x7b " ++ fieldText "negated" n ++ " \x7d"
  | emptiness n => "Emptiness \x7b " ++ fieldText "negated" n ++ " \x7d"
  | containment n => "Containment \x7b " ++ fieldText "negated" n ++ " \x7d"

end Strategy

/-- The wording of an evaluation error. -/
def EvaluationError.message : EvaluationError → String
  | invalidPattern pattern message => "Invalid pattern '" ++ pattern ++ "': " ++ message
  | operandCount strategy expected actual =>
    "Operator '" ++ strategy.shown ++ "' expects " ++ Text.integerText expected
      ++ " operand(s), got " ++ Text.integerText actual
  | unsupportedOperator operator kind =>
    "Operator '" ++ operator.token ++ "' does not apply to " ++ kind.lowerName ++ " properties"
  | unsupportedStrategy strategy kind =>
    "Operator '" ++ strategy.shown ++ "' does not apply to " ++ kind.lowerName ++ " properties"

end EntityQuery
