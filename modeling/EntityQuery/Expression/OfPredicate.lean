import EntityQuery.Execution.Error
import EntityQuery.Expression.Handle

/-!
Boolean expressions of prepared predicates.

The test at the end of a path is built through the handle for the kind of its property; every step
through a collection opens a scope on the way.
-/

namespace EntityQuery

/-- The first operand; null if there is none. -/
def firstOperand (operands : List Value) : Value :=
  operands.headD .null

namespace BooleanExpression

/-- Tests of a property with a single value. -/
def ofSingle {η : Type} [SingleValued η] (h : η) (strategy : Strategy) (operands : List Value) :
    Test :=
  match strategy with
  | .equality false => SingleValued.eq h (firstOperand operands)
  | .equality true => SingleValued.ne h (firstOperand operands)
  | .membership false => SingleValued.isIn h operands
  | .membership true => SingleValued.notIn h operands
  | .nullness false => SingleValued.isNull h
  | .nullness true => SingleValued.isNotNull h
  | other => .error (.unsupportedStrategy other .boolean)

/-- Tests of a property whose values have an order. -/
def ofOrdered {η : Type} [HasOrder η] (h : η) (strategy : Strategy) (operands : List Value) :
    Test :=
  match strategy with
  | .ordering .gt => HasOrder.gt h (firstOperand operands)
  | .ordering .ge => HasOrder.ge h (firstOperand operands)
  | .ordering .lt => HasOrder.lt h (firstOperand operands)
  | .ordering _ => HasOrder.le h (firstOperand operands)
  | other => ofSingle h other operands

/-- Tests of a multi-valued property. -/
def ofCollection (h : CollectionHandle) (strategy : Strategy) (operands : List Value) : Test :=
  match strategy with
  | .emptiness false => h.isEmpty
  | .emptiness true => h.isNotEmpty
  | .containment false => h.contains (firstOperand operands)
  | .containment true => h.notContains (firstOperand operands)
  | other => .error (.unsupportedStrategy other .collection)

/-- The test of the property at the end of a path. -/
def ofLeaf (scope : Scope) (leaf : PathSegment) (strategy : Strategy) (operands : List Value) :
    Test :=
  match leaf.type.kind with
  | .text =>
    match strategy with
    | .pattern ignoreCase negated =>
      (scope.text leaf.name).like ignoreCase negated ((operands.head?.bind Value.text?).getD "")
    | other => ofOrdered (scope.text leaf.name) other operands
  | .number | .temporal => ofOrdered (scope.ordered leaf.name) strategy operands
  | .boolean | .enum => ofSingle (scope.plain leaf.name) strategy operands
  | .reference => ofSingle (scope.entity leaf.name) strategy operands
  | .collection => ofCollection (scope.collection leaf.name) strategy operands

/-- Follows the steps of a path: an indexed one opens a scope. -/
def along (leaf : PathSegment) (strategy : Strategy) (operands : List Value) :
    Scope → List PathSegment → Test
  | scope, [] => ofLeaf scope leaf strategy operands
  | scope, hop :: rest =>
    if hop.indexed then
      (scope.collection hop.name).any fun element => along leaf strategy operands element rest
    else along leaf strategy operands (scope.get hop.name) rest

/-- The expression of a condition. -/
def ofCondition (c : Condition) : Test :=
  match Strategy.require c.operator c.property.kind with
  | .error e => .error e
  | .ok strategy => along c.property.leaf strategy c.operands .root c.property.parents

mutual

/-- The expression of a predicate. -/
def ofPredicate : Predicate Condition → Test
  | .cond c => ofCondition c
  | .and children => (ofPredicates children).map and
  | .or children => (ofPredicates children).map or

/-- The expressions of a list of predicates. -/
def ofPredicates : List (Predicate Condition) → Except EvaluationError (List BooleanExpression)
  | [] => .ok []
  | p :: ps =>
    match ofPredicate p with
    | .error e => .error e
    | .ok b => (ofPredicates ps).map (b :: ·)

end

end BooleanExpression

/-- The property that a sort clause sorts by. -/
def OrderSpecifier.ofOrder (o : Order PropertyPath) : OrderSpecifier :=
  (o.property.parents.foldl (fun scope hop => scope.get hop.name) Scope.root).order
    o.property.leaf.name o.direction

end EntityQuery
