import EntityQuery.Condition
import EntityQuery.Instance
import EntityQuery.Matcher
import EntityQuery.SortOrder

/-!
Boolean expressions over the properties of instances. A multi-valued association opens a scope of
its own: the expression inside it is about one element.
-/

namespace EntityQuery

/-- A property at the end of single-valued associations, by the names on the way. -/
structure PropertyRef where
  steps : List String
  deriving DecidableEq

/-- A boolean expression. -/
inductive BooleanExpression where
  /-- A test of the value of a property. -/
  | test (property : PropertyRef) (matcher : Matcher)
  | and (children : List BooleanExpression)
  | or (children : List BooleanExpression)
  /-- Some element of a multi-valued association satisfies a condition on elements. -/
  | any (collection : PropertyRef) (condition : BooleanExpression)

/-- A property to sort by. -/
structure OrderSpecifier where
  property : PropertyRef
  direction : Direction
  deriving DecidableEq

namespace PropertyRef

/-- The names, separated by dots. -/
def text (p : PropertyRef) : String :=
  String.intercalate "." p.steps

variable {ι : Type} [Instance ι]

/-- The value at the end of some names; null where an association is missing. -/
def valueAt (i : ι) : List String → Value
  | [] => .null
  | [last] => Instance.valueOf i last
  | first :: rest =>
    match Instance.related i first with
    | [] => .null
    | r :: _ => valueAt r rest

/-- The instances at the end of some names; none where an association is missing. -/
def elementsAt (i : ι) : List String → List ι
  | [] => []
  | [last] => Instance.related i last
  | first :: rest =>
    match Instance.related i first with
    | [] => []
    | r :: _ => elementsAt r rest

/-- The value of the property. -/
def value (p : PropertyRef) (i : ι) : Value :=
  valueAt i p.steps

/-- The elements of the property, as instances. -/
def elements (p : PropertyRef) (i : ι) : List ι :=
  elementsAt i p.steps

end PropertyRef

namespace BooleanExpression

/-- Conjunction; a conjunction takes in one more operand. -/
def conj (a b : BooleanExpression) : BooleanExpression :=
  match a with
  | and children => and (children ++ [b])
  | a => and [a, b]

/-- Disjunction; a disjunction takes in one more operand. -/
def disj (a b : BooleanExpression) : BooleanExpression :=
  match a with
  | or children => or (children ++ [b])
  | a => or [a, b]

variable {ι : Type} [Instance ι]

mutual

/-- The truth of an expression about an instance. -/
def evaluate : BooleanExpression → ι → Bool
  | test property matcher, i => matcher.accepts (property.value i)
  | and children, i => evaluateAll children i
  | or children, i => evaluateAny children i
  | any collection condition, i => (collection.elements i).any fun e => evaluate condition e

/-- Whether all expressions are true about an instance. -/
def evaluateAll : List BooleanExpression → ι → Bool
  | [], _ => true
  | e :: es, i => evaluate e i && evaluateAll es i

/-- Whether some expression is true about an instance. -/
def evaluateAny : List BooleanExpression → ι → Bool
  | [], _ => false
  | e :: es, i => evaluate e i || evaluateAny es i

end

end BooleanExpression

namespace OrderSpecifier

variable {ι : Type} [Instance ι]

/-- Compares two instances by the property. -/
def compare (o : OrderSpecifier) (a b : ι) : Ordering :=
  o.direction.order (o.property.value a) (o.property.value b)

/-- Compares two instances by one property after the other. -/
def compareAll : List OrderSpecifier → ι → ι → Ordering
  | [], _, _ => .eq
  | o :: os, a, b => (o.compare a b).then (compareAll os a b)

end OrderSpecifier

end EntityQuery
