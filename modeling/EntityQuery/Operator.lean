/-!
The operators of conditions.
-/

namespace EntityQuery

/-- An operator of a condition. -/
inductive Operator where
  | eq
  | ne
  | gt
  | ge
  | lt
  | le
  | like
  | notLike
  | ilike
  | notIlike
  | contains
  | notContains
  | isIn
  | notIn
  | isNull
  | isNotNull
  | isEmpty
  | isNotEmpty
  deriving DecidableEq, Inhabited

namespace Operator

/-- Every operator. -/
def all : List Operator :=
  [eq, ne, gt, ge, lt, le, like, notLike, ilike, notIlike, contains, notContains, isIn, notIn,
    isNull, isNotNull, isEmpty, isNotEmpty]

/-- The canonical spelling. -/
def token : Operator → String
  | eq => "="
  | ne => "!="
  | gt => ">"
  | ge => ">="
  | lt => "<"
  | le => "<="
  | like => "like"
  | notLike => "not like"
  | ilike => "ilike"
  | notIlike => "not ilike"
  | contains => "contains"
  | notContains => "not contains"
  | isIn => "in"
  | notIn => "not in"
  | isNull => "is null"
  | isNotNull => "is not null"
  | isEmpty => "is empty"
  | isNotEmpty => "is not empty"

/-- The name of the operator in diagnostics. -/
def name : Operator → String
  | eq => "Eq"
  | ne => "Neq"
  | gt => "Gt"
  | ge => "Ge"
  | lt => "Lt"
  | le => "Le"
  | like => "Like"
  | notLike => "NotLike"
  | ilike => "ILike"
  | notIlike => "NotILike"
  | contains => "Contains"
  | notContains => "NotContains"
  | isIn => "In"
  | notIn => "NotIn"
  | isNull => "IsNull"
  | isNotNull => "IsNotNull"
  | isEmpty => "IsEmpty"
  | isNotEmpty => "IsNotEmpty"

/-- The operator that accepts exactly the values present that this one rejects; the orderings have
none. -/
def negate? : Operator → Option Operator
  | eq => some ne
  | ne => some eq
  | like => some notLike
  | notLike => some like
  | ilike => some notIlike
  | notIlike => some ilike
  | contains => some notContains
  | notContains => some contains
  | isIn => some notIn
  | notIn => some isIn
  | isNull => some isNotNull
  | isNotNull => some isNull
  | isEmpty => some isNotEmpty
  | isNotEmpty => some isEmpty
  | gt | ge | lt | le => none

/-- Whether the operator denies what its counterpart asserts. -/
def isNegation : Operator → Bool
  | ne | notLike | notIlike | notContains | notIn | isNotNull | isNotEmpty => true
  | _ => false

/-- Whether the operator takes no operand. -/
def isUnary : Operator → Bool
  | isNull | isNotNull | isEmpty | isNotEmpty => true
  | _ => false

/-- Whether the operand is a list of values. -/
def takesList : Operator → Bool
  | isIn | notIn => true
  | _ => false

/-- Whether a list of values may be written after the operator. -/
def acceptsList : Operator → Bool
  | isIn | notIn | contains | notContains => true
  | _ => false

/-- Whether the operand is a pattern. -/
def isPattern : Operator → Bool
  | like | notLike | ilike | notIlike => true
  | _ => false

end Operator

end EntityQuery
