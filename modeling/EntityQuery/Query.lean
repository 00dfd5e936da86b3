/-!
The query tree: a predicate of conditions joined by `and` and `or`, and sort clauses.

Text as parsed and queries as prepared share this tree; they differ in their conditions `C` and in
the properties `P` that they sort on.
-/

namespace EntityQuery

universe u v w

/-- A tree of conditions. -/
inductive Predicate (C : Type u) where
  | cond (c : C)
  | and (children : List (Predicate C))
  | or (children : List (Predicate C))
  deriving Inhabited

/-- The direction of a sort clause. -/
inductive Direction where
  | ascending
  | descending
  deriving DecidableEq, Inhabited

/-- A sort clause. -/
structure Order (P : Type u) where
  property : P
  direction : Direction
  deriving DecidableEq

/-- A query: a predicate, unless everything is wanted, and sort clauses. -/
structure Query (C : Type u) (P : Type v) where
  predicate : Option (Predicate C)
  orders : List (Order P)

/-- The two ways of joining predicates. -/
inductive Junction where
  | and
  | or
  deriving DecidableEq

namespace Predicate

variable {C : Type u} {D : Type v}

/-- The operands of a junction that a predicate brings into one: its children if it is the same
junction, otherwise itself. -/
def operandsIn : Junction → Predicate C → List (Predicate C)
  | .and, and children => children
  | .or, or children => children
  | _, p => [p]

/-- Joins predicates into a junction, which a single one does not need. -/
def joined (j : Junction) : List (Predicate C) → Predicate C
  | [p] => p
  | ps =>
    match j with
    | .and => and ps
    | .or => or ps

/-- Joins predicates, taking in the children of a junction of the same kind. -/
def join (j : Junction) (items : List (Predicate C)) : Predicate C :=
  joined j (items.flatMap (operandsIn j))

/-- The conjunction of predicates, without conjunctions directly inside it. -/
def allOf (items : List (Predicate C)) : Predicate C :=
  join .and items

/-- The disjunction of predicates, without disjunctions directly inside it. -/
def anyOf (items : List (Predicate C)) : Predicate C :=
  join .or items

mutual

/-- The conditions from left to right. -/
def conditions : Predicate C → List C
  | cond c => [c]
  | and children | or children => conditionsOfAll children

/-- The conditions of a list of predicates from left to right. -/
def conditionsOfAll : List (Predicate C) → List C
  | [] => []
  | p :: ps => conditions p ++ conditionsOfAll ps

end

mutual

/-- Replaces every condition by a predicate, from left to right, until one fails. Junctions are
joined anew. -/
def mapM {E : Type w} (f : C → Except E (Predicate D)) :
    Predicate C → Except E (Predicate D)
  | cond c => f c
  | and children => (mapAllM f children).map allOf
  | or children => (mapAllM f children).map anyOf

/-- Replaces every condition of a list of predicates. -/
def mapAllM {E : Type w} (f : C → Except E (Predicate D)) :
    List (Predicate C) → Except E (List (Predicate D))
  | [] => .ok []
  | p :: ps =>
    match mapM f p with
    | .error e => .error e
    | .ok q => (mapAllM f ps).map (q :: ·)

end

mutual

/-- Equality of trees by an equality of their conditions. -/
def beq [BEq C] : Predicate C → Predicate C → Bool
  | cond c, cond d => c == d
  | and ps, and qs => beqAll ps qs
  | or ps, or qs => beqAll ps qs
  | _, _ => false

/-- Equality of lists of trees. -/
def beqAll [BEq C] : List (Predicate C) → List (Predicate C) → Bool
  | [], [] => true
  | p :: ps, q :: qs => beq p q && beqAll ps qs
  | _, _ => false

end

instance [BEq C] : BEq (Predicate C) := ⟨beq⟩

/-- Parentheses around a text, if they are wanted. -/
def enclosed (nested : Bool) (s : String) : String :=
  if nested then "(" ++ s ++ ")" else s

mutual

/-- The text of a predicate; a junction inside another stands in parentheses. -/
def textAt (conditionText : C → String) (nested : Bool) : Predicate C → String
  | cond c => conditionText c
  | and children => enclosed nested (String.intercalate " and " (textsOf conditionText children))
  | or children => enclosed nested (String.intercalate " or " (textsOf conditionText children))

/-- The texts of the children of a junction. -/
def textsOf (conditionText : C → String) : List (Predicate C) → List String
  | [] => []
  | p :: ps => textAt conditionText true p :: textsOf conditionText ps

end

/-- The text of a predicate. -/
def text (conditionText : C → String) (p : Predicate C) : String :=
  textAt conditionText false p

end Predicate

/-- The keyword of a direction. -/
def Direction.text : Direction → String
  | .ascending => "ASC"
  | .descending => "DESC"

/-- The text of a sort clause. -/
def Order.text {P : Type u} (propertyText : P → String) (o : Order P) : String :=
  propertyText o.property ++ " " ++ o.direction.text

namespace Query

variable {C : Type u} {P : Type v}

/-- The query for everything. -/
def all : Query C P :=
  ⟨none, []⟩

/-- The query for what a predicate accepts. -/
def of (p : Predicate C) : Query C P :=
  ⟨some p, []⟩

/-- The sort clauses of the first query, unless it has none. -/
def ordersOf (a b : Query C P) : List (Order P) :=
  if a.orders.isEmpty then b.orders else a.orders

/-- What both queries accept, sorted as the first one is. -/
def and (a b : Query C P) : Query C P :=
  ⟨match a.predicate, b.predicate with
    | some p, some q => some (.allOf [p, q])
    | some p, none => some p
    | none, q => q,
   ordersOf a b⟩

/-- What either query accepts, sorted as the first one is; a query for everything accepts
everything. -/
def or (a b : Query C P) : Query C P :=
  ⟨match a.predicate, b.predicate with
    | some p, some q => some (.anyOf [p, q])
    | _, _ => none,
   ordersOf a b⟩

/-- Equality of queries by an equality of their conditions and sort properties. -/
def beq [BEq C] [BEq P] (a b : Query C P) : Bool :=
  a.predicate == b.predicate && go a.orders b.orders
where
  /-- Equality of sort clauses. -/
  go : List (Order P) → List (Order P) → Bool
    | [], [] => true
    | o :: os, q :: qs => o.property == q.property && o.direction == q.direction && go os qs
    | _, _ => false

instance [BEq C] [BEq P] : BEq (Query C P) := ⟨beq⟩

/-- The text of a query: its predicate, then its sort clauses. -/
def text (conditionText : C → String) (propertyText : P → String) (q : Query C P) : String :=
  let predicate := (q.predicate.map (Predicate.text conditionText)).getD ""
  if q.orders.isEmpty then predicate
  else
    predicate ++ (if q.predicate.isSome then " " else "") ++ "order by "
      ++ String.intercalate ", " (q.orders.map (Order.text propertyText))

end Query

end EntityQuery
