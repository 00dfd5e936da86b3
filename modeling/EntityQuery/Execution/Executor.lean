import EntityQuery.Criteria.Compile
import EntityQuery.Execution.Collection
import EntityQuery.Expression.OfPredicate
import EntityQuery.Page

/-!
Executors, which run prepared queries on the instances of one entity type, and repositories, which
say in what ways their instances can be found.

A repository that runs relational queries is asked through those, otherwise one that evaluates
boolean expressions is asked through these, and otherwise its own executor runs the queries.
-/

namespace EntityQuery

/-- Runs prepared queries. -/
structure Executor (ρ : Type) where
  /-- The instances that a query accepts, in its order. -/
  findAll : PreparedQuery → Except QueryError (List ρ)
  /-- One page of them. -/
  findPage : PreparedQuery → PageRequest → Except QueryError (Page ρ)

/-- A repository that runs relational queries. -/
structure CriteriaRepository (ρ : Type) where
  mappings : Mappings
  findAll : Criteria → Except QueryError (List ρ)
  /-- The number of rows on all pages. -/
  count : Criteria → Except QueryError Nat

/-- A repository that evaluates boolean expressions. -/
structure PredicateRepository (ρ : Type) where
  findAll : Option BooleanExpression → List OrderSpecifier → Except QueryError (List ρ)

/-- The ways in which a repository's instances can be found. -/
structure Repository (ρ : Type) where
  criteria? : Option (CriteriaRepository ρ)
  predicates? : Option (PredicateRepository ρ)
  collection? : Option (Executor ρ)

/-- A query on the properties that an expression names. -/
def PreparedQuery.toExpression (q : PreparedQuery) :
    Except QueryError (Option BooleanExpression × List OrderSpecifier) :=
  let orders := q.orders.map OrderSpecifier.ofOrder
  match q.predicate with
  | none => .ok (none, orders)
  | some p => (evaluated (BooleanExpression.ofPredicate p)).map fun b => (some b, orders)

namespace Executor

variable {ρ : Type}

/-- An executor whose pages are cut out of the whole result. -/
def slicing (findAll : PreparedQuery → Except QueryError (List ρ)) : Executor ρ :=
  ⟨findAll, fun q request => (findAll q).map fun all => .slice all request⟩

/-- Runs queries as relational ones; only the rows of a page are asked for. -/
def ofCriteria (entity : String) (r : CriteriaRepository ρ) : Executor ρ where
  findAll q := do
    let criteria ← Criteria.compile r.mappings entity q
    r.findAll criteria
  findPage q request := do
    let criteria ← Criteria.compile r.mappings entity q
    let total ← r.count criteria
    let content ← r.findAll (criteria.withPage request)
    return ⟨content, request.page, request.size, total⟩

/-- Runs queries as boolean expressions. -/
def ofPredicates (r : PredicateRepository ρ) : Executor ρ :=
  slicing fun q => do
    let (predicate, orders) ← q.toExpression
    r.findAll predicate orders

/-- Runs queries over a list of instances. -/
def ofCollection [Instance ρ] (items : List ρ) : Executor ρ :=
  slicing (Collection.findAll items)

/-- The executor for a repository, if it offers any way to find its instances. -/
def select (entity : String) (r : Repository ρ) : Except QueryError (Executor ρ) :=
  match r.criteria?, r.predicates?, r.collection? with
  | some criteria, _, _ => .ok (ofCriteria entity criteria)
  | none, some predicates, _ => .ok (ofPredicates predicates)
  | none, none, some collection => .ok collection
  | none, none, none => .error (.unsupported entity)

end Executor

end EntityQuery
