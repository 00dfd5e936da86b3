import EntityQuery.Execution.Executor
import EntityQuery.Sorting

/-!
Instances held in memory. They can always be found by going through them; a memory may answer
boolean expressions too.
-/

namespace EntityQuery

/-- Instances in the order of their insertion. -/
structure Memory (ι : Type) where
  items : List ι
  answersPredicates : Bool

namespace Memory

variable {ι : Type}

/-- Adds an instance at the end. -/
def insert (m : Memory ι) (i : ι) : Memory ι :=
  { m with items := m.items ++ [i] }

variable [Instance ι]

/-- The instances about which an expression is true, sorted; those that tie keep their order. The
instances themselves are sorted, in blocks of eight. -/
def findMatching (items : List ι) (predicate : Option BooleanExpression)
    (orders : List OrderSpecifier) : List ι :=
  let found := match predicate with
    | none => items
    | some p => items.filter fun i => p.evaluate i
  Sorting.sort (fun a b => OrderSpecifier.compareAll orders a b == .lt) .eight found

/-- The memory as a repository. -/
def repository (m : Memory ι) : Repository ι where
  criteria? := none
  predicates? :=
    if m.answersPredicates then some ⟨fun p orders => .ok (findMatching m.items p orders)⟩ else none
  collection? := some (.ofCollection m.items)

end Memory

end EntityQuery
