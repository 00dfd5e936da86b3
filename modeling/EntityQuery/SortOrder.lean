import EntityQuery.Query
import EntityQuery.Value

/-!
The order of values in the direction of a sort clause.
-/

namespace EntityQuery

/-- The order of two values in a direction: null comes first ascending and last descending. -/
def Direction.order (d : Direction) (a b : Value) : Ordering :=
  match d with
  | .ascending => a.sortOrder b
  | .descending => b.sortOrder a

end EntityQuery
