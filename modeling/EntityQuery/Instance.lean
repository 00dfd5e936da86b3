import EntityQuery.Value

/-!
Instances of entity types, seen through their properties.
-/

namespace EntityQuery

universe u

/-- A type of instances: the value of a property, and the instances an association leads to. -/
class Instance (ι : Type u) where
  valueOf : ι → String → Value
  related : ι → String → List ι

variable {ι : Type u} [Instance ι]

/-- The values at the end of a path of names: the last name is read as a property, the names before
it are followed as associations. -/
def reach (i : ι) : List String → List Value
  | [] => []
  | [last] => [Instance.valueOf i last]
  | first :: rest => (Instance.related i first).flatMap fun r => reach r rest

end EntityQuery
