import EntityQuery.PropertyType

/-!
Property paths: the properties that lead from an entity type to the one a condition is about.
-/

namespace EntityQuery

/-- A step of a path. -/
structure PathSegment where
  /-- The name of the property. -/
  name : String
  /-- The entity type that declares it. -/
  owner : String
  type : PropertyType
  nullable : Bool
  /-- Whether the path goes on through the elements of this collection. -/
  indexed : Bool
  deriving DecidableEq

/-- A path: the associations to follow, outermost first, and the property at their end. -/
structure PropertyPath where
  parents : List PathSegment
  leaf : PathSegment
  deriving DecidableEq

/-- The name of a step, marked if it is indexed. -/
def PathSegment.text (s : PathSegment) : String :=
  if s.indexed then s.name ++ "[]" else s.name

namespace PropertyPath

/-- The text of a path, for instance `books[].authors[].name`. -/
def text (p : PropertyPath) : String :=
  p.parents.foldr (fun s rest => s.text ++ "." ++ rest) p.leaf.name

/-- The type of the property at the end. -/
def type (p : PropertyPath) : PropertyType :=
  p.leaf.type

/-- The kind of the property at the end. -/
def kind (p : PropertyPath) : PropertyKind :=
  p.leaf.type.kind

/-- Whether a step goes through the elements of a collection. -/
def isMultiValued (p : PropertyPath) : Bool :=
  p.parents.any PathSegment.indexed

/-- All steps, outermost first. -/
def segments (p : PropertyPath) : List PathSegment :=
  p.parents ++ [p.leaf]

/-- The names of all steps, outermost first. -/
def names (p : PropertyPath) : List String :=
  p.segments.map PathSegment.name

end PropertyPath

end EntityQuery
