import EntityQuery.Expression

/-!
Expressions built from property names.

A scope points at an entity: the one a query is about, one that an association leads to, or an
element of a collection. It hands out handles for properties; each kind of handle has the tests that
make sense for its properties.
-/

namespace EntityQuery

/-- The names that lead to an entity. -/
structure Scope where
  steps : List String
  deriving DecidableEq

/-- A property with a yes or no, or a constant. -/
structure PlainHandle where
  property : PropertyRef

/-- A property with an order. -/
structure OrderedHandle where
  property : PropertyRef

/-- A property that holds text. -/
structure TextHandle where
  property : PropertyRef

/-- A single-valued association; its values are compared by id. -/
structure EntityHandle where
  property : PropertyRef

/-- A multi-valued property. -/
structure CollectionHandle where
  property : PropertyRef

namespace Scope

/-- The entity a query is about. -/
def root : Scope :=
  ⟨[]⟩

/-- The entity that a single-valued association leads to. -/
def get (s : Scope) (name : String) : Scope :=
  ⟨s.steps ++ [name]⟩

/-- A property of the entity. -/
def property (s : Scope) (name : String) : PropertyRef :=
  ⟨s.steps ++ [name]⟩

/-- The handle of a property with a yes or no, or a constant. -/
def plain (s : Scope) (name : String) : PlainHandle :=
  ⟨s.property name⟩

/-- The handle of a number or a date. -/
def ordered (s : Scope) (name : String) : OrderedHandle :=
  ⟨s.property name⟩

/-- The handle of a text. -/
def text (s : Scope) (name : String) : TextHandle :=
  ⟨s.property name⟩

/-- The handle of a single-valued association. -/
def entity (s : Scope) (name : String) : EntityHandle :=
  ⟨s.property name⟩

/-- The handle of a multi-valued property. -/
def collection (s : Scope) (name : String) : CollectionHandle :=
  ⟨s.property name⟩

/-- A property to sort by. -/
def order (s : Scope) (name : String) (direction : Direction) : OrderSpecifier :=
  ⟨s.property name, direction⟩

end Scope

/-- The entity at the end of an association. -/
def EntityHandle.scope (h : EntityHandle) : Scope :=
  ⟨h.property.steps⟩

/-- The test of a property by a strategy. -/
def PropertyRef.testBy (p : PropertyRef) (strategy : Strategy) (operands : List Value) :
    Except EvaluationError BooleanExpression :=
  (Matcher.make strategy operands).map fun m => .test p m

/-- Handles of properties with a single value. -/
class SingleValued (η : Type) where
  property : η → PropertyRef

instance : SingleValued PlainHandle := ⟨PlainHandle.property⟩
instance : SingleValued OrderedHandle := ⟨OrderedHandle.property⟩
instance : SingleValued TextHandle := ⟨TextHandle.property⟩
instance : SingleValued EntityHandle := ⟨EntityHandle.property⟩

/-- Handles of properties whose values have an order. -/
class HasOrder (η : Type) extends SingleValued η

instance : HasOrder OrderedHandle := ⟨⟩
instance : HasOrder TextHandle := ⟨⟩

/-- An expression, or the reason why a test cannot be made. -/
abbrev Test := Except EvaluationError BooleanExpression

namespace SingleValued

variable {η : Type} [SingleValued η]

/-- The value equals another. -/
def eq (h : η) (v : Value) : Test :=
  (property h).testBy (.equality false) [v]

/-- The value is present and differs from another. -/
def ne (h : η) (v : Value) : Test :=
  (property h).testBy (.equality true) [v]

/-- The value is one of several. -/
def isIn (h : η) (vs : List Value) : Test :=
  (property h).testBy (.membership false) vs

/-- The value is present and none of several. -/
def notIn (h : η) (vs : List Value) : Test :=
  (property h).testBy (.membership true) vs

/-- The value is absent. -/
def isNull (h : η) : Test :=
  (property h).testBy (.nullness false) []

/-- The value is present. -/
def isNotNull (h : η) : Test :=
  (property h).testBy (.nullness true) []

end SingleValued

namespace HasOrder

variable {η : Type} [HasOrder η]

/-- The value is greater than another. -/
def gt (h : η) (v : Value) : Test :=
  (SingleValued.property h).testBy (.ordering .gt) [v]

/-- The value is not less than another. -/
def ge (h : η) (v : Value) : Test :=
  (SingleValued.property h).testBy (.ordering .ge) [v]

/-- The value is less than another. -/
def lt (h : η) (v : Value) : Test :=
  (SingleValued.property h).testBy (.ordering .lt) [v]

/-- The value is not greater than another. -/
def le (h : η) (v : Value) : Test :=
  (SingleValued.property h).testBy (.ordering .le) [v]

end HasOrder

/-- The text matches a pattern, or does not. -/
def TextHandle.like (h : TextHandle) (ignoreCase negated : Bool) (pattern : String) : Test :=
  h.property.testBy (.pattern ignoreCase negated) [.text pattern]

namespace CollectionHandle

/-- A value is among the elements. -/
def contains (h : CollectionHandle) (v : Value) : Test :=
  h.property.testBy (.containment false) [v]

/-- There is a collection, and a value is not among its elements. -/
def notContains (h : CollectionHandle) (v : Value) : Test :=
  h.property.testBy (.containment true) [v]

/-- There are no elements. -/
def isEmpty (h : CollectionHandle) : Test :=
  h.property.testBy (.emptiness false) []

/-- There are elements. -/
def isNotEmpty (h : CollectionHandle) : Test :=
  h.property.testBy (.emptiness true) []

/-- Some element satisfies an expression about elements. -/
def any (h : CollectionHandle) (inner : Scope → Test) : Test :=
  (inner .root).map fun condition => .any h.property condition

end CollectionHandle

end EntityQuery
