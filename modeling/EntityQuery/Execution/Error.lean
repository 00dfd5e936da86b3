import EntityQuery.Preparation.Error

/-!
Faults found while a query is bound to a repository or run.
-/

namespace EntityQuery

/-- Why a property cannot be mapped to tables. -/
inductive MappingFault where
  | noTable
  | unmapped
  | plainElements
  | notSingleValued
  | notMultiValued
  | needsCollection
  | needsSingle
  | unsortableAssociation
  | unsortable
  deriving DecidableEq

/-- The wording of a mapping fault. -/
def MappingFault.message : MappingFault → String
  | noTable => "entity type has no table"
  | unmapped => "property is not mapped"
  | plainElements => "elements have no properties"
  | notSingleValued => "not a single-valued association"
  | notMultiValued => "not a multi-valued property"
  | needsCollection => "operator needs a collection"
  | needsSingle => "operator needs a single value"
  | unsortableAssociation => "cannot sort across this association"
  | unsortable => "no column to sort on"

/-- Why a property does not lead back to an owner. -/
inductive AssociationFault where
  | resolve (e : ResolveError)
  | notDirect
  | notAssociation

/-- The wording of an association fault. -/
def AssociationFault.message : AssociationFault → String
  | resolve e => e.message
  | notDirect => "must be a direct property"
  | notAssociation => "not an association"

/-- Why a query cannot be bound or run. -/
inductive QueryError where
  | unsupported (entity : String)
  | text (e : QueryTextError)
  | evaluation (e : EvaluationError)
  | mapping (entity property : String) (fault : MappingFault)
  | association (entity property : String) (fault : AssociationFault)
  | repository (message : String)

/-- The wording of a query error. -/
def QueryError.message : QueryError → String
  | unsupported entity => "Repository for " ++ entity ++ " supports no query capability"
  | text e => e.message
  | evaluation e => "Evaluation error: " ++ e.message
  | mapping entity property fault =>
    "No mapping for '" ++ property ++ "' on " ++ entity ++ ": " ++ fault.message
  | association entity property fault =>
    "Invalid association '" ++ property ++ "' on " ++ entity ++ ": " ++ fault.message
  | repository message => "Repository error: " ++ message

/-- An evaluation error as a query error. -/
def evaluated {α : Type} : Except EvaluationError α → Except QueryError α
  | .ok a => .ok a
  | .error e => .error (.evaluation e)

end EntityQuery
