import EntityQuery.Execution.Executor

/-!
Queries about the instances that belong to an owner: those whose back-reference is the owner, or has
it among its elements.
-/

namespace EntityQuery

/-- An executor for the instances of owners. -/
structure OwnedExecutor (ρ : Type) where
  executor : Executor ρ
  /-- The property that leads back to the owner. -/
  backReference : PropertyPath
  ownerEntity : String

namespace OwnedExecutor

variable {ρ : Type}

/-- The entity type that an association leads to, one element or several. -/
def owner? : PropertyType → Option String
  | .entity name => some name
  | .collection (.entity name) => some name
  | _ => none

/-- Makes an executor for the instances of owners. The back-reference has to be an association that
the entity type itself declares. -/
def make (r : Registry) (entity backReference : String) (executor : Executor ρ) :
    Except QueryError (OwnedExecutor ρ) :=
  let refuse (fault : AssociationFault) : Except QueryError (OwnedExecutor ρ) :=
    .error (.association entity backReference fault)
  match r.resolve entity backReference with
  | .error e => refuse (.resolve e)
  | .ok q =>
    if q.path.parents.isEmpty then
      match owner? q.path.type with
      | some owner => .ok ⟨executor, q.path, owner⟩
      | none => refuse .notAssociation
    else refuse .notDirect

/-- A reference to an owner that is given by reference or by id. -/
def ownerRef (x : OwnedExecutor ρ) : Value → Value
  | .ref entity id => .ref entity id
  | id => .ref x.ownerEntity id

/-- The condition that an instance belongs to an owner. -/
def condition (x : OwnedExecutor ρ) (owner : Value) : Condition :=
  ⟨x.backReference, if x.backReference.type.isCollection then .contains else .eq,
    [x.ownerRef owner]⟩

/-- A query restricted to the instances of an owner. -/
def restrict (x : OwnedExecutor ρ) (owner : Value) (q : PreparedQuery) : PreparedQuery :=
  (Query.of (.cond (x.condition owner))).and q

/-- One page of the instances of an owner that a query accepts. -/
def findPage (x : OwnedExecutor ρ) (owner : Value) (q : PreparedQuery) (request : PageRequest) :
    Except QueryError (Page ρ) :=
  x.executor.findPage (x.restrict owner q) request

end OwnedExecutor

end EntityQuery
