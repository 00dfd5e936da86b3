import EntityQuery.Execution.Executor
import EntityQuery.Preparation.Query

/-!
Entity types bound to the executors that run queries about them.
-/

namespace EntityQuery

/-- An entity type, the registry that queries about it are prepared with, and its executor. -/
structure EntityBinding (ρ : Type) where
  entity : String
  registry : Registry
  executor : Executor ρ

namespace EntityBinding

variable {ρ : Type}

/-- Binds an entity type to a repository: the executor is chosen here, once. -/
def bind (entity : String) (registry : Registry) (r : Repository ρ) :
    Except QueryError (EntityBinding ρ) :=
  (Executor.select entity r).map fun executor => ⟨entity, registry, executor⟩

/-- Reads and prepares the text of a query. -/
def parse (b : EntityBinding ρ) (context : QueryContext) (text : String) :
    Except QueryError PreparedQuery :=
  match b.registry.prepareText context b.entity text with
  | .error e => .error (.text e)
  | .ok q => .ok q

/-- Prepares a query. -/
def prepare (b : EntityBinding ρ) (context : QueryContext) (q : RawQuery) :
    Except QueryError PreparedQuery :=
  match q.prepare b.registry context b.entity with
  | .error e => .error (.text (.prepare e))
  | .ok q => .ok q

/-- Prepares a prepared query, which checks it. -/
def recheck (b : EntityBinding ρ) (q : PreparedQuery) : Except QueryError PreparedQuery :=
  match q.prepare b.registry b.entity with
  | .error e => .error (.text (.prepare e))
  | .ok q => .ok q

/-- The instances that a query accepts, in its order. -/
def findAll (b : EntityBinding ρ) (q : PreparedQuery) : Except QueryError (List ρ) :=
  b.executor.findAll q

/-- One page of the instances that a query accepts. -/
def findPage (b : EntityBinding ρ) (q : PreparedQuery) (request : PageRequest) :
    Except QueryError (Page ρ) :=
  b.executor.findPage q request

/-- Reads, prepares and runs the text of a query. -/
def query (b : EntityBinding ρ) (context : QueryContext) (text : String) :
    Except QueryError (List ρ) := do
  let q ← b.parse context text
  b.findAll q

end EntityBinding

end EntityQuery
