import EntityQuery.Condition
import EntityQuery.Execution.Error
import EntityQuery.Execution.Permute
import EntityQuery.Instance
import EntityQuery.Matcher
import EntityQuery.SortOrder
import EntityQuery.Sorting

/-!
Queries run over a list of instances: every instance is tested, and those found are sorted.
-/

namespace EntityQuery

/-- The matcher of a condition. -/
def Condition.matcher (c : Condition) : Except EvaluationError Matcher :=
  match Strategy.require c.operator c.property.kind with
  | .error e => .error e
  | .ok strategy => Matcher.make strategy c.operands

/-- A predicate whose conditions have become matchers. -/
inductive Filter where
  | test (path : PropertyPath) (matcher : Matcher)
  | all (children : List Filter)
  | any (children : List Filter)

namespace Filter

mutual

/-- The filter of a predicate. -/
def compile : Predicate Condition → Except EvaluationError Filter
  | .cond c =>
    match c.matcher with
    | .error e => .error e
    | .ok m => .ok (test c.property m)
  | .and children => (compileAll children).map all
  | .or children => (compileAll children).map any

/-- The filters of a list of predicates. -/
def compileAll : List (Predicate Condition) → Except EvaluationError (List Filter)
  | [] => .ok []
  | p :: ps =>
    match compile p with
    | .error e => .error e
    | .ok f => (compileAll ps).map (f :: ·)

end

end Filter

variable {ι : Type} [Instance ι]

/-- The values a path reaches. A path through single values reaches exactly one: null where an
association on the way is missing. -/
def valuesAt (i : ι) (path : PropertyPath) : List Value :=
  let values := reach i path.names
  if path.isMultiValued then values else [values.headD .null]

namespace Filter

mutual

/-- Tests an instance. A condition on a path to many values holds if it holds of one of them. -/
def accepts (i : ι) : Filter → Bool
  | test path matcher => (valuesAt i path).any matcher.accepts
  | all children => acceptsAll i children
  | any children => acceptsAny i children

/-- Whether every filter accepts an instance. -/
def acceptsAll (i : ι) : List Filter → Bool
  | [] => true
  | f :: fs => accepts i f && acceptsAll i fs

/-- Whether some filter accepts an instance. -/
def acceptsAny (i : ι) : List Filter → Bool
  | [] => false
  | f :: fs => accepts i f || acceptsAny i fs

end

end Filter

namespace Collection

/-- The values an instance is sorted by. -/
def sortKey (orders : List (Order PropertyPath)) (i : ι) : List Value :=
  orders.map fun o => (valuesAt i o.property).headD .null

/-- Compares two sort keys, value by value. -/
def compareKeys : List Direction → List Value → List Value → Ordering
  | d :: ds, a :: as, b :: bs => (d.order a b).then (compareKeys ds as bs)
  | _, _, _ => .eq

/-- The positions of instances in sorted order; instances with equal keys keep theirs. Keys are
large and are sorted in blocks of four. -/
def sortedPositions (orders : List (Order PropertyPath)) (items : List ι) : List Nat :=
  let directions := orders.map Order.direction
  let keyed := (items.map (sortKey orders)).zipIdx
  (Sorting.sort (fun a b => compareKeys directions a.1 b.1 == .lt) .four keyed).map Prod.snd

/-- Sorts instances: they are put where their keys belong. -/
def sort (orders : List (Order PropertyPath)) (items : List ι) : List ι :=
  if orders.isEmpty then items
  else
    match Permute.rearrange? items.toArray (sortedPositions orders items).toArray with
    | some sorted => sorted.toList
    | none => items

/-- The instances that a query accepts, sorted as it asks. -/
def findAll (items : List ι) (q : PreparedQuery) : Except QueryError (List ι) :=
  match q.predicate with
  | none => .ok (sort q.orders items)
  | some p =>
    match Filter.compile p with
    | .error e => .error (.evaluation e)
    | .ok f => .ok (sort q.orders (items.filter fun i => f.accepts i))

end Collection

end EntityQuery
