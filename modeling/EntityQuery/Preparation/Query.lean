import EntityQuery.Preparation.Coerce
import EntityQuery.Preparation.Rule
import EntityQuery.RawQuery.Parse

/-!
Preparing queries.

A query as it is written is resolved, its operands are converted, its conditions are simplified by
rules, and what remains is checked. A prepared query is only checked: against the registry, whose
declarations may have changed, and for operands that can be evaluated.
-/

namespace EntityQuery

/-- Accepts the conditions that can be evaluated. -/
def Condition.check (c : Condition) : Except PrepareError Unit :=
  let refuse (fault : OperandFault) : Except PrepareError Unit :=
    .error (.operand c.property.text (Value.list c.operands).literal c.property.type fault)
  match Strategy.of? c.operator c.property.kind with
  | none => .error (.invalidOperator c.property c.operator)
  | some (.nullness _) | some (.emptiness _) => .ok ()
  | some (.membership _) =>
    if c.operands.isEmpty then refuse .emptyList
    else if c.operands.any Value.isNull then refuse .nullInList
    else .ok ()
  | some strategy =>
    match strategy, c.operands with
    | _, [.null] => refuse .nullCompared
    | .pattern _ _, [.text pattern] =>
      match checkPattern pattern with
      | .ok () => .ok ()
      | .error e => refuse (.badPattern e)
    | .pattern _ _, [_] => refuse .patternNotText
    | _, [_] => .ok ()
    | _, _ => refuse .notSingle

/-- Accepts the paths that single values can be sorted on. -/
def PropertyPath.checkSortable (p : PropertyPath) : Except PrepareError Unit :=
  if p.isMultiValued then .error (.unsortable p .multiValuedPath)
  else if p.type.isCollection then .error (.unsortable p .multiValuedProperty)
  else .ok ()

namespace Registry

/-- Resolves a path from an entity type, with the error of preparation. -/
def pathOf (r : Registry) (entity : EntityDef) (path : String) :
    Except PrepareError PropertyPath :=
  match r.resolve entity.name path with
  | .error e => .error (.resolve e)
  | .ok q => .ok q.path

/-- The operands of a condition on a path, converted to the path's type. -/
def operandsOf (r : Registry) (context : QueryContext) (path : PropertyPath) (c : RawCondition) :
    Except PrepareError (List Value) :=
  let refuse (given : String) (fault : OperandFault) : Except PrepareError (List Value) :=
    .error (.operand path.text given path.type fault)
  match c.operand?, c.operator.isUnary with
  | none, true => .ok []
  | some o, true => refuse o.text (.takesNone c.operator)
  | none, false => refuse "nothing" (.needsOne c.operator)
  | some (.list items), false =>
    if c.operator.acceptsList then r.coerceAll context path.text path.type items
    else refuse (Operand.list items).text (.takesNoList c.operator)
  | some o, false => (r.coerce context path.text path.type o).map fun v => [v]

/-- Applies the rules to a condition until nothing changes. -/
def settle (r : Registry) (c : Condition) : Except PrepareError (Predicate Condition) :=
  Stage.settle (Stage.all r) Condition.check (maxRuleDepth + 1) 0 c

/-- Prepares a condition. -/
def prepareCondition (r : Registry) (context : QueryContext) (entity : EntityDef)
    (c : RawCondition) : Except PrepareError (Predicate Condition) :=
  match r.pathOf entity c.property with
  | .error e => .error e
  | .ok path =>
    match r.operandsOf context path c with
    | .error e => .error e
    | .ok operands => r.settle ⟨path, c.operator, operands⟩

/-- Prepares sort clauses. -/
def prepareOrders (r : Registry) (entity : EntityDef) :
    List (Order String) → Except PrepareError (List (Order PropertyPath))
  | [] => .ok []
  | o :: os =>
    match r.pathOf entity o.property with
    | .error e => .error e
    | .ok path =>
      match path.checkSortable with
      | .error e => .error e
      | .ok () => (r.prepareOrders entity os).map (⟨path, o.direction⟩ :: ·)

/-- The entity type of a name, with the error of preparation. -/
def requireEntity (r : Registry) (name : String) : Except PrepareError EntityDef :=
  match r.entity? name with
  | some e => .ok e
  | none => .error (.resolve (.unknownEntity name))

/-- Resolves a resolved path again; it has to be the same. -/
def revalidate (r : Registry) (entity : EntityDef) (path : PropertyPath) :
    Except PrepareError Unit :=
  match r.pathOf entity path.text with
  | .error e => .error e
  | .ok again =>
    if again = path then .ok () else .error (.resolve (.invalidPath path.text .changed))

/-- Checks prepared conditions again, from left to right. -/
def recheckConditions (r : Registry) (entity : EntityDef) :
    List Condition → Except PrepareError Unit
  | [] => .ok ()
  | c :: cs =>
    match r.revalidate entity c.property with
    | .error e => .error e
    | .ok () =>
      match c.check with
      | .error e => .error e
      | .ok () => r.recheckConditions entity cs

/-- Checks prepared sort clauses again. -/
def recheckOrders (r : Registry) (entity : EntityDef) :
    List (Order PropertyPath) → Except PrepareError Unit
  | [] => .ok ()
  | o :: os =>
    match r.revalidate entity o.property with
    | .error e => .error e
    | .ok () =>
      match o.property.checkSortable with
      | .error e => .error e
      | .ok () => r.recheckOrders entity os

end Registry

/-- Prepares a query for an entity type. -/
def RawQuery.prepare (r : Registry) (context : QueryContext) (entity : String) (q : RawQuery) :
    Except PrepareError PreparedQuery :=
  match r.requireEntity entity with
  | .error e => .error e
  | .ok e =>
    let predicate : Except PrepareError (Option (Predicate Condition)) :=
      match q.predicate with
      | none => .ok none
      | some p => (p.mapM (r.prepareCondition context e)).map some
    match predicate with
    | .error e => .error e
    | .ok predicate => (r.prepareOrders e q.orders).map fun orders => ⟨predicate, orders⟩

/-- Prepares a prepared query for an entity type: it is checked and stays as it is. -/
def PreparedQuery.prepare (r : Registry) (entity : String) (q : PreparedQuery) :
    Except PrepareError PreparedQuery :=
  match r.requireEntity entity with
  | .error e => .error e
  | .ok e =>
    match r.recheckConditions e ((q.predicate.map Predicate.conditions).getD []) with
    | .error e => .error e
    | .ok () => (r.recheckOrders e q.orders).map fun _ => q

/-- What can be prepared: a query as it is written, or one that has been prepared. -/
inductive Preparable where
  | raw (q : RawQuery)
  | prepared (q : PreparedQuery)

/-- Prepares either kind of query for an entity type. A prepared query has no use for the context. -/
def Registry.prepare (r : Registry) (context : QueryContext) (entity : String) :
    Preparable → Except PrepareError PreparedQuery
  | .raw q => q.prepare r context entity
  | .prepared q => q.prepare r entity

/-- Reads and prepares the text of a query. -/
def Registry.prepareText (r : Registry) (context : QueryContext) (entity text : String) :
    Except QueryTextError PreparedQuery :=
  match RawQuery.parse text with
  | .error e => .error (.parse e)
  | .ok q =>
    match q.prepare r context entity with
    | .error e => .error (.prepare e)
    | .ok p => .ok p

end EntityQuery
