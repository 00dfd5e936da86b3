import EntityQuery.Criteria
import EntityQuery.Criteria.Mapping
import EntityQuery.Condition
import EntityQuery.Execution.Error

/-!
Relational queries of prepared queries.

A single-valued association becomes a join, shared by all conditions and sort clauses of a scope
that follow the same path. A step through a collection becomes a sub-query with a scope of its own.
Tables are numbered in the order in which they come up, across all scopes.
-/

namespace EntityQuery

/-- A table within a query, with the mapping of its entity type. -/
structure MappedTable where
  name : Alias
  mapping : EntityMapping
  deriving DecidableEq

/-- The tables that a restriction sees: the root table and the joins made so far, by the path of
associations that they follow. -/
structure TableScope where
  root : MappedTable
  source : Source
  joined : List (String × MappedTable)
  deriving DecidableEq

/-- The rows that hold the elements of a multi-valued property. -/
structure ElementRows where
  source : Source
  /-- The column that points back at the owner. -/
  inner : ColumnRef
  /-- The column with the element: a value or the id of an instance. -/
  element : ColumnRef
  /-- The table of the instances, unless the elements are plain values. -/
  target? : Option MappedTable
  deriving DecidableEq

/-- A result, the scope with the joins made for it, and the next number of a table. -/
abbrev Compiled (α : Type) := Except QueryError (α × TableScope × Nat)

namespace TableScope

/-- The stored form of the first operand. -/
def firstParam (operands : List Value) : SqlValue :=
  SqlValue.ofValue (operands.headD .null)

/-- The restriction on a column; none for the tests of collections. -/
def columnRestriction? (column : ColumnRef) (strategy : Strategy) (operands : List Value) :
    Option Restriction :=
  match strategy with
  | .equality negated =>
    some (.compare column (if negated then .ne else .eq) (firstParam operands))
  | .ordering operator =>
    let comparison := match operator with
      | .gt => .gt
      | .ge => .ge
      | .lt => .lt
      | _ => .le
    some (.compare column comparison (firstParam operands))
  | .pattern ignoreCase negated => some (.like column (firstParam operands) ignoreCase negated)
  | .membership negated => some (.among column (operands.map SqlValue.ofValue) negated)
  | .nullness negated => some (.null column negated)
  | .emptiness _ | .containment _ => none

variable (ms : Mappings)

/-- The mapping of an entity type. -/
def mappingOf (entity : String) : Except QueryError EntityMapping :=
  match ms.entity? entity with
  | some m => .ok m
  | none => .error (.mapping entity "" .noTable)

/-- Where a property is stored. -/
def columnOf (m : EntityMapping) (property : String) : Except QueryError ColumnMapping :=
  match m.property? property with
  | some c => .ok c
  | none => .error (.mapping m.entity property .unmapped)

/-- A scope around the table of an entity type. -/
def openScope (entity : String) (n : Nat) : Except QueryError (TableScope × Nat) :=
  (mappingOf ms entity).map fun m =>
    (⟨⟨⟨'t', n⟩, m⟩, ⟨m.table, ⟨'t', n⟩, []⟩, []⟩, n + 1)

/-- The key of a path of associations with one more at its end. -/
def joinKey (key name : String) : String :=
  if key = "" then name else key ++ "." ++ name

/-- The table at the end of a single-valued association: the one joined before for the same path, or
a new join, which keeps rows without a partner if the association may be missing. -/
def join (scope : TableScope) (key : String) (owner : Alias) (column target : String)
    (nullable : Bool) (n : Nat) : Compiled MappedTable :=
  match scope.joined.lookup key with
  | some t => .ok (t, scope, n)
  | none =>
    match mappingOf ms target with
    | .error e => .error e
    | .ok m =>
      let table : MappedTable := ⟨⟨'t', n⟩, m⟩
      let added : Join :=
        ⟨if nullable then .left else .inner, m.table, table.name, m.idColumn, ⟨owner, column⟩⟩
      .ok (table,
        { scope with
          source := { scope.source with joins := scope.source.joins ++ [added] }
          joined := (key, table) :: scope.joined },
        n + 1)

/-- The rows that hold the elements of a property. -/
def elementRows (m : EntityMapping) (property : String) (n : Nat) :
    ColumnMapping → Except QueryError (ElementRows × Nat)
  | .oneToMany target mappedBy =>
    (mappingOf ms target).map fun t =>
      let name : Alias := ⟨'t', n⟩
      (⟨⟨t.table, name, []⟩, ⟨name, mappedBy⟩, ⟨name, t.idColumn⟩, some ⟨name, t⟩⟩, n + 1)
  | .manyToMany joinTable ownerColumn targetColumn target =>
    (mappingOf ms target).map fun t =>
      let link : Alias := ⟨'j', n⟩
      let name : Alias := ⟨'t', n + 1⟩
      let element : ColumnRef := ⟨link, targetColumn⟩
      (⟨⟨joinTable, link, [⟨.inner, t.table, name, t.idColumn, element⟩]⟩, ⟨link, ownerColumn⟩,
        element, some ⟨name, t⟩⟩, n + 2)
  | .elements table ownerColumn valueColumn =>
    let name : Alias := ⟨'e', n⟩
    .ok (⟨⟨table, name, []⟩, ⟨name, ownerColumn⟩, ⟨name, valueColumn⟩, none⟩, n + 1)
  | .column _ | .manyToOne _ _ => .error (.mapping m.entity property .notMultiValued)

/-- The restriction on a multi-valued property: a sub-query for its rows, without the table of the
instances, which is not needed. -/
def collectionRestriction (table : MappedTable) (leaf : PathSegment) (strategy : Strategy)
    (operands : List Value) (rows : ElementRows) : Except QueryError Restriction :=
  let among (restriction : Option Restriction) (negated : Bool) : Restriction :=
    .subquery { rows.source with joins := [] } rows.inner ⟨table.name, table.mapping.idColumn⟩
      restriction negated
  match strategy with
  | .emptiness negated => .ok (among none (!negated))
  | .containment negated =>
    .ok (among (some (.compare rows.element .eq (firstParam operands))) negated)
  | _ => .error (.mapping table.mapping.entity leaf.name .needsSingle)

/-- The restriction on the property at the end of a path. -/
def leafRestriction (table : MappedTable) (leaf : PathSegment) (strategy : Strategy)
    (operands : List Value) (n : Nat) : Except QueryError (Restriction × Nat) :=
  match columnOf table.mapping leaf.name with
  | .error e => .error e
  | .ok (.column name) | .ok (.manyToOne name _) =>
    match columnRestriction? ⟨table.name, name⟩ strategy operands with
    | some r => .ok (r, n)
    | none => .error (.mapping table.mapping.entity leaf.name .needsCollection)
  | .ok c =>
    match elementRows ms table.mapping leaf.name n c with
    | .error e => .error e
    | .ok (rows, n) =>
      (collectionRestriction table leaf strategy operands rows).map fun r => (r, n)

/-- Follows the steps of a path from a table. -/
def along (leaf : PathSegment) (strategy : Strategy) (operands : List Value) :
    TableScope → MappedTable → String → List PathSegment → Nat → Compiled Restriction
  | scope, table, _, [], n =>
    (leafRestriction ms table leaf strategy operands n).map fun (r, n) => (r, scope, n)
  | scope, table, key, hop :: rest, n =>
    match columnOf table.mapping hop.name with
    | .error e => .error e
    | .ok column =>
      if hop.indexed then
        match elementRows ms table.mapping hop.name n column with
        | .error e => .error e
        | .ok (rows, n) =>
          match rows.target? with
          | none => .error (.mapping table.mapping.entity hop.name .plainElements)
          | some target =>
            match along leaf strategy operands ⟨target, rows.source, []⟩ target "" rest n with
            | .error e => .error e
            | .ok (r, inner, n) =>
              .ok (.subquery inner.source rows.inner ⟨table.name, table.mapping.idColumn⟩ (some r)
                false, scope, n)
      else
        match column with
        | .manyToOne name target =>
          match join ms scope (joinKey key hop.name) table.name name target hop.nullable n with
          | .error e => .error e
          | .ok (next, scope, n) =>
            along leaf strategy operands scope next (joinKey key hop.name) rest n
        | _ => .error (.mapping table.mapping.entity hop.name .notSingleValued)

/-- The restriction of a condition. -/
def conditionRestriction (scope : TableScope) (c : Condition) (n : Nat) : Compiled Restriction :=
  match Strategy.require c.operator c.property.kind with
  | .error e => .error (.evaluation e)
  | .ok strategy =>
    along ms c.property.leaf strategy c.operands scope scope.root "" c.property.parents n

mutual

/-- The restriction of a predicate. -/
def restriction (scope : TableScope) (n : Nat) : Predicate Condition → Compiled Restriction
  | .cond c => conditionRestriction ms scope c n
  | .and children => (restrictions scope n children).map fun (rs, rest) => (.and rs, rest)
  | .or children => (restrictions scope n children).map fun (rs, rest) => (.or rs, rest)

/-- The restrictions of a list of predicates. -/
def restrictions (scope : TableScope) (n : Nat) :
    List (Predicate Condition) → Compiled (List Restriction)
  | [] => .ok ([], scope, n)
  | p :: ps =>
    match restriction scope n p with
    | .error e => .error e
    | .ok (r, scope, n) => (restrictions scope n ps).map fun (rs, rest) => (r :: rs, rest)

end

/-- Follows the associations of a sort clause from a table. -/
def sortTable :
    TableScope → MappedTable → String → List PathSegment → Nat → Compiled MappedTable
  | scope, table, _, [], n => .ok (table, scope, n)
  | scope, table, key, hop :: rest, n =>
    match columnOf table.mapping hop.name with
    | .error e => .error e
    | .ok (.manyToOne name target) =>
      match join ms scope (joinKey key hop.name) table.name name target hop.nullable n with
      | .error e => .error e
      | .ok (next, scope, n) => sortTable scope next (joinKey key hop.name) rest n
    | .ok _ => .error (.mapping table.mapping.entity hop.name .unsortableAssociation)

/-- The column of a sort clause. -/
def sortColumn (scope : TableScope) (o : Order PropertyPath) (n : Nat) :
    Compiled (ColumnRef × Direction) :=
  match sortTable ms scope scope.root "" o.property.parents n with
  | .error e => .error e
  | .ok (table, scope, n) =>
    match table.mapping.property? o.property.leaf.name with
    | some (.column name) | some (.manyToOne name _) =>
      .ok ((⟨table.name, name⟩, o.direction), scope, n)
    | _ => .error (.mapping table.mapping.entity o.property.leaf.name .unsortable)

/-- The columns of sort clauses. -/
def sortColumns (scope : TableScope) (n : Nat) :
    List (Order PropertyPath) → Compiled (List (ColumnRef × Direction))
  | [] => .ok ([], scope, n)
  | o :: os =>
    match sortColumn ms scope o n with
    | .error e => .error e
    | .ok (c, scope, n) => (sortColumns scope n os).map fun (cs, rest) => (c :: cs, rest)

/-- The restriction of a query's predicate, if it has one. -/
def queryRestriction (scope : TableScope) (n : Nat) :
    Option (Predicate Condition) → Compiled (Option Restriction)
  | none => .ok (none, scope, n)
  | some p => (restriction ms scope n p).map fun (r, rest) => (some r, rest)

end TableScope

/-- The relational query of a prepared query on an entity type. -/
def Criteria.compile (ms : Mappings) (entity : String) (q : PreparedQuery) :
    Except QueryError Criteria :=
  match TableScope.openScope ms entity 0 with
  | .error e => .error e
  | .ok (scope, n) =>
    match TableScope.queryRestriction ms scope n q.predicate with
    | .error e => .error e
    | .ok (r, scope, n) =>
      (TableScope.sortColumns ms scope n q.orders).map fun (cs, scope, _) =>
        ⟨scope.source, r, cs, none⟩

end EntityQuery
