import EntityQuery.Page
import EntityQuery.Query
import EntityQuery.Value

/-!
Relational queries: tables with their joins, a restriction on their rows, sort columns and a page.
-/

namespace EntityQuery

/-- A value as a database stores it. -/
inductive SqlValue where
  | null
  | integer (i : Int64)
  | real (d : Double)
  | text (s : String)
  deriving DecidableEq, Inhabited

/-- The stored form of a value: references as ids, truth values as 0 and 1, dates and date-times as
text whose order is theirs. Lists are not stored in columns. -/
def SqlValue.ofValue (v : Value) : SqlValue :=
  match v.identity with
  | .null | .list _ | .ref _ _ => .null
  | .bool b => .integer (if b then 1 else 0)
  | .int i => .integer i
  | .float d => .real d
  | .text s | .enum s => .text s
  | .date d => .text d.text
  | .dateTime t => .text t.nanosecondText

/-- The name of a table within a query. -/
structure Alias where
  letter : Char
  number : Nat
  deriving DecidableEq

/-- The text of a table name. -/
def Alias.text (a : Alias) : String :=
  String.singleton a.letter ++ Text.integerText a.number

/-- A column of a table within a query. -/
structure ColumnRef where
  table : Alias
  column : String
  deriving DecidableEq

/-- The text of a column. -/
def ColumnRef.text (c : ColumnRef) : String :=
  c.table.text ++ "." ++ c.column

/-- Whether a join drops rows without a partner. -/
inductive JoinKind where
  | inner
  | left
  deriving DecidableEq

/-- A joined table: its rows are those whose column equals a column of a table before it. -/
structure Join where
  kind : JoinKind
  table : String
  name : Alias
  column : String
  owner : ColumnRef
  deriving DecidableEq

/-- A table with its joins. -/
structure Source where
  table : String
  name : Alias
  joins : List Join
  deriving DecidableEq

/-- A comparison of a column with a parameter. -/
inductive Comparison where
  | eq
  | ne
  | gt
  | ge
  | lt
  | le
  deriving DecidableEq

/-- A restriction on rows. -/
inductive Restriction where
  | and (children : List Restriction)
  | or (children : List Restriction)
  | compare (column : ColumnRef) (comparison : Comparison) (value : SqlValue)
  | like (column : ColumnRef) (pattern : SqlValue) (ignoreCase negated : Bool)
  | among (column : ColumnRef) (values : List SqlValue) (negated : Bool)
  | null (column : ColumnRef) (negated : Bool)
  /-- The rows for which a sub-query has a row: one whose `inner` column equals the `outer` column
  of the row and that satisfies a restriction. -/
  | subquery (source : Source) (inner outer : ColumnRef) (restriction : Option Restriction)
      (negated : Bool)

/-- A relational query for the rows of one table. -/
structure Criteria where
  source : Source
  restriction : Option Restriction
  orders : List (ColumnRef × Direction)
  page : Option PageRequest

/-- The query for one page of the rows. -/
def Criteria.withPage (c : Criteria) (r : PageRequest) : Criteria :=
  { c with page := some r }

end EntityQuery
