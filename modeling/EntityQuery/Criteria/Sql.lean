import EntityQuery.Criteria

/-!
The SQL text of relational queries. Operands never become part of the text: each stands there as a
question mark, and the parameters follow in the order of the question marks.
-/

namespace EntityQuery

/-- SQL text with its parameters. -/
structure Sql where
  text : String
  params : List SqlValue
  deriving DecidableEq

namespace Sql

/-- Text without parameters. -/
def raw (s : String) : Sql :=
  ⟨s, []⟩

/-- A parameter. -/
def param (v : SqlValue) : Sql :=
  ⟨"?", [v]⟩

/-- One text after the other. -/
def append (a b : Sql) : Sql :=
  ⟨a.text ++ b.text, a.params ++ b.params⟩

instance : Append Sql := ⟨append⟩

/-- Texts with a separator between them. -/
def separated (separator : String) : List Sql → Sql
  | [] => raw ""
  | [a] => a
  | a :: rest => a ++ raw separator ++ separated separator rest

end Sql

/-- The text of a join. -/
def Join.sql (j : Join) : String :=
  (match j.kind with
    | .inner => " JOIN "
    | .left => " LEFT JOIN ")
    ++ j.table ++ " " ++ j.name.text ++ " ON " ++ j.name.text ++ "." ++ j.column ++ " = "
    ++ j.owner.text

/-- The text of a table with its joins. -/
def Source.sql (s : Source) : String :=
  s.joins.foldl (fun text j => text ++ j.sql) (s.table ++ " " ++ s.name.text)

/-- The sign of a comparison. -/
def Comparison.sql : Comparison → String
  | eq => "="
  | ne => "<>"
  | gt => ">"
  | ge => ">="
  | lt => "<"
  | le => "<="

namespace Restriction

/-- The word of a negation, with a blank after it. -/
def notSql (negated : Bool) : String :=
  if negated then "NOT " else ""

mutual

/-- The text of a restriction. -/
def sql : Restriction → Sql
  | and [] => .raw "1 = 1"
  | and children => .separated " AND " (sqlAll children)
  | or [] => .raw "1 = 0"
  | or children => .separated " OR " (sqlAll children)
  | compare column comparison value =>
    .raw (column.text ++ " " ++ comparison.sql ++ " ") ++ .param value
  | like column pattern ignoreCase negated =>
    (if ignoreCase then
      .raw ("LOWER(" ++ column.text ++ ") " ++ notSql negated ++ "LIKE LOWER(") ++ .param pattern
        ++ .raw ")"
    else .raw (column.text ++ " " ++ notSql negated ++ "LIKE ") ++ .param pattern)
      ++ .raw " ESCAPE '\\'"
  | among column values negated =>
    .raw (column.text ++ " " ++ notSql negated ++ "IN (") ++ .separated ", " (values.map .param)
      ++ .raw ")"
  | null column negated => .raw (column.text ++ " IS " ++ notSql negated ++ "NULL")
  | subquery source inner outer restriction negated =>
    .raw (notSql negated ++ "EXISTS (SELECT 1 FROM " ++ source.sql ++ " WHERE " ++ inner.text
      ++ " = " ++ outer.text) ++ sqlInner restriction ++ .raw ")"

/-- The texts of the operands of a junction, in parentheses. -/
def sqlAll : List Restriction → List Sql
  | [] => []
  | r :: rs => (.raw "(" ++ sql r ++ .raw ")") :: sqlAll rs

/-- The text of the restriction inside a sub-query, if there is one. -/
def sqlInner : Option Restriction → Sql
  | none => .raw ""
  | some r => .raw " AND (" ++ sql r ++ .raw ")"

end

end Restriction

namespace Criteria

/-- The table and the restriction. -/
def bodySql (c : Criteria) : Sql :=
  .raw (" FROM " ++ c.source.sql)
    ++ (match c.restriction with
      | none => .raw ""
      | some r => .raw " WHERE " ++ r.sql)

/-- The sort columns, each with a comma after it. -/
def ordersSql (c : Criteria) : String :=
  c.orders.foldl (fun text (column, direction) =>
    text ++ column.text ++ " " ++ direction.text ++ ", ") ""

/-- A number of rows as a parameter, as large as a 64-bit integer can be. -/
def rowCount (n : Nat) : SqlValue :=
  .integer (Int64.ofNat (min n (Nat.pow 2 63 - 1)))

/-- The size and the offset of a page. -/
def pageSql (r : PageRequest) : Sql :=
  .raw " LIMIT " ++ .param (rowCount r.size.toNat) ++ .raw " OFFSET " ++ .param (rowCount r.offset)

/-- The query for the rows, in order; rows that tie keep the order in which they were stored. -/
def selectSql (c : Criteria) : Sql :=
  .raw ("SELECT " ++ c.source.name.text ++ ".*") ++ c.bodySql
    ++ .raw (" ORDER BY " ++ c.ordersSql ++ c.source.name.text ++ ".rowid")
    ++ (match c.page with
      | none => .raw ""
      | some r => pageSql r)

/-- The query for the number of rows on all pages. -/
def countSql (c : Criteria) : Sql :=
  .raw "SELECT COUNT(*)" ++ c.bodySql

end Criteria

end EntityQuery
