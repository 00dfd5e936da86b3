import EntityQuery.Criteria.Compile
import EntityQuery.Criteria.Sql
import EntityQuery.Proofs.Predicate.Turned

/-!
# Queries without their operands

Taking the operands out of a query and putting nulls in their places commutes with compiling it, and
the SQL text does not tell the difference. So nothing of an operand is in the text.
-/

namespace EntityQuery

/-! ### What is left without operands -/

/-- The condition with a null in the place of every operand. -/
def Condition.blank (c : Condition) : Condition :=
  c.replace c.operator (c.operands.map fun _ => .null)

/-- The query with a null in the place of every operand: what it has in common with the queries that
differ from it in the values of operands only. -/
def PreparedQuery.blank (q : PreparedQuery) : PreparedQuery :=
  ⟨q.predicate.map (Predicate.turned false Condition.blank), q.orders⟩

namespace Restriction

mutual

/-- The restriction with a null in the place of every parameter. -/
def blank : Restriction → Restriction
  | and children => and (blankAll children)
  | or children => or (blankAll children)
  | compare column comparison _ => compare column comparison .null
  | like column _ ignoreCase negated => like column .null ignoreCase negated
  | among column values negated => among column (values.map fun _ => .null) negated
  | null column negated => null column negated
  | subquery source inner outer restriction negated =>
    subquery source inner outer (blankInner restriction) negated

/-- The restrictions with nulls in the places of their parameters. -/
def blankAll : List Restriction → List Restriction
  | [] => []
  | r :: rs => blank r :: blankAll rs

/-- The restriction inside a sub-query with nulls in the places of its parameters. -/
def blankInner : Option Restriction → Option Restriction
  | none => none
  | some r => some (blank r)

end

lemma blankAll_eq_map (rs : List Restriction) : blankAll rs = rs.map blank := by
  induction rs with
  | nil => rfl
  | cons r rs ih => rw [blankAll, ih, List.map_cons]

end Restriction

/-- The relational query with a null in the place of every parameter. -/
def Criteria.blank (c : Criteria) : Criteria :=
  { c with restriction := c.restriction.map Restriction.blank }

/-! ### Compiling -/

namespace TableScope

variable {ms : Mappings}

/-- Changes the result and leaves the scope. -/
def mapResult {α β : Type} (f : α → β) (r : α × TableScope × Nat) : β × TableScope × Nat :=
  (f r.1, r.2)

lemma firstParam_blank (vs : List Value) : firstParam (vs.map fun _ => Value.null) = .null := by
  cases vs <;> rfl

lemma columnRestriction?_blank (column : ColumnRef) (s : Strategy) (vs : List Value) :
    columnRestriction? column s (vs.map fun _ => .null) =
      (columnRestriction? column s vs).map Restriction.blank := by
  cases s <;> simp only [columnRestriction?, firstParam_blank, Option.map_some, Option.map_none,
    Restriction.blank, List.map_map]
  rfl

lemma collectionRestriction_blank (table : MappedTable) (leaf : PathSegment) (s : Strategy)
    (vs : List Value) (rows : ElementRows) :
    collectionRestriction table leaf s (vs.map fun _ => .null) rows =
      (collectionRestriction table leaf s vs rows).map Restriction.blank := by
  cases s <;> simp only [collectionRestriction, firstParam_blank] <;> rfl

lemma leafRestriction_blank (table : MappedTable) (leaf : PathSegment) (s : Strategy)
    (vs : List Value) (n : Nat) :
    leafRestriction ms table leaf s (vs.map fun _ => .null) n =
      (leafRestriction ms table leaf s vs n).map fun r => (r.1.blank, r.2) := by
  unfold leafRestriction
  cases columnOf table.mapping leaf.name with
  | error e => rfl
  | ok c =>
    -- a column of the table itself, or rows of another one
    cases c with
    | column name | manyToOne name _ =>
      simp only [columnRestriction?_blank]
      cases columnRestriction? ⟨table.name, name⟩ s vs <;> rfl
    | _ =>
      simp only [collectionRestriction_blank]
      cases elementRows ms table.mapping leaf.name n _ with
      | error e => rfl
      | ok r =>
        simp only []
        cases collectionRestriction table leaf s vs r.1 <;> rfl

lemma along_blank (leaf : PathSegment) (s : Strategy) (vs : List Value) (scope : TableScope)
    (table : MappedTable) (key : String) (hops : List PathSegment) (n : Nat) :
    along ms leaf s (vs.map fun _ => .null) scope table key hops n =
      (along ms leaf s vs scope table key hops n).map (mapResult Restriction.blank) := by
  induction hops generalizing scope table key n with
  | nil =>
    rw [along, along, leafRestriction_blank]
    cases leafRestriction ms table leaf s vs n <;> rfl
  | cons hop rest ih =>
    rw [along, along]
    cases columnOf table.mapping hop.name with
    | error e => rfl
    | ok column =>
      simp only []
      split
      · cases elementRows ms table.mapping hop.name n column with
        | error e => rfl
        | ok r =>
          simp only []
          cases r.1.target? with
          | none => rfl
          | some target =>
            simp only [ih]
            cases along ms leaf s vs ⟨target, r.1.source, []⟩ target "" rest r.2 <;> rfl
      · cases column with
        | manyToOne name target =>
          simp only []
          cases join ms scope (joinKey key hop.name) table.name name target hop.nullable n with
          | error e => rfl
          | ok r => exact ih r.2.1 r.1 _ r.2.2
        | _ => rfl

lemma conditionRestriction_blank (scope : TableScope) (c : Condition) (n : Nat) :
    conditionRestriction ms scope c.blank n =
      (conditionRestriction ms scope c n).map (mapResult Restriction.blank) := by
  unfold conditionRestriction
  rw [show c.blank.operator = c.operator from rfl, show c.blank.property = c.property from rfl]
  cases Strategy.require c.operator c.property.kind with
  | error e => rfl
  | ok s => exact along_blank _ s c.operands scope scope.root "" c.property.parents n

lemma restrictions_blank {ps : List (Predicate Condition)}
    (h : ∀ p ∈ ps, ∀ scope n, restriction ms scope n (p.turned false Condition.blank) =
      (restriction ms scope n p).map (mapResult Restriction.blank)) (scope : TableScope) (n : Nat) :
    restrictions ms scope n (ps.map (Predicate.turned false Condition.blank)) =
      (restrictions ms scope n ps).map (mapResult (List.map Restriction.blank)) := by
  induction ps generalizing scope n with
  | nil => rfl
  | cons p ps ih =>
    rw [List.map_cons, restrictions, restrictions, h p (by simp)]
    cases restriction ms scope n p with
    | error e => rfl
    | ok r =>
      simp only [Except.map, mapResult]
      rw [ih fun q hq => h q (by simp [hq])]
      cases restrictions ms r.2.1 r.2.2 ps <;> rfl

lemma restriction_blank (p : Predicate Condition) (scope : TableScope) (n : Nat) :
    restriction ms scope n (p.turned false Condition.blank) =
      (restriction ms scope n p).map (mapResult Restriction.blank) := by
  induction p using Predicate.induct generalizing scope n with
  | cond c =>
    rw [Predicate.turned_cond, restriction, restriction]
    exact conditionRestriction_blank scope c n
  | and ps ih =>
    rw [Predicate.turned, Predicate.turnedAll_eq_map]
    simp only [Junction.turned, Predicate.junction, restriction]
    rw [restrictions_blank ih]
    cases restrictions ms scope n ps with
    | error e => rfl
    | ok r => simp [Except.map, mapResult, Restriction.blank, Restriction.blankAll_eq_map]
  | or ps ih =>
    rw [Predicate.turned, Predicate.turnedAll_eq_map]
    simp only [Junction.turned, Predicate.junction, restriction]
    rw [restrictions_blank ih]
    cases restrictions ms scope n ps with
    | error e => rfl
    | ok r => simp [Except.map, mapResult, Restriction.blank, Restriction.blankAll_eq_map]

lemma queryRestriction_blank (p? : Option (Predicate Condition)) (scope : TableScope) (n : Nat) :
    queryRestriction ms scope n (p?.map (Predicate.turned false Condition.blank)) =
      (queryRestriction ms scope n p?).map (mapResult (Option.map Restriction.blank)) := by
  cases p? with
  | none => rfl
  | some p =>
    simp only [Option.map_some, queryRestriction, restriction_blank]
    cases restriction ms scope n p <;> rfl

end TableScope

open TableScope in
/-- **Compiling** does not look at operands: it commutes with taking them out. -/
theorem Criteria.compile_blank (ms : Mappings) (entity : String) (q : PreparedQuery) :
    compile ms entity q.blank = (compile ms entity q).map Criteria.blank := by
  rw [compile, compile]
  cases openScope ms entity 0 with
  | error e => rfl
  | ok r =>
    simp only [PreparedQuery.blank, queryRestriction_blank]
    cases queryRestriction ms r.1 r.2 q.predicate with
    | error e => rfl
    | ok r' =>
      simp only [Except.map, mapResult]
      cases sortColumns ms r'.2.1 r'.2.2 q.orders <;> rfl

/-! ### SQL text -/

namespace Sql

@[simp] lemma text_raw (s : String) : (raw s).text = s := rfl

@[simp] lemma text_param (v : SqlValue) : (param v).text = "?" := rfl

@[simp] lemma text_append (a b : Sql) : (a ++ b).text = a.text ++ b.text := rfl

lemma text_separated (separator : String) (as : List Sql) :
    (separated separator as).text = String.intercalate separator (as.map text) := by
  fun_induction separated separator as with
  | case1 => rfl
  | case2 a => simp
  | case3 a rest hrest ih =>
    obtain ⟨b, rest, rfl⟩ := List.exists_cons_of_ne_nil hrest
    rw [text_append, text_append, text_raw, ih, List.map_cons, List.map_cons, List.map_cons,
      String.intercalate_cons_cons]

end Sql

namespace Restriction

mutual

lemma text_sql_blank : (r : Restriction) → r.blank.sql.text = r.sql.text
  | .and [] => rfl
  | .and (r :: rs) => by
    have hall := text_sqlAll_blank (r :: rs)
    simp only [blank, blankAll] at hall ⊢
    simp only [sql, Sql.text_separated, hall]
  | .or [] => rfl
  | .or (r :: rs) => by
    have hall := text_sqlAll_blank (r :: rs)
    simp only [blank, blankAll] at hall ⊢
    simp only [sql, Sql.text_separated, hall]
  | .compare _ _ _ => rfl
  | .like column pattern ignoreCase negated => by cases ignoreCase <;> rfl
  | .among column values negated => by
    simp [blank, sql, Sql.text_separated, Function.comp_def]
  | .null _ _ => rfl
  | .subquery source inner outer restriction negated => by
    simp [blank, sql, text_sqlInner_blank restriction]

lemma text_sqlAll_blank : (rs : List Restriction) →
    (sqlAll (blankAll rs)).map Sql.text = (sqlAll rs).map Sql.text
  | [] => rfl
  | r :: rs => by simp [blankAll, sqlAll, text_sql_blank r, text_sqlAll_blank rs]

lemma text_sqlInner_blank : (r? : Option Restriction) →
    (sqlInner (blankInner r?)).text = (sqlInner r?).text
  | none => rfl
  | some r => by simp [blankInner, sqlInner, text_sql_blank r]

end

end Restriction

namespace Criteria

lemma text_bodySql_blank (c : Criteria) : c.blank.bodySql.text = c.bodySql.text := by
  obtain ⟨source, r?, orders, page⟩ := c
  cases r? with
  | none => rfl
  | some r => simp [bodySql, blank, Restriction.text_sql_blank]

lemma text_selectSql_blank (c : Criteria) : c.blank.selectSql.text = c.selectSql.text := by
  have hbody := text_bodySql_blank c
  simp only [selectSql, Sql.text_append, hbody]
  rfl

lemma text_countSql_blank (c : Criteria) : c.blank.countSql.text = c.countSql.text := by
  simp only [countSql, Sql.text_append, text_bodySql_blank]

end Criteria

end EntityQuery
