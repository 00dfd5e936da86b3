import EntityQuery.Proofs.Criteria.Steps
import EntityQuery.Proofs.Criteria.Woven

/-!
# Operands are parameters

The SQL text of a query has a placeholder for each operand and for nothing else, in the order of the
conditions. Tables and columns bring none into it, as long as their names have no question mark.
-/

namespace EntityQuery

/-! ### Names without question marks -/

/-- A place in the database whose tables and columns have names without a question mark. -/
def ColumnMapping.Unmarked : ColumnMapping → Prop
  | .column name => Markless name
  | .manyToOne name _ => Markless name
  | .oneToMany _ mappedBy => Markless mappedBy
  | .manyToMany joinTable ownerColumn targetColumn _ =>
    Markless joinTable ∧ Markless ownerColumn ∧
      Markless targetColumn
  | .elements table ownerColumn valueColumn =>
    Markless table ∧ Markless ownerColumn ∧
      Markless valueColumn

/-- A mapping whose tables and columns have names without a question mark. -/
structure EntityMapping.Unmarked (m : EntityMapping) : Prop where
  table : Markless m.table
  idColumn : Markless m.idColumn
  properties : ∀ p ∈ m.properties, p.2.Unmarked

/-- Mappings whose tables and columns have names without a question mark. -/
def Mappings.Unmarked (ms : Mappings) : Prop :=
  ∀ m ∈ ms.entities, m.Unmarked

/-- A table in a query whose names have no question mark. -/
structure MappedTable.Unmarked (t : MappedTable) : Prop where
  name : Markless t.name.text
  mapping : t.mapping.Unmarked

/-- The text of the tables of a scope has no placeholder. -/
structure TableScope.Unmarked (scope : TableScope) : Prop where
  root : scope.root.Unmarked
  name : Markless scope.source.name.text
  source : Markless scope.source.sql
  joined : ∀ entry ∈ scope.joined, entry.2.Unmarked

/-- The text of the rows of a property has no placeholder. -/
structure ElementRows.Unmarked (rows : ElementRows) : Prop where
  name : Markless rows.source.name.text
  table : Markless rows.source.table
  source : Markless rows.source.sql
  inner : Markless rows.inner.text
  element : Markless rows.element.text
  target : ∀ t ∈ rows.target?, t.Unmarked

namespace TableScope

variable {ms : Mappings} {scope scope' : TableScope} {n n' : Nat} {table : MappedTable}

lemma unmarked_mappingOf (unmarked : ms.Unmarked) {entity : String} {m : EntityMapping}
    (h : mappingOf ms entity = .ok m) : m.Unmarked := by
  unfold mappingOf at h
  split at h
  · rename_i m' hfind
    obtain rfl := Except.ok.inj h
    exact unmarked m' (List.mem_of_find?_eq_some hfind)
  · cases h

lemma unmarked_columnOf {m : EntityMapping} (unmarked : m.Unmarked) {property : String}
    {c : ColumnMapping} (h : columnOf m property = .ok c) : c.Unmarked := by
  unfold columnOf at h
  split at h
  · rename_i c' hlookup
    obtain rfl := Except.ok.inj h
    exact unmarked.properties _ (mem_of_lookup hlookup)
  · cases h

/-- **Joins** bring no placeholder into the text. -/
lemma unmarked_of_join (unmarked : ms.Unmarked) {key column target : String} {owner : Alias}
    {nullable : Bool} {next : MappedTable} (hscope : scope.Unmarked)
    (howner : Markless owner.text) (hcolumn : Markless column)
    (h : join ms scope key owner column target nullable n = .ok (next, scope', n')) :
    next.Unmarked ∧ scope'.Unmarked := by
  obtain ⟨hlookup, rfl, -⟩ | ⟨m, -, hm, rfl, rfl, -⟩ := found_or_added_of_join h
  · exact ⟨hscope.joined _ (mem_of_lookup hlookup), hscope⟩
  · have hmapping := unmarked_mappingOf unmarked hm
    have hname : Markless (Alias.text ⟨'t', n⟩) := markless_alias (by decide) n
    have hjoin : Markless (Join.sql ⟨if nullable then .left else .inner, m.table, ⟨'t', n⟩,
        m.idColumn, ⟨owner, column⟩⟩) :=
      markless_join hmapping.table hname hmapping.idColumn (markless_column howner hcolumn)
    refine ⟨⟨hname, hmapping⟩, hscope.root, hscope.name, ?_, ?_⟩
    · rw [Storage.added, Source.sql_append]
      exact markless_append.mpr ⟨hscope.source, hjoin⟩
    · exact List.forall_mem_cons.mpr ⟨⟨hname, hmapping⟩, hscope.joined⟩

/-- The rows of a property bring no placeholder into the text. -/
lemma unmarked_of_elementRows (unmarked : ms.Unmarked) {m : EntityMapping} {property : String}
    {c : ColumnMapping} {rows : ElementRows} (hc : c.Unmarked)
    (h : elementRows ms m property n c = .ok (rows, n')) : rows.Unmarked := by
  unfold elementRows at h
  split at h
  · obtain ⟨t, ht, hrows⟩ := exists_of_map_eq_ok h
    cases hrows
    have hmapping := unmarked_mappingOf unmarked ht
    have hname : Markless (Alias.text ⟨'t', n⟩) := markless_alias (by decide) n
    exact ⟨hname, hmapping.table, markless_source hmapping.table hname, markless_column hname hc,
      markless_column hname hmapping.idColumn, by simpa using ⟨hname, hmapping⟩⟩
  · obtain ⟨t, ht, hrows⟩ := exists_of_map_eq_ok h
    cases hrows
    obtain ⟨htable, howner, htarget⟩ := hc
    have hmapping := unmarked_mappingOf unmarked ht
    have hlink : Markless (Alias.text ⟨'j', n⟩) := markless_alias (by decide) n
    have hname : Markless (Alias.text ⟨'t', n + 1⟩) := markless_alias (by decide) (n + 1)
    have helement := markless_column hlink htarget
    refine ⟨hlink, htable, ?_, markless_column hlink howner, helement,
      by simpa using ⟨hname, hmapping⟩⟩
    exact markless_append.mpr ⟨markless_source htable hlink,
      markless_join (j := ⟨.inner, _, _, _, _⟩) hmapping.table hname hmapping.idColumn helement⟩
  · cases h
    obtain ⟨htable, howner, hvalue⟩ := hc
    have hname : Markless (Alias.text ⟨'e', n⟩) := markless_alias (by decide) n
    exact ⟨hname, htable, markless_source htable hname, markless_column hname howner,
      markless_column hname hvalue, by simp⟩
  · cases h
  · cases h

end TableScope

/-! ### Conditions -/

/-- How many operands an operator takes; any number if it takes a list. -/
def Operator.operandCount? (o : Operator) : Option Nat :=
  if o.takesList then none else some (if o.isUnary then 0 else 1)

/-- A condition with as many operands as its operator takes. -/
def Condition.Saturated (c : Condition) : Prop :=
  ∀ count ∈ c.operator.operandCount?, c.operands.length = count

lemma Strategy.operandCount?_eq {operator : Operator} {kind : PropertyKind} {s : Strategy}
    (h : of? operator kind = some s) : s.operandCount? = operator.operandCount? := by
  cases operator <;> cases kind <;> simp [of?] at h <;> subst h <;> rfl

/-- The parameters of a condition: the stored forms of its operands. -/
def Condition.params (c : Condition) : List SqlValue :=
  c.operands.map SqlValue.ofValue

/-- SQL that a condition is compiled to somewhere in a query. It has a placeholder for each operand.
-/
structure Condition.WrittenAs (ms : Mappings) (c : Condition) (a : Sql) : Prop where
  restriction : ∃ scope n r scope' n',
    TableScope.conditionRestriction ms scope c n = .ok (r, scope', n') ∧ r.sql = a
  binds : a.Binds c.params

/-- SQL in which conditions are written in their order, each at one place, with some parameters
after them. It has placeholders for the operands of the conditions and for these parameters, and for
nothing else. -/
structure Sql.Writes (ms : Mappings) (a : Sql) (cs : List Condition) (vs : List SqlValue) :
    Prop where
  places : ∃ parts, List.Forall₂ (Condition.WrittenAs ms) cs parts ∧
    a.Woven (parts ++ vs.map .param)
  binds : a.Binds (cs.flatMap Condition.params ++ vs)

namespace Sql.Writes

variable {ms : Mappings} {a : Sql} {cs : List Condition} {vs : List SqlValue}

lemma of_woven {parts : List Sql} (written : List.Forall₂ (Condition.WrittenAs ms) cs parts)
    (woven : a.Woven (parts ++ vs.map .param)) : a.Writes ms cs vs := by
  refine ⟨⟨parts, written, woven⟩, ?_⟩
  have hparts : (∀ p ∈ parts, p.Binds p.params) ∧
      parts.flatMap Sql.params = cs.flatMap Condition.params := by
    clear woven
    induction written with
    | nil => simp
    | cons h _ ih =>
      rw [List.flatMap_cons, List.flatMap_cons, ih.2, h.binds.params, List.forall_mem_cons,
        h.binds.params]
      exact ⟨⟨h.binds, ih.1⟩, rfl⟩
  have hbinds := woven.binds fun p hp => by
    obtain hp | hp := List.mem_append.mp hp
    · exact hparts.1 p hp
    · obtain ⟨v, -, rfl⟩ := List.mem_map.mp hp
      exact .param v
  rw [List.flatMap_append, hparts.2, List.flatMap_map] at hbinds
  simpa [Sql.param] using hbinds

/-- Text in front of SQL. -/
lemma after {s : String} (h : Markless s) (ha : a.Writes ms cs vs) :
    (Sql.raw s ++ a).Writes ms cs vs := by
  obtain ⟨parts, hwritten, hwoven⟩ := ha.places
  exact of_woven hwritten (hwoven.after h)

/-- Text behind SQL. -/
lemma before {s : String} (h : Markless s) (ha : a.Writes ms cs vs) :
    (a ++ Sql.raw s).Writes ms cs vs := by
  obtain ⟨parts, hwritten, hwoven⟩ := ha.places
  exact of_woven hwritten (hwoven.before h)

/-- Parameters behind SQL. -/
lemma followed {b : Sql} {ws : List SqlValue} (ha : a.Writes ms cs vs)
    (hb : b.Woven (ws.map .param)) : (a ++ b).Writes ms cs (vs ++ ws) := by
  obtain ⟨parts, hwritten, hwoven⟩ := ha.places
  refine of_woven hwritten ?_
  rw [List.map_append, ← List.append_assoc]
  exact hwoven.append hb

end Sql.Writes

namespace TableScope

variable {ms : Mappings} {scope scope' : TableScope} {n n' : Nat} {table : MappedTable}
  {leaf : PathSegment} {s : Strategy} {vs : List Value} {restriction : Restriction}

lemma firstParam_eq (h : vs.length = 1) : [firstParam vs] = vs.map SqlValue.ofValue := by
  obtain ⟨v, rfl⟩ := List.length_eq_one_iff.mp h
  rfl

/-- The restriction on a column has the operands as parameters. -/
lemma binds_column {column : ColumnRef} (hcolumn : Markless column.text)
    (fits : ∀ count ∈ s.operandCount?, vs.length = count)
    (h : columnRestriction? column s vs = some restriction) :
    restriction.sql.Binds (vs.map SqlValue.ofValue) := by
  cases s with
  | equality | ordering =>
    obtain rfl := Option.some.inj h
    rw [← firstParam_eq (fits 1 rfl)]
    exact Restriction.binds_compare hcolumn _ _
  | pattern =>
    obtain rfl := Option.some.inj h
    rw [← firstParam_eq (fits 1 rfl)]
    exact Restriction.binds_like hcolumn _ _ _
  | membership =>
    obtain rfl := Option.some.inj h
    exact Restriction.binds_among hcolumn _ _
  | nullness =>
    obtain rfl := Option.some.inj h
    obtain rfl := List.length_eq_zero_iff.mp (fits 0 rfl)
    exact Restriction.binds_null hcolumn _
  | emptiness | containment => cases h

/-- The restriction on a collection has the operands as parameters. -/
lemma binds_collection {rows : ElementRows} (htable : table.Unmarked) (hrows : rows.Unmarked)
    (fits : ∀ count ∈ s.operandCount?, vs.length = count)
    (h : collectionRestriction table leaf s vs rows = .ok restriction) :
    restriction.sql.Binds (vs.map SqlValue.ofValue) := by
  have hsource : Markless (Source.sql { rows.source with joins := [] }) :=
    markless_source hrows.table hrows.name
  have houter := markless_column htable.name htable.mapping.idColumn
  cases s with
  | emptiness =>
    obtain rfl := Except.ok.inj h
    obtain rfl := List.length_eq_zero_iff.mp (fits 0 rfl)
    exact Restriction.binds_subquery hsource hrows.inner houter _ (.raw (by decide))
  | containment =>
    obtain rfl := Except.ok.inj h
    rw [← firstParam_eq (fits 1 rfl)]
    exact Restriction.binds_subquery hsource hrows.inner houter _
      (Restriction.binds_inner (Restriction.binds_compare hrows.element _ _))
  | _ => cases h

lemma binds_leaf (unmarked : ms.Unmarked) (htable : table.Unmarked)
    (fits : ∀ count ∈ s.operandCount?, vs.length = count)
    (h : leafRestriction ms table leaf s vs n = .ok (restriction, n')) :
    restriction.sql.Binds (vs.map SqlValue.ofValue) := by
  obtain ⟨c, hc, ⟨name, hname, hr, -⟩ | ⟨rows, hrows, hr⟩⟩ := column_or_rows_of_leafRestriction h
  · have hmarkless : Markless name := by
      have hunmarked := unmarked_columnOf htable.mapping hc
      obtain rfl | ⟨target, rfl⟩ := hname <;> exact hunmarked
    exact binds_column (markless_column htable.name hmarkless) fits hr
  · exact binds_collection htable
      (unmarked_of_elementRows unmarked (unmarked_columnOf htable.mapping hc) hrows) fits hr

/-- **Paths** bring no placeholder into the text, and the operands are parameters at their ends. -/
lemma binds_along (unmarked : ms.Unmarked) (fits : ∀ count ∈ s.operandCount?, vs.length = count)
    {key : String} {hops : List PathSegment} (hscope : scope.Unmarked) (htable : table.Unmarked)
    (h : along ms leaf s vs scope table key hops n = .ok (restriction, scope', n')) :
    restriction.sql.Binds (vs.map SqlValue.ofValue) ∧ scope'.Unmarked := by
  induction hops generalizing scope table key n restriction scope' n' with
  | nil =>
    obtain ⟨⟨r, k⟩, hr, hresult⟩ := exists_of_map_eq_ok h
    cases hresult
    exact ⟨binds_leaf unmarked htable fits hr, hscope⟩
  | cons hop rest ih =>
    obtain ⟨c, hc, ⟨-, rows, k, target, inner, r, hrows, htarget, halong, rfl, rfl⟩ |
      ⟨-, name, target, next, scope₁, k, rfl, hjoin, halong⟩⟩ := elements_or_join_of_along h
    · have hunmarked :=
        unmarked_of_elementRows unmarked (unmarked_columnOf htable.mapping hc) hrows
      have hinner : Unmarked ⟨target, rows.source, []⟩ :=
        ⟨hunmarked.target target htarget, hunmarked.name, hunmarked.source, by simp⟩
      obtain ⟨hbinds, hscope'⟩ := ih hinner hinner.root halong
      exact ⟨Restriction.binds_subquery hscope'.source hunmarked.inner
        (markless_column htable.name htable.mapping.idColumn) false
        (Restriction.binds_inner hbinds), hscope⟩
    · obtain ⟨hnext, hscope₁⟩ := unmarked_of_join unmarked hscope htable.name
        (unmarked_columnOf htable.mapping hc) hjoin
      exact ih hscope₁ hnext halong

lemma binds_condition (unmarked : ms.Unmarked) {c : Condition} (saturated : c.Saturated)
    (hscope : scope.Unmarked)
    (h : conditionRestriction ms scope c n = .ok (restriction, scope', n')) :
    restriction.sql.Binds c.params ∧ scope'.Unmarked := by
  obtain ⟨s, hof, halong⟩ := along_of_conditionRestriction h
  refine binds_along unmarked (fun count hcount => ?_) hscope hscope.root halong
  rw [Strategy.operandCount?_eq hof] at hcount
  exact saturated count hcount

/-! ### Predicates and sort clauses -/

/-- **Predicates** write their conditions in the order of the tree. -/
lemma writes_restriction (unmarked : ms.Unmarked) {p : Predicate Condition}
    (saturated : ∀ c ∈ p.conditions, c.Saturated) (hscope : scope.Unmarked)
    (h : TableScope.restriction ms scope n p = .ok (restriction, scope', n')) :
    restriction.sql.Writes ms p.conditions [] ∧ scope'.Unmarked := by
  revert saturated hscope
  refine of_restriction
    (Q := fun scope _ p r scope' _ => (∀ c ∈ p.conditions, c.Saturated) → scope.Unmarked →
      r.sql.Writes ms p.conditions [] ∧ scope'.Unmarked)
    (R := fun scope _ ps rs scope' _ =>
      (∀ c ∈ ps.flatMap Predicate.conditions, c.Saturated) → scope.Unmarked →
        (∃ parts : List (List Sql),
          List.Forall₂ (Condition.WrittenAs ms) (ps.flatMap Predicate.conditions) parts.flatten ∧
          List.Forall₂ (fun r as => r.sql.Woven as) rs parts) ∧ scope'.Unmarked) ?_ ?_ ?_ ?_ h
  · intro scope n c r scope' n' hcondition saturated hscope
    rw [Predicate.conditions_cond] at saturated ⊢
    obtain ⟨hbinds, hscope'⟩ := binds_condition unmarked (saturated c (by simp)) hscope hcondition
    exact ⟨.of_woven (.cons ⟨⟨_, _, _, _, _, hcondition, rfl⟩, hbinds⟩ .nil) (.part _), hscope'⟩
  · exact fun scope n _ hscope => ⟨⟨[], .nil, .nil⟩, hscope⟩
  · intro scope n p r scope₁ k ps rs scope' n' hfirst hothers saturated hscope
    rw [List.flatMap_cons, List.forall_mem_append] at saturated
    obtain ⟨hwrites, hscope₁⟩ := hfirst saturated.1 hscope
    obtain ⟨⟨parts, hwritten', hwoven'⟩, hscope'⟩ := hothers saturated.2 hscope₁
    obtain ⟨as, hwritten, hwoven⟩ := hwrites.places
    rw [List.map_nil, List.append_nil] at hwoven
    refine ⟨⟨as :: parts, ?_, .cons hwoven hwoven'⟩, hscope'⟩
    rw [List.flatMap_cons, List.flatten_cons]
    exact List.rel_append hwritten hwritten'
  · intro scope n ps rs scope' n' j r hall hr saturated hscope
    rw [Predicate.conditions_junction] at saturated ⊢
    obtain ⟨⟨parts, hwritten, hwoven⟩, hscope'⟩ := hall saturated hscope
    refine ⟨.of_woven hwritten ?_, hscope'⟩
    rw [List.map_nil, List.append_nil]
    obtain rfl | rfl := hr
    · exact (Restriction.woven_junction hwoven).1
    · exact (Restriction.woven_junction hwoven).2

lemma writes_queryRestriction (unmarked : ms.Unmarked) {p? : Option (Predicate Condition)}
    {r? : Option Restriction}
    (saturated : ∀ c ∈ p?.toList.flatMap Predicate.conditions, c.Saturated)
    (hscope : scope.Unmarked)
    (h : queryRestriction ms scope n p? = .ok (r?, scope', n')) :
    (match r? with
      | none => Sql.raw ""
      | some r => Sql.raw " WHERE " ++ r.sql).Writes ms
        (p?.toList.flatMap Predicate.conditions) [] ∧ scope'.Unmarked := by
  cases p? with
  | none =>
    cases h
    exact ⟨.of_woven .nil (.raw (by decide)), hscope⟩
  | some p =>
    rw [Option.toList_some, List.flatMap_singleton] at saturated ⊢
    obtain ⟨⟨r, _⟩, hr, hresult⟩ := exists_of_map_eq_ok h
    cases hresult
    obtain ⟨hwrites, hscope'⟩ := writes_restriction unmarked saturated hscope hr
    exact ⟨hwrites.after (by decide), hscope'⟩

lemma unmarked_of_sortTable (unmarked : ms.Unmarked) {key : String} {hops : List PathSegment}
    {last : MappedTable} (hscope : scope.Unmarked) (htable : table.Unmarked)
    (h : sortTable ms scope table key hops n = .ok (last, scope', n')) :
    last.Unmarked ∧ scope'.Unmarked := by
  induction hops generalizing scope table key n with
  | nil =>
    cases h
    exact ⟨htable, hscope⟩
  | cons hop rest ih =>
    obtain ⟨name, target, next, scope₁, k, hc, hjoin, hrest⟩ := join_of_sortTable h
    obtain ⟨hnext, hscope₁⟩ := unmarked_of_join unmarked hscope htable.name
      (unmarked_columnOf htable.mapping hc) hjoin
    exact ih hscope₁ hnext hrest

lemma unmarked_of_sortColumn (unmarked : ms.Unmarked) {o : Order PropertyPath}
    {column : ColumnRef × Direction} (hscope : scope.Unmarked)
    (h : sortColumn ms scope o n = .ok (column, scope', n')) :
    Markless column.1.text ∧ scope'.Unmarked := by
  obtain ⟨last, name, htable, hname, rfl⟩ := sortTable_of_sortColumn h
  obtain ⟨hlast, hscope'⟩ := unmarked_of_sortTable unmarked hscope hscope.root htable
  have hmarkless : Markless name := by
    obtain hname | ⟨target, hname⟩ := hname <;>
      exact hlast.mapping.properties _ (mem_of_lookup hname)
  exact ⟨markless_column hlast.name hmarkless, hscope'⟩

lemma unmarked_of_sortColumns (unmarked : ms.Unmarked) {os : List (Order PropertyPath)}
    {columns : List (ColumnRef × Direction)} (hscope : scope.Unmarked)
    (h : sortColumns ms scope n os = .ok (columns, scope', n')) :
    (∀ column ∈ columns, Markless column.1.text) ∧ scope'.Unmarked := by
  induction os generalizing scope n columns with
  | nil =>
    cases h
    exact ⟨by simp, hscope⟩
  | cons o os ih =>
    obtain ⟨column, scope₁, k, columns', hcolumn, hcolumns, rfl⟩ := cons_of_sortColumns h
    obtain ⟨hmarkless, hscope₁⟩ := unmarked_of_sortColumn unmarked hscope hcolumn
    obtain ⟨hall, hscope'⟩ := ih hscope₁ hcolumns
    exact ⟨List.forall_mem_cons.mpr ⟨hmarkless, hall⟩, hscope'⟩

end TableScope

/-! ### Queries -/

/-- The conditions of a query are written in the order of the tree, and a page has its size and its
offset after them. -/
structure Criteria.Writes (ms : Mappings) (c : Criteria) (cs : List Condition) : Prop where
  select : c.selectSql.Writes ms cs []
  count : c.countSql.Writes ms cs []
  page (r : PageRequest) :
    (c.withPage r).selectSql.Writes ms cs [rowCount r.size.toNat, rowCount r.offset]

/-- The texts of two queries are the same. -/
structure Criteria.SameText (c c' : Criteria) : Prop where
  select : c.selectSql.text = c'.selectSql.text
  count : c.countSql.text = c'.countSql.text
  page (r : PageRequest) : (c.withPage r).selectSql.text = (c'.withPage r).selectSql.text

namespace Criteria

lemma sameText_of_blank {c c' : Criteria} (h : c.blank = c'.blank) : c.SameText c' := by
  have hpage : ∀ r, (c.withPage r).blank = (c'.withPage r).blank := by
    intro r
    exact congrArg (withPage · r) h
  refine ⟨?_, ?_, fun r => ?_⟩
  · rw [← text_selectSql_blank, h, text_selectSql_blank]
  · rw [← text_countSql_blank, h, text_countSql_blank]
  · rw [← text_selectSql_blank, hpage, text_selectSql_blank]

/-- What is written in the table and the restriction is written in the query. -/
lemma writes_of_bodySql {ms : Mappings} {c : Criteria} {cs : List Condition}
    (unpaged : c.page = none) (hname : Markless c.source.name.text)
    (horders : ∀ column ∈ c.orders, Markless column.1.text) (hbody : c.bodySql.Writes ms cs []) :
    c.Writes ms cs := by
  have hselect : Markless ("SELECT " ++ c.source.name.text ++ ".*") := by
    simp +decide [hname]
  have hend : Markless (" ORDER BY " ++ c.ordersSql ++ c.source.name.text ++ ".rowid") := by
    simp +decide [markless_ordersSql horders, hname]
  have hfront := (hbody.after hselect).before hend
  refine ⟨?_, hbody.after (by decide), fun r => hfront.followed (woven_pageSql r)⟩
  rw [selectSql, unpaged]
  exact hfront.before (by decide)

lemma writes_of_compile {ms : Mappings} {entity : String} {q : PreparedQuery} {c : Criteria}
    (unmarked : ms.Unmarked)
    (saturated : ∀ d ∈ q.predicate.toList.flatMap Predicate.conditions, d.Saturated)
    (h : compile ms entity q = .ok c) :
    c.Writes ms (q.predicate.toList.flatMap Predicate.conditions) := by
  obtain ⟨m, scope₁, n₁, scope₂, n₂, hm, hrestriction, hcolumns, hsource, hpage⟩ :=
    scopes_of_compile h
  have hmapping := TableScope.unmarked_mappingOf unmarked hm
  have hname : Markless (Alias.text ⟨'t', 0⟩) := markless_alias (by decide) 0
  have hopen : TableScope.Unmarked ⟨⟨⟨'t', 0⟩, m⟩, ⟨m.table, ⟨'t', 0⟩, []⟩, []⟩ :=
    ⟨⟨hname, hmapping⟩, hname, markless_source hmapping.table hname, by simp⟩
  obtain ⟨hwhere, hscope₁⟩ :=
    TableScope.writes_queryRestriction unmarked saturated hopen hrestriction
  obtain ⟨horders, hscope₂⟩ := TableScope.unmarked_of_sortColumns unmarked hscope₁ hcolumns
  refine writes_of_bodySql hpage (hsource ▸ hscope₂.name) horders ?_
  exact hwhere.after (by simp +decide [hsource, hscope₂.source])

/-- Whether a condition has as many operands as its operator takes does not depend on their
values. -/
lemma saturated_of_blank {q q' : PreparedQuery} (same : q.blank = q'.blank)
    (saturated : ∀ d ∈ q.predicate.toList.flatMap Predicate.conditions, d.Saturated) :
    ∀ d ∈ q'.predicate.toList.flatMap Predicate.conditions, d.Saturated := by
  have hblank : ∀ d : Condition, d.blank.Saturated ↔ d.Saturated := fun d => by
    simp [Condition.Saturated, Condition.blank, Condition.replace]
  have hconditions : ∀ r : PreparedQuery,
      r.blank.predicate.toList.flatMap Predicate.conditions =
        (r.predicate.toList.flatMap Predicate.conditions).map Condition.blank := by
    intro ⟨p?, _⟩
    cases p? with
    | none => rfl
    | some p => simp [PreparedQuery.blank, Predicate.conditions_turned]
  intro d hd
  have hmem : d.blank ∈ q.blank.predicate.toList.flatMap Predicate.conditions := by
    rw [same, hconditions]
    exact List.mem_map_of_mem hd
  rw [hconditions] at hmem
  obtain ⟨d', hd', heq⟩ := List.mem_map.mp hmem
  rw [← hblank, ← heq, hblank]
  exact saturated d' hd'

/-- **Operands are parameters.** Of two queries that differ in the values of operands only, either
neither can be compiled, for the same reason, or they have the same SQL text. The text has the
conditions in the order of the tree, with a placeholder for each operand and for nothing else; that
for a page has two more at its end. -/
theorem compile_operands {ms : Mappings} (unmarked : ms.Unmarked) (entity : String)
    {q q' : PreparedQuery} (same : q.blank = q'.blank)
    (saturated : ∀ d ∈ q.predicate.toList.flatMap Predicate.conditions, d.Saturated) :
    (∃ e, compile ms entity q = .error e ∧ compile ms entity q' = .error e) ∨
    ∃ c c', compile ms entity q = .ok c ∧ compile ms entity q' = .ok c' ∧ c.SameText c' ∧
      c.Writes ms (q.predicate.toList.flatMap Predicate.conditions) ∧
      c'.Writes ms (q'.predicate.toList.flatMap Predicate.conditions) := by
  have hmap : (compile ms entity q).map blank = (compile ms entity q').map blank := by
    rw [← compile_blank, same, compile_blank]
  cases hq : compile ms entity q with
  | error e =>
    rw [hq] at hmap
    cases hq' : compile ms entity q' with
    | error e' =>
      rw [hq'] at hmap
      exact .inl ⟨e, rfl, by rw [Except.error.inj hmap]⟩
    | ok c' => simp [hq', Except.map] at hmap
  | ok c =>
    rw [hq] at hmap
    obtain ⟨c', hq', hblank⟩ := exists_of_map_eq_ok hmap.symm
    exact .inr ⟨c, c', rfl, hq', sameText_of_blank hblank.symm,
      writes_of_compile unmarked saturated hq,
      writes_of_compile unmarked (saturated_of_blank same saturated) hq'⟩

end Criteria

/-! ### Operands that look like SQL -/

namespace Agency

/-- The table of companies, with their tags in a table of their own. -/
def companies : EntityMapping :=
  ((EntityMapping.named "Company" "company" "id").map "group" (.manyToOne "group_id" "Group")).map
    "tags" (.elements "company_tag" "company_id" "tag")

/-- The table of groups. -/
def groups : EntityMapping :=
  (EntityMapping.named "Group" "grp" "id").map "name" (.column "name")

/-- The tables of the entity types. -/
def mappings : Mappings :=
  ⟨[companies, groups]⟩

/-- The path from a company to the name of its group. -/
def groupName : PropertyPath :=
  ⟨[⟨"group", "Company", .entity "Group", true, false⟩], ⟨"name", "Group", .text, true, false⟩⟩

/-- The tags of a company. -/
def tags : PropertyPath :=
  ⟨[], ⟨"tags", "Company", .collection .text, false, false⟩⟩

/-- The query for the companies that have a tag and are in one of two groups. -/
def tagged (a b tag : String) : PreparedQuery :=
  Query.of (.and [.cond ⟨groupName, .isIn, [.text a, .text b]⟩,
    .cond ⟨tags, .contains, [.text tag]⟩])

lemma unmarked : mappings.Unmarked := by
  have hmarkless : ∀ m ∈ mappings.entities, Markless m.table ∧ Markless m.idColumn := by
    decide
  intro m hm
  refine ⟨(hmarkless m hm).1, (hmarkless m hm).2, ?_⟩
  obtain rfl | rfl := List.mem_pair.mp hm <;>
    simp [companies, groups, EntityMapping.map, EntityMapping.named, ColumnMapping.Unmarked,
      Markless]

end Agency

open Agency in
/-- Groups and tags with question marks and quotes in their names are parameters like any other. -/
theorem compile_operands_companies :
    mappings.Unmarked ∧ (tagged "a" "b" "c").blank = (tagged "?" "') OR 1 = 1" "").blank ∧
      (∀ d ∈ (tagged "a" "b" "c").predicate.toList.flatMap Predicate.conditions, d.Saturated) ∧
      ∃ c c', Criteria.compile mappings "Company" (tagged "a" "b" "c") = .ok c ∧
        Criteria.compile mappings "Company" (tagged "?" "') OR 1 = 1" "") = .ok c' ∧
        c.SameText c' ∧ c.selectSql.Binds [.text "a", .text "b", .text "c"] ∧
        c'.selectSql.Binds [.text "?", .text "') OR 1 = 1", .text ""] := by
  have hsame : (tagged "a" "b" "c").blank = (tagged "?" "') OR 1 = 1" "").blank := rfl
  have hsaturated : ∀ d ∈ (tagged "a" "b" "c").predicate.toList.flatMap Predicate.conditions,
      d.Saturated := by
    intro d hd
    obtain rfl | rfl := List.mem_pair.mp hd
    · rintro count ⟨⟩
    · rintro count ⟨⟩
      rfl
  refine ⟨unmarked, hsame, hsaturated, ?_⟩
  obtain ⟨e, he, -⟩ | ⟨c, c', hc, hc', htext, hwrites, hwrites'⟩ :=
    Criteria.compile_operands unmarked "Company" hsame hsaturated
  · exact nomatch (show Except.ok _ = Except.error e from he)
  · exact ⟨c, c', hc, hc', htext, hwrites.select.binds, hwrites'.select.binds⟩

end EntityQuery
