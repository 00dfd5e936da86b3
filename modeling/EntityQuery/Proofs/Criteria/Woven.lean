import EntityQuery.Proofs.Criteria.Blank
import EntityQuery.Proofs.Text.Numeral
import Mathlib.Data.List.Forall2

/-!
# Text and placeholders

SQL is put together from parts that have placeholders and from text that has none. If names have no
question mark, a restriction has a placeholder for each value that it compares a column with, and a
junction has its operands in their order.
-/

namespace EntityQuery

/-! ### Text without placeholders -/

/-- A text without a placeholder. -/
def Markless (s : String) : Prop :=
  '?' ∉ s.toList

instance (s : String) : Decidable (Markless s) :=
  inferInstanceAs (Decidable ('?' ∉ s.toList))

@[simp] lemma markless_append {s t : String} : Markless (s ++ t) ↔ Markless s ∧ Markless t := by
  simp [Markless]

/-- SQL that has some parameters, and as many placeholders. -/
structure Sql.Binds (s : Sql) (vs : List SqlValue) : Prop where
  params : s.params = vs
  marks : s.text.toList.count '?' = vs.length

/-- SQL that is put together from parts, in their order, and text without placeholders. -/
inductive Sql.Woven : Sql → List Sql → Prop
  | raw {s : String} (h : Markless s) : Woven (.raw s) []
  | part (a : Sql) : Woven a [a]
  | append {a b : Sql} {as bs : List Sql} (ha : Woven a as) (hb : Woven b bs) :
    Woven (a ++ b) (as ++ bs)

namespace Sql

variable {a b : Sql} {as : List Sql} {vs ws : List SqlValue}

namespace Binds

lemma raw {s : String} (h : Markless s) : (Sql.raw s).Binds [] :=
  ⟨rfl, List.count_eq_zero.mpr h⟩

lemma param (v : SqlValue) : (Sql.param v).Binds [v] :=
  ⟨rfl, by simp⟩

lemma append (ha : a.Binds vs) (hb : b.Binds ws) : (a ++ b).Binds (vs ++ ws) := by
  refine ⟨?_, ?_⟩
  · exact congrArg₂ _ ha.params hb.params
  · rw [Sql.text_append, String.toList_append, List.count_append, ha.marks, hb.marks,
      List.length_append]

/-- Text in front of SQL. -/
lemma after {s : String} (h : Markless s) (ha : a.Binds vs) : (Sql.raw s ++ a).Binds vs :=
  (raw h).append ha

/-- Text behind SQL. -/
lemma before {s : String} (h : Markless s) (ha : a.Binds vs) : (a ++ Sql.raw s).Binds vs := by
  have happend := ha.append (raw h)
  rwa [List.append_nil] at happend

end Binds

namespace Woven

/-- Text in front of SQL. -/
lemma after {s : String} (h : Markless s) (ha : a.Woven as) : (Sql.raw s ++ a).Woven as :=
  (raw h).append ha

/-- Text behind SQL. -/
lemma before {s : String} (h : Markless s) (ha : a.Woven as) : (a ++ Sql.raw s).Woven as := by
  have happend := ha.append (raw h)
  rwa [List.append_nil] at happend

lemma separated {separator : String} (h : Markless separator) {as : List Sql}
    {parts : List (List Sql)} (has : List.Forall₂ Woven as parts) :
    (Sql.separated separator as).Woven parts.flatten := by
  induction has with
  | nil => exact raw (by decide)
  | @cons a ps as parts ha has ih =>
    rw [List.flatten_cons]
    cases has with
    | nil =>
      rw [List.flatten_nil, List.append_nil]
      exact ha
    | cons => exact (ha.before h).append ih

/-- The parameters are those of the parts, one part after the other. -/
lemma binds (ha : a.Woven as) (has : ∀ p ∈ as, p.Binds p.params) :
    a.Binds (as.flatMap Sql.params) := by
  induction ha with
  | raw h => exact .raw h
  | part a =>
    rw [List.flatMap_singleton]
    exact has a (List.mem_singleton_self a)
  | append _ _ iha ihb =>
    rw [List.flatMap_append]
    exact (iha fun p hp => has p (List.mem_append_left _ hp)).append
      (ihb fun p hp => has p (List.mem_append_right _ hp))

end Woven

end Sql

/-! ### Names -/

lemma markless_alias {letter : Char} (h : letter ≠ '?') (n : Nat) :
    Markless (Alias.text ⟨letter, n⟩) := by
  have hnumber : '?' ∉ (Text.integerText (n : Int)).toList := by
    intro hmem
    rw [Text.integerText, String.toList_ofList, if_neg (by omega)] at hmem
    cases Text.isDigit_of_mem_numeral hmem
  simpa [Markless, Alias.text] using ⟨h.symm, hnumber⟩

lemma markless_column {a : Alias} {column : String} (ha : Markless a.text)
    (hcolumn : Markless column) : Markless (ColumnRef.text ⟨a, column⟩) := by
  simp +decide [ColumnRef.text, ha, hcolumn]

lemma markless_source {table : String} {a : Alias} (htable : Markless table)
    (ha : Markless a.text) : Markless (Source.sql ⟨table, a, []⟩) := by
  simp +decide [Source.sql, htable, ha]

lemma Source.sql_append (s : Source) (j : Join) :
    Source.sql { s with joins := s.joins ++ [j] } = s.sql ++ j.sql := by
  simp [sql]

/-- The text of a join has no placeholder. -/
lemma markless_join {j : Join} (table : Markless j.table) (name : Markless j.name.text)
    (column : Markless j.column) (owner : Markless j.owner.text) : Markless j.sql := by
  cases hkind : j.kind <;> simp +decide [Join.sql, hkind, table, name, column, owner]

/-! ### Restrictions -/

namespace Restriction

variable {column inner outer : ColumnRef} {source : Source} {vs : List SqlValue}

@[simp] lemma markless_notSql (negated : Bool) : Markless (notSql negated) := by
  cases negated <;> decide

lemma binds_compare (hcolumn : Markless column.text) (comparison : Comparison) (v : SqlValue) :
    (compare column comparison v).sql.Binds [v] := by
  have hsign : Markless comparison.sql := by
    cases comparison <;> decide
  exact .after (by simp +decide [hcolumn, hsign]) (.param v)

lemma binds_like (hcolumn : Markless column.text) (v : SqlValue) (ignoreCase negated : Bool) :
    (like column v ignoreCase negated).sql.Binds [v] := by
  rw [sql]
  refine .before (by decide) ?_
  cases ignoreCase with
  | true => exact .before (by decide) (.after (by simp +decide [hcolumn]) (.param v))
  | false => exact .after (by simp +decide [hcolumn]) (.param v)

lemma binds_among (hcolumn : Markless column.text) (vs : List SqlValue) (negated : Bool) :
    (among column vs negated).sql.Binds vs := by
  have hparts : List.Forall₂ Sql.Woven (vs.map .param) (vs.map fun v => [.param v]) := by
    rw [List.forall₂_map_left_iff, List.forall₂_map_right_iff]
    exact List.forall₂_same.mpr fun v _ => .part _
  have hmarkless : Markless ", " := by
    decide
  have hseparated : (Sql.separated ", " (vs.map .param)).Binds vs := by
    have hbinds := (Sql.Woven.separated hmarkless hparts).binds fun p hp => by
      obtain ⟨v, -, rfl⟩ : ∃ v ∈ vs, .param v = p := by simpa [eq_comm] using hp
      exact .param v
    simpa [← List.flatMap_def, List.flatMap_assoc, Sql.param] using hbinds
  exact .before (by decide) (.after (by simp +decide [hcolumn]) hseparated)

lemma binds_null (hcolumn : Markless column.text) (negated : Bool) :
    (null column negated).sql.Binds [] :=
  .raw (by simp +decide [hcolumn])

/-- A sub-query has the parameters of the restriction inside it. -/
lemma binds_subquery {r? : Option Restriction} (hsource : Markless source.sql)
    (hinner : Markless inner.text) (houter : Markless outer.text) (negated : Bool)
    (h : (sqlInner r?).Binds vs) : (subquery source inner outer r? negated).sql.Binds vs :=
  .before (by decide) (.after (by simp +decide [hsource, hinner, houter]) h)

lemma binds_inner {r : Restriction} (h : r.sql.Binds vs) : (sqlInner (some r)).Binds vs :=
  .before (by decide) (.after (by decide) h)

/-- A junction is put together from the parts of its children, one child after the other. -/
lemma woven_all {rs : List Restriction} {parts : List (List Sql)}
    (h : List.Forall₂ (fun r as => r.sql.Woven as) rs parts) :
    List.Forall₂ Sql.Woven (sqlAll rs) parts := by
  induction h with
  | nil => exact .nil
  | cons h _ ih => exact .cons (.before (by decide) (.after (by decide) h)) ih

lemma woven_junction {rs : List Restriction} {parts : List (List Sql)}
    (h : List.Forall₂ (fun r as => r.sql.Woven as) rs parts) :
    (and rs).sql.Woven parts.flatten ∧ (or rs).sql.Woven parts.flatten := by
  have hall := woven_all h
  cases h with
  | nil => exact ⟨.raw (by decide), .raw (by decide)⟩
  | cons => exact ⟨.separated (by decide) hall, .separated (by decide) hall⟩

end Restriction

/-! ### Sort columns and pages -/

namespace Criteria

lemma markless_ordersSql {c : Criteria} (h : ∀ column ∈ c.orders, Markless column.1.text) :
    Markless c.ordersSql := by
  have hfold : ∀ (orders : List (ColumnRef × Direction)) (text : String), Markless text →
      (∀ column ∈ orders, Markless column.1.text) →
      Markless (orders.foldl (fun text column =>
        text ++ column.1.text ++ " " ++ column.2.text ++ ", ") text) := by
    intro orders
    induction orders with
    | nil => exact fun text htext _ => htext
    | cons column orders ih =>
      intro text htext hall
      obtain ⟨hcolumn, hall⟩ := List.forall_mem_cons.mp hall
      have hdirection : Markless column.2.text := by
        cases column.2 <;> decide
      exact ih _ (by simp +decide [htext, hcolumn, hdirection]) hall
  exact hfold c.orders "" (by decide) h

lemma woven_pageSql (r : PageRequest) :
    (pageSql r).Woven [.param (rowCount r.size.toNat), .param (rowCount r.offset)] :=
  .append (.before (by decide) (.after (by decide) (.part _))) (.part _)

end Criteria

end EntityQuery
