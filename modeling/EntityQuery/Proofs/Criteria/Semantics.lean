import EntityQuery.Criteria
import EntityQuery.Proofs.Like.Spelled
import Mathlib.Logic.Function.Basic

/-!
# What relational queries mean

Restrictions are read with the three truth values of SQL: a comparison with null is unknown, and a
row is selected only if its restriction is true. A table name stands for one row at a time; a left
join puts a row of nulls where there is no partner, and a sub-query sees the tables around it. How a
database compares two values that are not null is left open.
-/

namespace EntityQuery

/-- A truth value of SQL. -/
inductive SqlTruth where
  | yes
  | no
  | unknown
  deriving DecidableEq

namespace SqlTruth

/-- The truth value of what is known. -/
def ofBool (b : Bool) : SqlTruth :=
  if b then yes else no

/-- Conjunction: false if one side is, and unknown if only the other side could tell. -/
def and : SqlTruth → SqlTruth → SqlTruth
  | no, _ | _, no => no
  | yes, yes => yes
  | _, _ => unknown

/-- Disjunction: true if one side is, and unknown if only the other side could tell. -/
def or : SqlTruth → SqlTruth → SqlTruth
  | yes, _ | _, yes => yes
  | no, no => no
  | _, _ => unknown

/-- Negation, if so wanted; what is unknown stays unknown. -/
def negate (negated : Bool) : SqlTruth → SqlTruth
  | yes => ofBool !negated
  | no => ofBool negated
  | unknown => unknown

variable {a b : SqlTruth}

@[simp] lemma ofBool_eq_yes {p : Bool} : ofBool p = yes ↔ p = true := by
  cases p <;> decide

@[simp] lemma and_eq_yes : a.and b = yes ↔ a = yes ∧ b = yes := by
  cases a <;> cases b <;> decide

@[simp] lemma or_eq_yes : a.or b = yes ↔ a = yes ∨ b = yes := by
  cases a <;> cases b <;> decide

lemma ofBool_or_ofBool (p q : Bool) : (ofBool p).or (ofBool q) = ofBool (p || q) := by
  cases p <;> cases q <;> rfl

lemma negate_ofBool (p negated : Bool) : negate negated (ofBool p) = ofBool (p != negated) := by
  cases p <;> cases negated <;> rfl

@[simp] lemma negate_unknown (negated : Bool) : negate negated unknown = unknown := rfl

end SqlTruth

/-- A row of a table: the values of its columns. -/
abbrev SqlRow := String → SqlValue

/-- The row that a left join puts where there is no partner. -/
def SqlRow.null : SqlRow :=
  fun _ => .null

/-- A database: the rows of its tables, and how it compares values that are not null. -/
structure Database where
  rows : String → List SqlRow
  compares : Comparison → SqlValue → SqlValue → Bool

/-- The row that each table of a query stands for. -/
abbrev Env := Alias → SqlRow

/-- The value of a column. -/
def Env.column (env : Env) (c : ColumnRef) : SqlValue :=
  env c.table c.column

lemma Env.column_update {a : Alias} {c : ColumnRef} (h : c.table = a) (env : Env) (y : SqlRow) :
    column (Function.update env a y) c = y c.column := by
  rw [column, h, Function.update_self]

lemma Env.column_update_of_ne {a : Alias} {c : ColumnRef} (h : c.table ≠ a) (env : Env)
    (y : SqlRow) : column (Function.update env a y) c = env.column c := by
  rw [column, Function.update_of_ne h, column]

/-- The text of a value matches a pattern, with a backslash to escape characters. `LOWER` on both
sides folds the ASCII letters. -/
def SqlValue.like (ignoreCase : Bool) : SqlValue → SqlValue → SqlTruth
  | text s, text pattern =>
    .ofBool ((Pattern.pieces? (Pattern.folded ignoreCase pattern.toList)).any fun ps =>
      Pattern.spells false ps (Pattern.folded ignoreCase s.toList))
  | _, _ => .unknown

namespace Database

variable (db : Database)

/-- A comparison, unknown if one of the values is null. -/
def compare (c : Comparison) (a b : SqlValue) : SqlTruth :=
  if a = .null ∨ b = .null then .unknown else .ofBool (db.compares c a b)

/-- The equality of two columns holds. -/
def matched (a b : SqlValue) : Bool :=
  db.compare .eq a b == .yes

/-- What a joined table may stand for, given the tables before it. -/
def joined (j : Join) (env : Env) : List Env :=
  let partners := (db.rows j.table).filter fun row => db.matched (row j.column) (env.column j.owner)
  if partners = [] ∧ j.kind = .left then [Function.update env j.name .null]
  else partners.map (Function.update env j.name)

/-- What the joined tables of a list may stand for. -/
def joinedAll : List Join → Env → List Env
  | [], env => [env]
  | j :: js, env => (db.joined j env).flatMap (joinedAll js)

/-- What a table and its joined tables may stand for, given the tables around them. -/
def selected (s : Source) (env : Env) : List Env :=
  (db.rows s.table).flatMap fun row => db.joinedAll s.joins (Function.update env s.name row)

end Database

namespace Restriction

variable (db : Database)

mutual

/-- The truth of a restriction. -/
def truth : Restriction → Env → SqlTruth
  | and children, env => truthAll children env
  | or children, env => truthAny children env
  | compare column comparison value, env => db.compare comparison (env.column column) value
  | like column pattern ignoreCase negated, env =>
    ((env.column column).like ignoreCase pattern).negate negated
  | among column values negated, env =>
    (values.foldr (fun v rest => (db.compare .eq (env.column column) v).or rest) .no).negate negated
  | null column negated, env => .ofBool ((env.column column == .null) != negated)
  | subquery source inner outer restriction negated, env =>
    .ofBool ((db.selected source env).any (fun e =>
      (db.compare .eq (e.column inner) (e.column outer)).and (truthInner restriction e) == .yes) !=
        negated)

/-- The truth of a conjunction. -/
def truthAll : List Restriction → Env → SqlTruth
  | [], _ => .yes
  | r :: rs, env => (truth r env).and (truthAll rs env)

/-- The truth of a disjunction. -/
def truthAny : List Restriction → Env → SqlTruth
  | [], _ => .no
  | r :: rs, env => (truth r env).or (truthAny rs env)

/-- The truth of the restriction inside a sub-query, if there is one. -/
def truthInner : Option Restriction → Env → SqlTruth
  | none, _ => .yes
  | some r, env => truth r env

end

variable {db} {env : Env}

/-! ### Truth -/

/-- A sub-query has a row if its tables can stand for rows that meet the condition that links them
to the tables around, and the restriction inside. -/
lemma truth_subquery {source : Source} {inner outer : ColumnRef} {r : Option Restriction}
    {negated : Bool} :
    truth db (.subquery source inner outer r negated) env = .yes ↔
      ((∃ e ∈ db.selected source env, db.matched (e.column inner) (e.column outer) = true ∧
        truthInner db r e = .yes) ↔ negated = false) := by
  rw [truth, SqlTruth.ofBool_eq_yes]
  cases negated <;> simp [Database.matched]

end Restriction

namespace Database

variable {db : Database} {a b : SqlValue} {env e : Env}

lemma matched_ne_null (h : db.matched a b = true) : a ≠ .null ∧ b ≠ .null := by
  by_contra hnull
  have hor : a = .null ∨ b = .null := by tauto
  simp [matched, compare, hor] at h

lemma matched_null_right (a : SqlValue) : db.matched a .null = false := by
  simp [matched, compare]

lemma joinedAll_append (js js' : List Join) (env : Env) :
    db.joinedAll (js ++ js') env = (db.joinedAll js env).flatMap (db.joinedAll js') := by
  induction js generalizing env with
  | nil => simp [joinedAll]
  | cons j js ih =>
    rw [List.cons_append, joinedAll, joinedAll, List.flatMap_assoc]
    exact congrArg (List.flatMap · _) (funext ih)

lemma joinedAll_singleton (j : Join) (env : Env) : db.joinedAll [j] env = db.joined j env := by
  rw [joinedAll]
  exact List.flatMap_singleton' _

lemma selected_append (s : Source) (js : List Join) (env : Env) :
    db.selected { s with joins := s.joins ++ js } env =
      (db.selected s env).flatMap (db.joinedAll js) := by
  rw [selected, selected, List.flatMap_assoc]
  exact congrArg (List.flatMap · _) (funext fun row => joinedAll_append _ _ _)

/-- A join puts a row in the place of its name: a partner, or one of nulls if a left join finds
none. -/
lemma mem_joined {j : Join} :
    e ∈ db.joined j env ↔
      (∃ row ∈ db.rows j.table, db.matched (row j.column) (env.column j.owner) = true ∧
        e = Function.update env j.name row) ∨
      (j.kind = .left ∧ (∀ row ∈ db.rows j.table,
        db.matched (row j.column) (env.column j.owner) = false) ∧
          e = Function.update env j.name .null) := by
  have hpartners : ∀ row, row ∈ (db.rows j.table).filter
      (fun row => db.matched (row j.column) (env.column j.owner)) ↔
        row ∈ db.rows j.table ∧ db.matched (row j.column) (env.column j.owner) = true := by
    intro row
    rw [List.mem_filter]
  unfold joined
  generalize (db.rows j.table).filter _ = partners at hpartners
  have hnone : partners = [] ↔ ∀ row ∈ db.rows j.table,
      db.matched (row j.column) (env.column j.owner) = false := by
    simp [List.eq_nil_iff_forall_not_mem, hpartners]
  by_cases hleft : partners = [] ∧ j.kind = .left
  · have hrow : ¬ ∃ row ∈ db.rows j.table, db.matched (row j.column) (env.column j.owner) = true ∧
        e = Function.update env j.name row := by
      rintro ⟨row, hrow, hmatched, -⟩
      simp [hnone.mp hleft.1 row hrow] at hmatched
    simp only [hleft, and_self, if_true, List.mem_singleton, hrow, false_or, ← hnone, true_and]
  · have hnull : ¬ (j.kind = .left ∧ (∀ row ∈ db.rows j.table,
        db.matched (row j.column) (env.column j.owner) = false) ∧
          e = Function.update env j.name .null) := by
      rintro ⟨hkind, hall, -⟩
      exact hleft ⟨hnone.mpr hall, hkind⟩
    rw [if_neg hleft, or_iff_left hnull]
    simp only [List.mem_map, hpartners, and_assoc, @eq_comm _ e]

end Database

lemma SqlValue.like_text (ignoreCase : Bool) (s pattern : String) :
    SqlValue.like ignoreCase (.text s) (.text pattern) =
      .ofBool (patternSpells ignoreCase pattern s) := by
  rw [like, Pattern.pieces?_folded, patternSpells, Option.any_map]
  simp only [Pattern.spells_folded]

end EntityQuery
