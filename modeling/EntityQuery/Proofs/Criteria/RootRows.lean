import EntityQuery.Proofs.Criteria.Correct
import EntityQuery.Proofs.Criteria.ForeignKeys
import EntityQuery.Proofs.Preparation.Accepted
import Mathlib.Data.List.TakeWhile

/-!
# The rows of the root table

The joins of a relational query are those of all its paths, of conditions and sort clauses alike. If
ids are unique, each of them keeps a row of the root table once or drops it, so the source of the
query has no root row twice. What it drops is told by the paths alone.
-/

namespace EntityQuery

variable {db : Database} {ms : Mappings} {r : Registry} {e u t : String} {base : List Join}
  {scope : TableScope} {n : Nat} {keep : SqlRow → Bool}

/-- The associations that the root table is joined along for a path: those before the first
collection. -/
def PropertyPath.joins (p : PropertyPath) : List PathSegment :=
  p.parents.takeWhile fun s => !s.indexed

/-- The paths that the root table is joined along for a query. -/
def PreparedQuery.joins (p : PreparedQuery) : List (List PathSegment) :=
  (p.predicate.toList.flatMap Predicate.conditions).map (fun c => c.property.joins) ++
    p.orders.map fun o => o.property.joins

/-- No path drops a row. -/
def Database.keeps (db : Database) (ms : Mappings) (paths : List (List PathSegment)) (x : SqlRow) :
    Bool :=
  paths.all fun hops => !db.drops ms (some x) hops

lemma Database.keeps_append (paths paths' : List (List PathSegment)) (x : SqlRow) :
    db.keeps ms (paths ++ paths') x = (db.keeps ms paths x && db.keeps ms paths' x) :=
  List.all_append

/-- Beside a row of the root table, the tables of a scope have the rows at the ends of their paths. -/
def TableScope.Shows (db : Database) (ms : Mappings) (r : Registry) (e : String)
    (scope : TableScope) (env : Env) (x : SqlRow) : Prop :=
  ∀ hops u table, r.LeadsSingly e hops u → scope.table? hops = some table →
    env table.name = (db.follow ms (some x) hops).getD .null

/-- The invariant of a scope around the table of an entity type: its tables are those of the entity
types at the ends of their paths, with numbers below the next one, and the joins that were added to
those at hand (`base`) keep some rows of the root table, each of them once and with the rows at the
ends of the paths beside it, and drop the others. -/
structure TableScope.Traced (db : Database) (ms : Mappings) (r : Registry) (e : String)
    (base : List Join) (scope : TableScope) (n : Nat) (keep : SqlRow → Bool) : Prop where
  mapping {hops : List PathSegment} {u : String} {table : MappedTable}
    (path : r.LeadsSingly e hops u) (found : scope.table? hops = some table) :
    ms.entity? u = some table.mapping
  fresh {hops : List PathSegment} {u : String} {table : MappedTable}
    (path : r.LeadsSingly e hops u) (found : scope.table? hops = some table) :
    table.name.number < n
  kept {hops : List PathSegment} {u : String} {table : MappedTable} {x : SqlRow}
    (path : r.LeadsSingly e hops u) (found : scope.table? hops = some table)
    (h : keep x = true) : db.drops ms (some x) hops = false
  joins : ∃ added, scope.source.joins = base ++ added ∧ ∀ env : Env,
    (keep (env scope.root.name) = false → db.joinedAll added env = []) ∧
    (keep (env scope.root.name) = true → ∃ env', db.joinedAll added env = [env'] ∧
      scope.Shows db ms r e env' (env scope.root.name))

namespace TableScope

/-- A scope around a table keeps all rows. -/
lemma traced_open (root : MappedTable) (source : Source)
    (entity : ms.entity? e = some root.mapping) (hroot : root.name.number < n) :
    Traced db ms r e source.joins ⟨root, source, []⟩ n fun _ => true := by
  have hhere : ∀ {u}, r.LeadsSingly e [] u → u = e := by
    rintro u ⟨hl, -⟩
    cases hl
    rfl
  refine ⟨?_, ?_, ?_, [], (List.append_nil _).symm, fun env => ⟨nofun, fun _ => ⟨env, rfl, ?_⟩⟩⟩
  · intro hops u table path found
    obtain ⟨rfl, rfl⟩ := Storage.found_open found
    rwa [hhere path]
  · intro hops u table path found
    obtain ⟨rfl, rfl⟩ := Storage.found_open found
    exact hroot
  · intro hops u table x path found _
    obtain ⟨rfl, rfl⟩ := Storage.found_open found
    rfl
  · intro hops u table path found
    obtain ⟨rfl, rfl⟩ := Storage.found_open found
    rfl

namespace Traced

lemma mono {n' : Nat} (h : Traced db ms r e base scope n keep) (hn : n ≤ n') :
    Traced db ms r e base scope n' keep :=
  ⟨h.mapping, fun path found => (h.fresh path found).trans_le hn, h.kept, h.joins⟩

/-- A path whose table has been joined drops no row that is kept. -/
lemma of_found (h : Traced db ms r e base scope n keep) {hops : List PathSegment}
    {table : MappedTable} (path : r.LeadsSingly e hops u)
    (found : scope.table? hops = some table) :
    Traced db ms r e base scope n fun x => keep x && !db.drops ms (some x) hops := by
  have hkeep : (fun x => keep x && !db.drops ms (some x) hops) = keep := by
    funext x
    cases hx : keep x with
    | false => rfl
    | true => rw [h.kept path found hx]; rfl
  rwa [hkeep]

variable {hops : List PathSegment} {hop : PathSegment} {column : String} {table : MappedTable}
  {m : EntityMapping}

/-- The row that a path leads to is shown in the place of the table that is added for it. -/
lemma shows_added {j : Join} {env : Env} {x : SqlRow} (h : Traced db ms r e base scope n keep)
    (onward : r.LeadsSingly e (hops ++ [hop]) t) (shows : scope.Shows db ms r e env x) :
    (Storage.added scope (keyOf (hops ++ [hop])) ⟨⟨'t', n⟩, m⟩ j).Shows db ms r e
      (Function.update env ⟨'t', n⟩ ((db.follow ms (some x) (hops ++ [hop])).getD .null)) x := by
  intro hops' u' table' path' found'
  obtain found' | ⟨rfl, -, rfl⟩ := Storage.found_added onward path' found'
  · rw [update_of_number_lt env _ (h.fresh path' found'), shows hops' u' table' path' found']
  · exact Function.update_self ..

/-- Joining the table at the end of a path drops the rows that the path drops. -/
lemma of_added (keys : db.ForeignKeys ms r) (h : Traced db ms r e base scope n keep)
    (path : r.LeadsSingly e hops u) (found : scope.table? hops = some table)
    (onward : r.LeadsSingly e (hops ++ [hop]) t)
    (mapped : ms.Maps r hop.owner hop.name table.mapping (.manyToOne column t))
    (target : ms.entity? t = some m) :
    Traced db ms r e base
      (Storage.added scope (keyOf (hops ++ [hop])) ⟨⟨'t', n⟩, m⟩
        ⟨if hop.nullable then .left else .inner, m.table, ⟨'t', n⟩, m.idColumn,
          ⟨table.name, column⟩⟩) (n + 1)
      fun x => keep x && !db.drops ms (some x) (hops ++ [hop]) := by
  set j : Join := ⟨if hop.nullable then .left else .inner, m.table, ⟨'t', n⟩, m.idColumn,
    ⟨table.name, column⟩⟩ with hj
  obtain ⟨joins, hjoins, htraced⟩ := h.joins
  refine ⟨fun {hops' u' table'} path' found' => ?_, fun {hops' u' table'} path' found' => ?_,
    fun {hops' u' table' x} path' found' hx => ?_, joins ++ [j], ?_, fun env => ?_⟩
  · obtain found' | ⟨-, rfl, rfl⟩ := Storage.found_added onward path' found'
    · exact h.mapping path' found'
    · exact target
  · obtain found' | ⟨-, rfl, rfl⟩ := Storage.found_added onward path' found'
    · exact (h.fresh path' found').trans (Nat.lt_succ_self n)
    · exact Nat.lt_succ_self n
  · obtain ⟨hkeep, hdrops⟩ := Bool.and_eq_true_iff.mp hx
    obtain found' | ⟨rfl, -, -⟩ := Storage.found_added onward path' found'
    · exact h.kept path' found' hkeep
    · simpa using hdrops
  · rw [Storage.added, hjoins, List.append_assoc]
  · obtain ⟨hloses, hkeeps⟩ := htraced env
    rw [show (Storage.added scope (keyOf (hops ++ [hop])) ⟨⟨'t', n⟩, m⟩ j).root = scope.root from
      rfl, Database.joinedAll_append]
    generalize env scope.root.name = x at hloses hkeeps ⊢
    cases hx : keep x with
    | false => simp [hloses hx]
    | true =>
      obtain ⟨env₁, henv₁, hshows⟩ := hkeeps hx
      have hjoined :=
        keys.joined_eq mapped target (a := ⟨'t', n⟩) (hshows hops u table path found)
      rw [henv₁, List.flatMap_singleton, Database.joinedAll_singleton, hj, hjoined,
        Database.drops_append, h.kept path found hx, Bool.false_or, Bool.true_and,
        ← Database.follow_append]
      cases hdrops : db.drops ms (db.follow ms (some x) hops) [hop] with
      | true => simp
      | false => exact ⟨by simp, fun _ => ⟨_, rfl, h.shows_added onward hshows⟩⟩

end Traced

variable {hops rest : List PathSegment} {hop leaf : PathSegment} {table : MappedTable}
  {m : EntityMapping} {v : String}

/-- One step of a path: the table of a single-valued association is found again or joined. -/
lemma exists_traced_join (keys : db.ForeignKeys ms r) (h : Traced db ms r e base scope n keep)
    (path : r.LeadsSingly e hops u) (found : scope.table? hops = some table)
    (onward : r.LeadsSingly e (hops ++ [hop]) t) (owner : hop.owner = u) {column : String}
    (mapped : ms.Maps r u hop.name table.mapping (.manyToOne column t))
    (target : ms.entity? t = some m) :
    ∃ next scope' n', join ms scope (keyOf (hops ++ [hop])) table.name column t hop.nullable n =
        .ok (next, scope', n') ∧ scope.Grows scope' ∧ n ≤ n' ∧
      scope'.table? (hops ++ [hop]) = some next ∧
      Traced db ms r e base scope' n' fun x => keep x && !db.drops ms (some x) (hops ++ [hop]) := by
  subst owner
  unfold join
  cases fresh : scope.joined.lookup (keyOf (hops ++ [hop])) with
  | some next =>
    have hfound : scope.table? (hops ++ [hop]) = some next := Storage.table?_append.trans fresh
    exact ⟨next, scope, n, rfl, .refl scope, le_refl n, hfound, h.of_found onward hfound⟩
  | none =>
    have hmapping : mappingOf ms t = .ok m := by simp [mappingOf, target]
    simp only [hmapping]
    exact ⟨_, _, _, rfl, Storage.grows_added _ _ fresh, Nat.le_succ n,
      by simp [Storage.table?_append], h.of_added keys path found onward mapped target⟩

/-! ### Paths -/

/-- One step of a path, as conditions and sort clauses make it. -/
lemma exists_traced_step (keys : db.ForeignKeys ms r) (h : Traced db ms r e base scope n keep)
    (path : r.LeadsSingly e hops u) (found : scope.table? hops = some table)
    (mapped : ms.MapsHop r hop) (leads : r.Leads u (hop :: rest) v) (single : hop.indexed = false) :
    ∃ column t next scope' n', columnOf table.mapping hop.name = .ok (.manyToOne column t) ∧
      join ms scope (joinKey (keyOf hops) hop.name) table.name column t hop.nullable n =
        .ok (next, scope', n') ∧ scope.Grows scope' ∧ n ≤ n' ∧
      r.LeadsSingly e (hops ++ [hop]) t ∧ scope'.table? (hops ++ [hop]) = some next ∧
      r.Leads t rest v ∧
      Traced db ms r e base scope' n' fun x => keep x && !db.drops ms (some x) (hops ++ [hop]) := by
  obtain ⟨m, c, t, m', hmaps, -, target, howner, hone, onward, hcolumn⟩ := mapped.exists_step leads
  rw [single, if_neg (by decide)] at hcolumn
  obtain ⟨column, rfl⟩ := hcolumn
  obtain rfl : table.mapping = m :=
    Option.some.inj ((h.mapping path found).symm.trans hmaps.entity)
  have honward := path.step hone single
  obtain ⟨next, scope', n', hjoin, hgrows, hn, hfound, htraced⟩ :=
    exists_traced_join keys h path found honward howner hmaps target
  rw [keyOf_append] at hjoin
  exact ⟨column, t, next, scope', n', by simp [columnOf, hmaps.found], hjoin, hgrows, hn, honward,
    hfound, onward, htraced⟩

/-- A step through a collection, which opens a scope around the table of the elements. -/
lemma exists_traced_elements (h : Traced db ms r e base scope n keep)
    (path : r.LeadsSingly e hops u) (found : scope.table? hops = some table)
    (mapped : ms.MapsHop r hop) (leads : r.Leads u (hop :: rest) v) (many : hop.indexed = true) :
    ∃ column rows n' target t, columnOf table.mapping hop.name = .ok column ∧
      elementRows ms table.mapping hop.name n column = .ok (rows, n') ∧ n ≤ n' ∧
      rows.target? = some target ∧ r.Leads t rest v ∧
      Traced db ms r t rows.source.joins ⟨target, rows.source, []⟩ n' fun _ => true := by
  obtain ⟨m, c, t, m', hmaps, leads, target, -, -, onward, hmany⟩ := mapped.exists_step leads
  rw [many, if_pos rfl] at hmany
  obtain rfl : table.mapping = m :=
    Option.some.inj ((h.mapping path found).symm.trans hmaps.entity)
  have htargets : ∀ t', c.target? = some t' → ∃ m', ms.entity? t' = some m' := fun t' ht' =>
    ⟨m', by rw [← target, ← Option.some.inj (leads.symm.trans ht')]⟩
  obtain ⟨rows, n', hrows, hn, hrange⟩ :=
    exists_elementRows hmany htargets table.mapping hop.name n
  obtain ⟨a, htarget, ha⟩ := hrange t m' leads target
  exact ⟨c, rows, n', ⟨a, m'⟩, t, by simp [columnOf, hmaps.found], hrows, hn.le, htarget, onward,
    traced_open ⟨a, m'⟩ rows.source target ha⟩

/-- A path drops what a path that it continues drops. -/
lemma Traced.of_prefix {before after : List PathSegment}
    (h : Traced db ms r e base scope n fun x =>
      (keep x && !db.drops ms (some x) before) && !db.drops ms (some x) (before ++ after)) :
    Traced db ms r e base scope n fun x => keep x && !db.drops ms (some x) (before ++ after) := by
  convert h using 2 with x
  rw [Database.drops_append]
  cases keep x <;> cases db.drops ms (some x) before <;> simp

/-- The path of a sort clause is joined. -/
lemma exists_traced_sortTable (keys : db.ForeignKeys ms r)
    (h : Traced db ms r e base scope n keep) (path : r.LeadsSingly e hops u)
    (found : scope.table? hops = some table) (mapped : ∀ hop ∈ rest, ms.MapsHop r hop)
    (onward : r.LeadsSingly u rest v) :
    ∃ last scope' n', sortTable ms scope table (keyOf hops) rest n = .ok (last, scope', n') ∧
      scope.Grows scope' ∧ n ≤ n' ∧ ms.entity? v = some last.mapping ∧
      Traced db ms r e base scope' n' fun x => keep x && !db.drops ms (some x) (hops ++ rest) := by
  induction rest generalizing scope n keep hops u table with
  | nil =>
    obtain ⟨leads, -⟩ := onward
    cases leads
    rw [List.append_nil]
    exact ⟨table, scope, n, rfl, .refl scope, le_refl n, h.mapping path found,
      h.of_found path found⟩
  | cons hop rest ih =>
    obtain ⟨leads, single⟩ := onward
    rw [List.any_cons, Bool.or_eq_false_iff] at single
    obtain ⟨column, t, next, scope₁, n₁, hcolumn, hjoin, hgrows, hn, honward, hfound, onward,
      htraced⟩ := exists_traced_step keys h path found (mapped hop (by simp)) leads single.1
    obtain ⟨last, scope', n', hresult, hgrows', hn', hlast, htraced'⟩ :=
      ih htraced honward hfound (fun s hs => mapped s (by simp [hs])) ⟨onward, single.2⟩
    rw [keyOf_append] at hresult
    have htraced' := htraced'.of_prefix
    rw [List.append_assoc] at htraced'
    exact ⟨last, scope', n', by simp [sortTable, hcolumn, hjoin, hresult], hgrows.trans hgrows',
      hn.trans hn', hlast, htraced'⟩

/-- The property at the end of a path has a restriction that suits its type. -/
lemma exists_leafRestriction_of_mapped {operator : Operator} {s : Strategy} {p : PropertyDef}
    {c : ColumnMapping} (hof : Strategy.of? operator leaf.type.kind = some s)
    (declared : r.Declares leaf p) (mapped : ms.Maps r leaf.owner leaf.name m c)
    (targets : leaf.type.kind = .collection → ∀ t, c.target? = some t → ∃ u, ms.entity? t = some u)
    (htable : table.mapping = m) (ws : List Value) (n : Nat) :
    ∃ restriction n', leafRestriction ms table leaf s ws n = .ok (restriction, n') ∧ n ≤ n' := by
  subst htable
  obtain ⟨p', hp', hsuits⟩ := mapped.suits
  obtain rfl : p = p' := by simpa [declared.found] using hp'
  rw [← declared.type] at hsuits
  have hkind := Strategy.kind_eq_collection_iff hof
  have hcolumn : columnOf table.mapping leaf.name = .ok c := by simp [columnOf, mapped.found]
  unfold leafRestriction
  rw [hcolumn]
  by_cases hmany : leaf.type.kind = .collection
  · have hnone := hsuits.column?_eq_none hmany
    obtain ⟨rows, n', hrows, hn, -⟩ :=
      exists_elementRows hnone (targets hmany) table.mapping leaf.name n
    obtain ⟨restriction, hrestriction⟩ :
        ∃ restriction, collectionRestriction table leaf s ws rows = .ok restriction := by
      have hcollection := hkind.mp hmany
      cases s <;> first | exact ⟨_, rfl⟩ | cases hcollection
    refine ⟨restriction, n', ?_, hn.le⟩
    cases c <;> cases hnone <;> simp [hrows, hrestriction, Except.map]
  · obtain ⟨column, hc⟩ := hsuits.exists_column? hmany
    obtain ⟨restriction, hrestriction⟩ :
        ∃ restriction, columnRestriction? ⟨table.name, column⟩ s ws = some restriction := by
      rw [hkind] at hmany
      cases s <;> first | exact ⟨_, rfl⟩ | exact absurd rfl hmany
    refine ⟨restriction, n, ?_, le_refl n⟩
    cases c <;> cases hc <;> simp [hrestriction]

/-- The path of a condition is joined up to the first collection; a sub-query follows the rest. -/
lemma exists_traced_along (keys : db.ForeignKeys ms r) {operator : Operator} {s : Strategy}
    {p : PropertyDef} {c : ColumnMapping} (ws : List Value)
    (hof : Strategy.of? operator leaf.type.kind = some s) (declared : r.Declares leaf p)
    (column : ms.Maps r leaf.owner leaf.name m c)
    (targets : leaf.type.kind = .collection → ∀ t, c.target? = some t → ∃ u, ms.entity? t = some u)
    (h : Traced db ms r e base scope n keep) (path : r.LeadsSingly e hops u)
    (found : scope.table? hops = some table) (mapped : ∀ hop ∈ rest, ms.MapsHop r hop)
    (onward : r.Leads u rest leaf.owner) :
    ∃ restriction scope' n',
      along ms leaf s ws scope table (keyOf hops) rest n = .ok (restriction, scope', n') ∧
      scope.Grows scope' ∧ n ≤ n' ∧ Traced db ms r e base scope' n' fun x =>
        keep x && !db.drops ms (some x) (hops ++ rest.takeWhile fun s => !s.indexed) := by
  induction rest generalizing e base scope n keep hops u table with
  | nil =>
    cases onward
    have htable : table.mapping = m :=
      Option.some.inj ((h.mapping path found).symm.trans column.entity)
    obtain ⟨restriction, n', hleaf, hn⟩ :=
      exists_leafRestriction_of_mapped hof declared column targets htable ws n
    rw [List.takeWhile_nil, List.append_nil]
    exact ⟨restriction, scope, n', by rw [along, hleaf]; rfl, .refl scope, hn,
      (h.of_found path found).mono hn⟩
  | cons hop rest ih =>
    have hrest : ∀ hop ∈ rest, ms.MapsHop r hop := fun s hs => mapped s (by simp [hs])
    cases hindexed : hop.indexed with
    | true =>
      obtain ⟨name, rows, n₁, target, t, hcolumn, hrows, hn, htarget, onward, hopen⟩ :=
        exists_traced_elements h path found (mapped hop (by simp)) onward hindexed
      obtain ⟨restriction, inner, n', hresult, -, hn', -⟩ :=
        ih hopen ⟨.here, rfl⟩ rfl hrest onward
      refine ⟨.subquery inner.source rows.inner ⟨table.name, table.mapping.idColumn⟩
        (some restriction) false, scope, n', ?_, .refl scope, hn.trans hn', ?_⟩
      · rw [show keyOf [] = "" from rfl] at hresult
        simp [along, hcolumn, hindexed, hrows, htarget, hresult]
      · rw [List.takeWhile_cons, hindexed, Bool.not_true, if_neg (by decide), List.append_nil]
        exact (h.of_found path found).mono (hn.trans hn')
    | false =>
      obtain ⟨name, t, next, scope₁, n₁, hcolumn, hjoin, hgrows, hn, honward, hfound, onward,
        htraced⟩ := exists_traced_step keys h path found (mapped hop (by simp)) onward hindexed
      obtain ⟨restriction, scope', n', hresult, hgrows', hn', htraced'⟩ :=
        ih htraced honward hfound hrest onward
      rw [keyOf_append] at hresult
      have htraced' := htraced'.of_prefix
      rw [List.append_assoc] at htraced'
      rw [List.takeWhile_cons, hindexed]
      exact ⟨restriction, scope', n', by simp [along, hcolumn, hindexed, hjoin, hresult],
        hgrows.trans hgrows', hn.trans hn', htraced'⟩

/-! ### Queries -/

/-- What is to be shown of compiling a part of a query that follows some paths: it succeeds, and the
joins that it makes drop the rows that the paths drop. -/
def Joins (db : Database) (ms : Mappings) (r : Registry) (e : String) (base : List Join)
    (scope : TableScope) (n : Nat) (keep : SqlRow → Bool) (paths : List (List PathSegment))
    (result : Compiled α) : Prop :=
  ∃ a scope' n', result = .ok (a, scope', n') ∧ scope.Grows scope' ∧ n ≤ n' ∧
    Traced db ms r e base scope' n' fun x => keep x && db.keeps ms paths x

variable {α β : Type} {paths paths' : List (List PathSegment)}

lemma Joins.map {result : Compiled α} (h : Joins db ms r e base scope n keep paths result)
    (f : α → β) :
    Joins db ms r e base scope n keep paths (result.map fun (a, rest) => (f a, rest)) := by
  obtain ⟨a, scope', n', rfl, h⟩ := h
  exact ⟨f a, scope', n', rfl, h⟩

/-- Parts that are compiled one after the other follow the paths of each. -/
lemma joins_list (compile : TableScope → Nat → β → Compiled α)
    (compileAll : TableScope → Nat → List β → Compiled (List α))
    (pathsOf : β → List (List PathSegment))
    (nil : ∀ scope n, compileAll scope n [] = .ok ([], scope, n))
    (cons : ∀ {scope scope₁ scope₂ n n₁ n₂ b bs a as}, compile scope n b = .ok (a, scope₁, n₁) →
      compileAll scope₁ n₁ bs = .ok (as, scope₂, n₂) →
      compileAll scope n (b :: bs) = .ok (a :: as, scope₂, n₂))
    {bs : List β} (hbs : ∀ b ∈ bs, ∀ scope n keep, Traced db ms r e base scope n keep →
      Joins db ms r e base scope n keep (pathsOf b) (compile scope n b))
    (h : Traced db ms r e base scope n keep) :
    Joins db ms r e base scope n keep (bs.flatMap pathsOf) (compileAll scope n bs) := by
  induction bs generalizing scope n keep with
  | nil => exact ⟨[], scope, n, nil scope n, .refl scope, le_refl n, by simpa [Database.keeps]⟩
  | cons b bs ih =>
    obtain ⟨a, scope₁, n₁, hresult, hgrows, hn, htraced⟩ := hbs b (by simp) scope n keep h
    obtain ⟨as, scope', n', hresult', hgrows', hn', htraced'⟩ :=
      ih (fun b' hb' => hbs b' (by simp [hb'])) htraced
    refine ⟨a :: as, scope', n', cons hresult hresult',
      hgrows.trans hgrows', hn.trans hn', ?_⟩
    convert htraced' using 2 with x
    rw [List.flatMap_cons, Database.keeps_append, Bool.and_assoc]

lemma joins_condition (keys : db.ForeignKeys ms r) (h : Traced db ms r e base scope n keep)
    {c : Condition} (hc : c.Accepted r e) (mapped : ms.MapsPath r c.property) :
    Joins db ms r e base scope n keep [c.property.joins] (conditionRestriction ms scope c n) := by
  obtain ⟨s, hs⟩ := Condition.exists_strategy_of_check hc.checked
  obtain ⟨p, declared⟩ := hc.admitted.leaf
  obtain ⟨m, column, hcolumn, targets⟩ := mapped.leaf
  obtain ⟨restriction, scope', n', hresult, hgrows, hn, htraced⟩ :=
    exists_traced_along keys c.operands hs declared hcolumn targets h ⟨.here, rfl⟩ rfl
      mapped.parents hc.admitted.parents
  refine ⟨restriction, scope', n', ?_, hgrows, hn, ?_⟩
  · rw [conditionRestriction, Strategy.require, hs]
    exact hresult
  · simpa [Database.keeps, PropertyPath.joins] using htraced

lemma joins_predicates {ps : List (Predicate Condition)}
    (hps : ∀ p ∈ ps, ∀ scope n keep, Traced db ms r e base scope n keep →
      Joins db ms r e base scope n keep (p.conditions.map fun c => c.property.joins)
        (restriction ms scope n p))
    (h : Traced db ms r e base scope n keep) :
    Joins db ms r e base scope n keep
      ((ps.flatMap Predicate.conditions).map fun c => c.property.joins)
      (restrictions ms scope n ps) := by
  rw [List.map_flatMap]
  exact joins_list (restriction ms) (restrictions ms) _ (fun _ _ => by rw [restrictions])
    (fun h h' => by simp [restrictions, h, h', Except.map]) hps h

/-- **Predicates** are joined along the paths of their conditions. -/
theorem joins_predicate (keys : db.ForeignKeys ms r) (h : Traced db ms r e base scope n keep)
    {p : Predicate Condition}
    (hp : ∀ c ∈ p.conditions, c.Accepted r e ∧ ms.MapsPath r c.property) :
    Joins db ms r e base scope n keep (p.conditions.map fun c => c.property.joins)
      (restriction ms scope n p) := by
  induction p using Predicate.induct generalizing scope n keep with
  | cond c =>
    obtain ⟨hc, mapped⟩ := hp c (by simp)
    rw [restriction]
    exact joins_condition keys h hc mapped
  | and ps ih =>
    rw [restriction, Predicate.conditions_and]
    exact (joins_predicates (fun p hmem scope n keep h =>
      ih p hmem h fun c hc => hp c (by simpa using ⟨p, hmem, hc⟩)) h).map Restriction.and
  | or ps ih =>
    rw [restriction, Predicate.conditions_or]
    exact (joins_predicates (fun p hmem scope n keep h =>
      ih p hmem h fun c hc => hp c (by simpa using ⟨p, hmem, hc⟩)) h).map Restriction.or

lemma takeWhile_of_single {hops : List PathSegment} (h : hops.any PathSegment.indexed = false) :
    (hops.takeWhile fun s => !s.indexed) = hops := by
  refine List.takeWhile_eq_self_iff.mpr fun s hs => ?_
  simpa using List.any_eq_false.mp h s hs

lemma joins_order (keys : db.ForeignKeys ms r) (h : Traced db ms r e base scope n keep)
    {o : Order PropertyPath} (ho : o.property.Sortable r e) (mapped : ms.MapsPath r o.property) :
    Joins db ms r e base scope n keep [o.property.joins] (sortColumn ms scope o n) := by
  obtain ⟨last, scope', n', hresult, hgrows, hn, hlast, htraced⟩ :=
    exists_traced_sortTable keys h ⟨.here, rfl⟩ rfl mapped.parents
      ⟨ho.admitted.parents, ho.single⟩
  obtain ⟨column, hcolumn⟩ :=
    Storage.exists_sortColumn ho.admitted ho.plain mapped hresult hlast
  refine ⟨(column, o.direction), scope', n', hcolumn, hgrows, hn, ?_⟩
  simpa [Database.keeps, PropertyPath.joins, takeWhile_of_single ho.single] using htraced

lemma joins_orders (keys : db.ForeignKeys ms r) (h : Traced db ms r e base scope n keep)
    {os : List (Order PropertyPath)}
    (hos : ∀ o ∈ os, o.property.Sortable r e ∧ ms.MapsPath r o.property) :
    Joins db ms r e base scope n keep (os.map fun o => o.property.joins)
      (sortColumns ms scope n os) := by
  rw [List.map_eq_flatMap]
  exact joins_list (fun scope n o => sortColumn ms scope o n) (sortColumns ms) _ (fun _ _ => rfl)
    (fun h h' => by simp [sortColumns, h, h', Except.map])
    (fun o ho scope n keep h => joins_order keys h (hos o ho).1 (hos o ho).2) h

lemma joins_query (keys : db.ForeignKeys ms r) (h : Traced db ms r e base scope n keep)
    {p? : Option (Predicate Condition)}
    (hp : ∀ p ∈ p?, ∀ c ∈ p.conditions, c.Accepted r e ∧ ms.MapsPath r c.property) :
    Joins db ms r e base scope n keep
      ((p?.toList.flatMap Predicate.conditions).map fun c => c.property.joins)
      (queryRestriction ms scope n p?) := by
  cases p? with
  | none => exact ⟨none, scope, n, rfl, .refl scope, le_refl n, by simpa [Database.keeps]⟩
  | some p =>
    rw [Option.toList_some, List.flatMap_singleton]
    exact (joins_predicate keys h (hp p rfl)).map some

/-- The rows of the root table that the source of a scope has. -/
lemma Traced.roots_eq {a : Alias} {m : EntityMapping} (h : Traced db ms r e [] scope n keep)
    (hgrows : Grows ⟨⟨a, m⟩, ⟨m.table, a, []⟩, []⟩ scope) (outer : Env) :
    (db.selected scope.source outer).map (fun env => env scope.source.name) =
      (db.rows m.table).filter keep := by
  obtain ⟨added, hadded, htraced⟩ := h.joins
  have hname : scope.root.name = scope.source.name := by rw [hgrows.root, hgrows.name]
  have hroot : scope.table? [] = some scope.root := rfl
  rw [Database.selected, hadded, List.nil_append, hgrows.table]
  induction db.rows m.table with
  | nil => rfl
  | cons x xs ih =>
    obtain ⟨hloses, hkeeps⟩ := htraced (Function.update outer scope.source.name x)
    rw [hname, Function.update_self] at hloses hkeeps
    rw [List.flatMap_cons, List.map_append, ih, List.filter_cons]
    cases hx : keep x with
    | false => simp [hloses hx]
    | true =>
      obtain ⟨env, henv, hshows⟩ := hkeeps hx
      have hrow := hshows [] e scope.root ⟨.here, rfl⟩ hroot
      rw [hname] at hrow
      simp [henv, hrow, Database.follow]

end TableScope

/-- The associations up to the first collection are single-valued. -/
lemma Registry.Leads.exists_takeWhile {hops : List PathSegment} (h : r.Leads e hops u) :
    ∃ v, r.LeadsSingly e (hops.takeWhile fun s => !s.indexed) v := by
  induction h with
  | here => exact ⟨_, .here, rfl⟩
  | @step _ _ _ s _ _ owner declared type _ ih =>
    rw [List.takeWhile_cons]
    cases hindexed : s.indexed with
    | true => exact ⟨_, .here, rfl⟩
    | false =>
      obtain ⟨v, leads, single⟩ := ih
      exact ⟨v, .step owner declared type leads, by simpa [hindexed] using single⟩

/-- What is known of the paths that the root table is joined along. -/
lemma PreparedQuery.leads_joins {context : QueryContext} {entity : String} {q : Preparable}
    {p : PreparedQuery} (hp : r.prepare context entity q = .ok p)
    (mapped : ms.MapsQuery r entity p) {hops : List PathSegment} (hhops : hops ∈ p.joins) :
    (∃ v, r.LeadsSingly entity hops v) ∧ ∀ hop ∈ hops, ms.MapsHop r hop := by
  obtain ⟨hconditions, horders⟩ := Registry.accepted_of_prepare hp
  have hpath : ∀ path : PropertyPath, r.Admits entity path → ms.MapsPath r path →
      (∃ v, r.LeadsSingly entity path.joins v) ∧ ∀ hop ∈ path.joins, ms.MapsHop r hop :=
    fun path hadmits hmaps => ⟨hadmits.parents.exists_takeWhile, fun hop hhop =>
      hmaps.parents hop ((List.takeWhile_sublist _).subset hhop)⟩
  rcases List.mem_append.mp hhops with hmem | hmem
  · obtain ⟨c, hc, rfl⟩ := List.mem_map.mp hmem
    obtain ⟨t, ht, hc⟩ := List.mem_flatMap.mp hc
    have ht : p.predicate = some t := by simpa using ht
    exact hpath _ (hconditions t ht c hc).admitted (mapped.conditions t ht c hc)
  · obtain ⟨o, ho, rfl⟩ := List.mem_map.mp hmem
    exact hpath _ (horders o ho).admitted (mapped.orders o ho)

/-- **Root rows.** An accepted query whose properties are mapped is compiled. In a database with
unique ids, the root table with its joins has each of its rows once or not at all, in order: it
loses those from which an association that has to be there comes after one that is missing, on the
path of a condition or a sort clause. So it loses none if, on every path, all associations after one
that may be missing may be missing. -/
theorem selected_root_rows {context : QueryContext} {entity : String} {q : Preparable}
    {p : PreparedQuery} (hp : r.prepare context entity q = .ok p)
    (mapped : ms.MapsQuery r entity p) (keys : db.ForeignKeys ms r) :
    ∃ m criteria, ms.entity? entity = some m ∧ Criteria.compile ms entity p = .ok criteria ∧
      (∀ outer, (db.selected criteria.source outer).map (fun env => env criteria.source.name) =
        (db.rows m.table).filter (db.keeps ms p.joins)) ∧
      (∀ x ∈ db.rows m.table,
        db.keeps ms p.joins x = false ↔ ∃ hops ∈ p.joins, db.Strands ms (some x) hops) ∧
      ((∀ hops ∈ p.joins, StaysOptional hops) →
        (db.rows m.table).filter (db.keeps ms p.joins) = db.rows m.table) := by
  obtain ⟨hconditions, horders⟩ := Registry.accepted_of_prepare hp
  obtain ⟨m, hroot⟩ := mapped.root
  have hopen : TableScope.Traced db ms r entity [] ⟨⟨⟨'t', 0⟩, m⟩, ⟨m.table, ⟨'t', 0⟩, []⟩, []⟩ 1
      fun _ => true :=
    TableScope.traced_open ⟨⟨'t', 0⟩, m⟩ ⟨m.table, ⟨'t', 0⟩, []⟩ hroot Nat.one_pos
  obtain ⟨restriction, scope, n, hrestriction, hgrows, -, htraced⟩ :=
    TableScope.joins_query keys hopen fun t ht c hc =>
      ⟨hconditions t ht c hc, mapped.conditions t ht c hc⟩
  obtain ⟨columns, scope', n', hcolumns, hgrows', -, htraced'⟩ :=
    TableScope.joins_orders keys htraced fun o ho => ⟨horders o ho, mapped.orders o ho⟩
  refine ⟨m, ⟨scope'.source, restriction, columns, none⟩, hroot, ?_, fun outer => ?_,
    fun x hx => ?_, fun hstays => ?_⟩
  · simp [Criteria.compile, TableScope.openScope, TableScope.mappingOf, hroot, hrestriction,
      hcolumns, Except.map]
  · rw [htraced'.roots_eq (hgrows.trans hgrows') outer]
    refine List.filter_congr fun x _ => ?_
    rw [PreparedQuery.joins, Database.keeps_append]
    rfl
  · rw [Database.keeps, List.all_eq_false]
    refine exists_congr fun hops => and_congr_right fun hhops => ?_
    obtain ⟨⟨v, path⟩, hmaps⟩ := PreparedQuery.leads_joins hp mapped hhops
    rw [← keys.drops_iff path hmaps hroot (by simpa using hx)]
    simp
  · refine List.filter_eq_self.mpr fun x hx => List.all_eq_true.mpr fun hops hhops => ?_
    obtain ⟨⟨v, path⟩, hmaps⟩ := PreparedQuery.leads_joins hp mapped hhops
    rw [keys.drops_eq_false path hmaps hroot hx (hstays hops hhops)]
    rfl

/-! ### A root row that is lost -/

namespace Holding

/-- Companies, which may be in a group, and groups, which have an owner. -/
def registry : Registry :=
  ⟨[⟨"Company", "id", [⟨"id", .text, false, none⟩, ⟨"group", .entity "Group", true, none⟩]⟩,
    ⟨"Group", "id", [⟨"id", .text, false, none⟩, ⟨"owner", .entity "Person", false, none⟩]⟩,
    ⟨"Person", "id", [⟨"id", .text, false, none⟩, ⟨"name", .text, true, none⟩]⟩]⟩

/-- The table of companies. -/
def companies : EntityMapping :=
  (EntityMapping.named "Company" "company" "id").map "group" (.manyToOne "group_id" "Group")

/-- The table of groups. -/
def groups : EntityMapping :=
  (EntityMapping.named "Group" "grp" "id").map "owner" (.manyToOne "owner_id" "Person")

/-- The table of people. -/
def people : EntityMapping :=
  (EntityMapping.named "Person" "person" "id").map "name" (.column "name")

/-- The tables of the entity types. -/
def mappings : Mappings :=
  ⟨[companies, groups, people]⟩

/-- A row with an id, a value in one more column, and nulls. -/
def row (id column : String) (value : SqlValue) : SqlRow := fun name =>
  if name = "id" then .text id else if name = column then value else .null

/-- A company without a group. -/
def lone : SqlRow :=
  row "lone" "group_id" .null

/-- A company with a group. -/
def full : SqlRow :=
  row "full" "group_id" (.text "tech")

/-- The group of the company, with its owner. -/
def tech : SqlRow :=
  row "tech" "owner_id" (.text "ann")

/-- The owner of the group. -/
def ann : SqlRow :=
  row "ann" "name" (.text "Ann")

/-- A database with two companies, of which one has a group. -/
def database : Database where
  rows
    | "company" => [lone, full]
    | "grp" => [tech]
    | "person" => [ann]
    | _ => []
  compares _ v w := v == w

/-- The query for all companies, in the order of the names of the owners of their groups. -/
def byOwner : RawQuery :=
  ⟨none, [⟨"group.owner.name", .ascending⟩]⟩

/-- The path from a company to the name of the owner of its group. -/
def ownerName : PropertyPath :=
  ⟨[⟨"group", "Company", .entity "Group", true, false⟩,
    ⟨"owner", "Group", .entity "Person", false, false⟩], ⟨"name", "Person", .text, true, false⟩⟩

lemma prepare_byOwner : registry.prepare Staff.context "Company" (.raw byOwner) =
    .ok ⟨none, [⟨ownerName, .ascending⟩]⟩ := by
  rfl

lemma mapsQuery : mappings.MapsQuery registry "Company" ⟨none, [⟨ownerName, .ascending⟩]⟩ where
  root := ⟨companies, rfl⟩
  conditions := nofun
  orders := by
    rintro o ho
    obtain rfl := List.mem_singleton.mp ho
    refine ⟨?_, people, _, ⟨rfl, rfl, _, rfl, rfl⟩, nofun⟩
    intro s hs
    rcases List.mem_pair.mp hs with rfl | rfl
    · exact ⟨companies, _, "Group", groups, ⟨rfl, rfl, _, rfl, rfl⟩, rfl, rfl⟩
    · exact ⟨groups, _, "Person", people, ⟨rfl, rfl, _, rfl, rfl⟩, rfl, rfl⟩

lemma entity_cases {e : String} {m : EntityMapping} (h : mappings.entity? e = some m) :
    (e = "Company" ∧ m = companies) ∨ (e = "Group" ∧ m = groups) ∨ (e = "Person" ∧ m = people) := by
  have he : m.entity = e := by simpa using List.find?_some h
  have hm := List.mem_of_find?_eq_some h
  simp only [mappings, List.mem_cons, List.not_mem_nil, or_false] at hm
  rcases hm with rfl | rfl | rfl <;> simp_all [companies, groups, people, EntityMapping.named,
    EntityMapping.map]

/-- The associations that are mapped. -/
lemma maps_cases {e name column t : String} {m : EntityMapping}
    (mapped : mappings.Maps registry e name m (.manyToOne column t)) :
    (e = "Company" ∧ name = "group" ∧ column = "group_id" ∧ t = "Group") ∨
    (e = "Group" ∧ name = "owner" ∧ column = "owner_id" ∧ t = "Person") := by
  have hmem : (name, ColumnMapping.manyToOne column t) ∈ m.properties :=
    TableScope.mem_of_lookup mapped.found
  rcases entity_cases mapped.entity with ⟨rfl, rfl⟩ | ⟨rfl, rfl⟩ | ⟨rfl, rfl⟩ <;>
    simp [companies, groups, people, EntityMapping.named, EntityMapping.map] at hmem <;> tauto

lemma matched_text {v : SqlValue} {s : String} :
    database.matched (.text s) v = true ↔ v = .text s := by
  have hcompares : database.compares .eq (.text s) v = (.text s == v) := rfl
  rw [Database.matched, Database.compare, hcompares]
  by_cases hv : v = .null
  · simp [hv]
  · rw [if_neg (by simp [hv]), beq_iff_eq, SqlTruth.ofBool_eq_yes, beq_iff_eq]
    exact eq_comm

lemma foreignKeys : database.ForeignKeys mappings registry where
  unique {e name column t m u} mapped target v := by
    obtain ⟨-, -, -, rfl⟩ | ⟨-, -, -, rfl⟩ := maps_cases mapped
    · cases target
      exact List.length_filter_le _ [tech]
    · cases target
      exact List.length_filter_le _ [ann]
  found {e name column t m u x} mapped target hrow present := by
    obtain ⟨rfl, -, rfl, rfl⟩ | ⟨rfl, -, rfl, rfl⟩ := maps_cases mapped
    · cases mapped.entity
      cases target
      obtain rfl | rfl := List.mem_pair.mp hrow
      · exact absurd rfl present
      · exact ⟨tech, List.mem_singleton_self _, matched_text.mpr rfl⟩
    · cases mapped.entity
      cases target
      obtain rfl := List.mem_singleton.mp hrow
      exact ⟨ann, List.mem_singleton_self _, matched_text.mpr rfl⟩
  required {e name column t m p x} mapped declared needed hrow := by
    obtain ⟨rfl, rfl, -⟩ | ⟨rfl, -, rfl, -⟩ := maps_cases mapped
    · cases declared
      cases needed
    · cases mapped.entity
      obtain rfl := List.mem_singleton.mp hrow
      simp [tech, row]

end Holding

open Holding in
/-- The companies in the order of the names of the owners of their groups: the source of the query
has the one with a group once, and not the one without, which has no owner to join. -/
theorem selected_root_rows_companies :
    ∃ p criteria, registry.prepare Staff.context "Company" (.raw byOwner) = .ok p ∧
      mappings.MapsQuery registry "Company" p ∧ database.ForeignKeys mappings registry ∧
      Criteria.compile mappings "Company" p = .ok criteria ∧
      (∀ outer, (database.selected criteria.source outer).map
        (fun env => env criteria.source.name) = [full]) ∧
      ∃ hops ∈ p.joins, database.Strands mappings (some lone) hops := by
  obtain ⟨m, criteria, hm, hcriteria, hroots, hlost, -⟩ :=
    selected_root_rows prepare_byOwner mapsQuery foreignKeys
  obtain rfl : companies = m := Option.some.inj hm
  refine ⟨_, criteria, prepare_byOwner, mapsQuery, foreignKeys, hcriteria, fun outer => ?_, ?_⟩
  · rw [hroots outer]
    rfl
  · exact (hlost lone (List.mem_cons_self ..)).mp rfl

open Holding in
/-- The source of the query does not have the company without a group. -/
theorem inner_join_loses_root_row :
    ∃ p criteria, registry.prepare Staff.context "Company" (.raw byOwner) = .ok p ∧
      mappings.MapsQuery registry "Company" p ∧ database.ForeignKeys mappings registry ∧
      Criteria.compile mappings "Company" p = .ok criteria ∧
      database.rows criteria.source.table = [lone, full] ∧
      ∀ outer, (database.selected criteria.source outer).map
        (fun env => env criteria.source.name) = [full] :=
  ⟨_, _, prepare_byOwner, mapsQuery, foreignKeys, rfl, rfl, fun _ => rfl⟩

end EntityQuery
