import EntityQuery.Proofs.Criteria.Placeholders
import EntityQuery.Proofs.Criteria.RootRows
import EntityQuery.Proofs.Criteria.WellScoped

/-!
# Shared joins

Conditions and sort clauses that follow the same associations use the same join. A scope remembers
its tables by paths, so there is one table for each path, and a path that goes on from another one
goes on from its table. A sub-query is opened for a single condition, which shares its joins with no
other.
-/

namespace EntityQuery

/-! ### Paths of joins -/

/-- The names of the associations that a condition is joined along. -/
def Condition.joinPath (c : Condition) : List String :=
  c.property.joins.map PathSegment.name

/-- The names of the associations that a sort clause is joined along. -/
def Order.joinPath (o : Order PropertyPath) : List String :=
  o.property.parents.map PathSegment.name

/-- The paths that a query is joined along: those of its conditions and those of its sort clauses.
-/
def PreparedQuery.joinPaths (q : PreparedQuery) : List (List String) :=
  (q.predicate.toList.flatMap Predicate.conditions).map Condition.joinPath ++
    q.orders.map Order.joinPath

namespace Restriction

mutual

/-- The restrictions of the conditions, from left to right. -/
def leaves : Restriction → List Restriction
  | and children | or children => leavesAll children
  | r => [r]

/-- The restrictions of the conditions of a list, from left to right. -/
def leavesAll : List Restriction → List Restriction
  | [] => []
  | r :: rs => leaves r ++ leavesAll rs

end

/-- The table that the restriction of a condition is about: that of its column, or that of the rows
that a sub-query belongs to. -/
def table? : Restriction → Option Alias
  | and _ | or _ => none
  | compare column _ _ | like column _ _ _ | among column _ _ | null column _ => some column.table
  | subquery _ _ outer _ _ => some outer.table

lemma leaves_of_table? {r : Restriction} {a : Alias} (h : r.table? = some a) : r.leaves = [r] := by
  cases r with
  | and | or => cases h
  | _ => rfl

end Restriction

/-- The tables of a query, by the paths of associations that lead to them from the root table. -/
structure Criteria.JoinedBy (c : Criteria) (q : PreparedQuery)
    (tables : List String → Option Alias) : Prop where
  root : tables [] = some c.source.name
  /-- Every step of a path leads to the table of a join. -/
  joined {followed path : List String} {name : String} (h : followed ∈ q.joinPaths)
    (hbegins : path ++ [name] <+: followed) :
    ∃ j ∈ c.source.joins, tables (path ++ [name]) = some j.name
  /-- Every join is for a step of a path, and goes on from the table before the step. -/
  owners : ∀ j ∈ c.source.joins, ∃ followed ∈ q.joinPaths, ∃ path name,
    path ++ [name] <+: followed ∧ tables (path ++ [name]) = some j.name ∧
      tables path = some j.owner.table
  /-- Different paths lead to different tables, unless a name is empty or has a dot. -/
  apart (plain : ∀ followed ∈ q.joinPaths, ∀ name ∈ followed, name ≠ "" ∧ '.' ∉ name.toList)
    {followed followed' path path' : List String} (h : followed ∈ q.joinPaths)
    (h' : followed' ∈ q.joinPaths) (hbegins : path <+: followed) (hbegins' : path' <+: followed')
    (same : tables path = tables path') : path = path'
  conditions : List.Forall₂ (fun d r => ∃ a, tables d.joinPath = some a ∧ r.table? = some a)
    (q.predicate.toList.flatMap Predicate.conditions)
    (c.restriction.toList.flatMap Restriction.leaves)
  orders : List.Forall₂ (fun o column => tables o.joinPath = some column.1.table) q.orders c.orders

/-- Conditions and sort clauses on the same path of associations use the same join. -/
def Criteria.SharesJoins (c : Criteria) (q : PreparedQuery) : Prop :=
  ∃ tables, c.JoinedBy q tables

/-! ### The tables of a scope by their paths -/

namespace TableScope

/-- The name of the table at the end of a path of associations, as far as it has been joined. -/
def named? (scope : TableScope) (path : List String) : Option Alias :=
  if path = [] then some scope.root.name
  else (scope.joined.lookup (path.foldl joinKey "")).map MappedTable.name

/-- The invariant of a root scope: it has the tables of some paths, and no others. -/
structure Follows (scope : TableScope) (paths : List (List String)) : Prop where
  root : scope.root.name = scope.source.name
  names : scope.source.joins.map Join.name = (scope.joined.map fun entry => entry.2.name).reverse
  found : ∀ followed ∈ paths, ∀ path, path <+: followed → ∃ a, scope.named? path = some a
  owners : ∀ j ∈ scope.source.joins, ∃ followed ∈ paths, ∃ path name,
    path ++ [name] <+: followed ∧ scope.named? (path ++ [name]) = some j.name ∧
      scope.named? path = some j.owner.table

/-- A scope to which the tables of some paths are added. -/
structure Adds (scope scope' : TableScope) (paths : List (List String)) : Prop where
  root : scope'.root = scope.root
  kept : ∀ path a, scope.named? path = some a → scope'.named? path = some a
  follows : ∀ before, scope.Follows before → scope'.Follows (before ++ paths)

namespace Adds

variable {scope scope₁ scope' : TableScope} {paths paths' : List (List String)}
  {path rest : List String}

lemma refl (scope : TableScope) : scope.Adds scope [] :=
  ⟨rfl, fun _ _ h => h, fun before h => by rwa [List.append_nil]⟩

lemma trans (h : scope.Adds scope₁ paths) (h' : scope₁.Adds scope' paths') :
    scope.Adds scope' (paths ++ paths') := by
  refine ⟨h'.root.trans h.root, fun path a ha => h'.kept path a (h.kept path a ha),
    fun before hbefore => ?_⟩
  rw [← List.append_assoc]
  exact h'.follows _ (h.follows _ hbefore)

/-- A path whose tables are there already. -/
lemma of_found (found : ∀ p, p <+: path → ∃ a, scope.named? p = some a) :
    scope.Adds scope [path] := by
  refine ⟨rfl, fun _ _ h => h, fun before h => ⟨h.root, h.names, fun followed hfollowed => ?_,
    fun j hj => ?_⟩⟩
  · obtain hfollowed | hfollowed := List.mem_append.mp hfollowed
    · exact h.found followed hfollowed
    · rwa [List.mem_singleton.mp hfollowed]
  · obtain ⟨followed, hfollowed, hsteps⟩ := h.owners j hj
    exact ⟨followed, List.mem_append_left _ hfollowed, hsteps⟩

/-- A path that goes on from one that is followed before. -/
lemma absorb (h : scope.Adds scope' [path, path ++ rest]) : scope.Adds scope' [path ++ rest] := by
  refine ⟨h.root, h.kept, fun before hbefore => ?_⟩
  obtain ⟨hroot, hnames, hfound, howners⟩ := h.follows before hbefore
  refine ⟨hroot, hnames, fun followed hfollowed => hfound followed ?_, fun j hj => ?_⟩
  · simp only [List.mem_append, List.mem_cons] at hfollowed ⊢
    tauto
  · obtain ⟨followed, hfollowed, p, name, hbegins, hnamed⟩ := howners j hj
    obtain hfollowed | hfollowed := List.mem_append.mp hfollowed
    · exact ⟨followed, List.mem_append_left _ hfollowed, p, name, hbegins, hnamed⟩
    · refine ⟨path ++ rest, by simp, p, name, ?_, hnamed⟩
      obtain rfl | rfl := List.mem_pair.mp hfollowed
      · exact hbegins.trans (List.prefix_append ..)
      · exact hbegins

end Adds

variable {ms : Mappings} {scope scope' : TableScope} {n n' : Nat} {table next : MappedTable}
  {leaf : PathSegment} {s : Strategy} {vs : List Value} {restriction : Restriction}
  {path : List String} {name : String}

lemma foldl_joinKey_append :
    (path ++ [name]).foldl joinKey "" = joinKey (path.foldl joinKey "") name := by
  rw [List.foldl_append]
  rfl

/-- The prefixes of a path with one more step. -/
lemma prefix_append_singleton {p : List String} (h : p <+: path ++ [name]) :
    p = path ++ [name] ∨ p <+: path :=
  List.prefix_concat_iff.mp h

lemma named?_append : scope.named? (path ++ [name]) =
    (scope.joined.lookup (joinKey (path.foldl joinKey "") name)).map MappedTable.name := by
  rw [named?, if_neg (by simp), foldl_joinKey_append]

lemma Adds.found_append {paths : List (List String)} {a : Alias} (h : scope.Adds scope' paths)
    (found : ∀ p, p <+: path → ∃ a, scope.named? p = some a)
    (hnext : scope'.named? (path ++ [name]) = some a) :
    ∀ p, p <+: path ++ [name] → ∃ a, scope'.named? p = some a := by
  intro p hp
  obtain rfl | hp := prefix_append_singleton hp
  · exact ⟨a, hnext⟩
  · obtain ⟨b, hb⟩ := found p hp
    exact ⟨b, h.kept p b hb⟩

lemma named?_added {key : String} {j : Join} (hlookup : scope.joined.lookup key = none) {a : Alias}
    (h : scope.named? path = some a) : (Storage.added scope key next j).named? path = some a := by
  unfold named? at h ⊢
  split at h
  · rename_i hnil
    rw [if_pos hnil]
    exact h
  · rename_i hnil
    have hkey : (path.foldl joinKey "" == key) = false := by
      rw [beq_eq_false_iff_ne]
      rintro rfl
      simp [hlookup] at h
    rw [if_neg hnil, Storage.added, List.lookup_cons, hkey]
    exact h

/-- **Joins** add the table of one more step. -/
lemma adds_join {column target : String} {nullable : Bool} {owner : Alias}
    (found : ∀ p, p <+: path → ∃ a, scope.named? p = some a)
    (howner : scope.named? path = some owner)
    (h : join ms scope (joinKey (path.foldl joinKey "") name) owner column target nullable n =
      .ok (next, scope', n')) :
    scope.Adds scope' [path ++ [name]] ∧ scope'.named? (path ++ [name]) = some next.name := by
  obtain ⟨hlookup, rfl, -⟩ | ⟨m, hlookup, -, rfl, rfl, -⟩ := found_or_added_of_join h
  · have hnamed : scope'.named? (path ++ [name]) = some next.name := by
      rw [named?_append, hlookup]
      rfl
    -- no join is added, even if the table was joined for another path of the same key
    refine ⟨.of_found fun p hp => ?_, hnamed⟩
    obtain rfl | hp := prefix_append_singleton hp
    · exact ⟨_, hnamed⟩
    · exact found p hp
  · set next : MappedTable := ⟨⟨'t', n⟩, m⟩
    set key := joinKey (path.foldl joinKey "") name
    set j : Join := ⟨if nullable then .left else .inner, m.table, ⟨'t', n⟩, m.idColumn,
      ⟨owner, column⟩⟩
    have hnamed : (Storage.added scope key next j).named? (path ++ [name]) = some next.name := by
      simp [named?_append, Storage.added, key]
    refine ⟨⟨rfl, fun p a ha => named?_added hlookup ha, fun before hbefore => ⟨hbefore.root, ?_,
      fun followed hfollowed p hp => ?_, fun i hi => ?_⟩⟩, hnamed⟩
    · simp [Storage.added, hbefore.names, j, next]
    · obtain hfollowed | hfollowed := List.mem_append.mp hfollowed
      · obtain ⟨a, ha⟩ := hbefore.found followed hfollowed p hp
        exact ⟨a, named?_added hlookup ha⟩
      · obtain rfl := List.mem_singleton.mp hfollowed
        obtain rfl | hp := prefix_append_singleton hp
        · exact ⟨_, hnamed⟩
        · obtain ⟨a, ha⟩ := found p hp
          exact ⟨a, named?_added hlookup ha⟩
    · obtain hi | hi := List.mem_append.mp (show i ∈ scope.source.joins ++ [j] from hi)
      · obtain ⟨followed, hfollowed, p, step, hbegins, hname, hsource⟩ := hbefore.owners i hi
        exact ⟨followed, List.mem_append_left _ hfollowed, p, step, hbegins,
          named?_added hlookup hname, named?_added hlookup hsource⟩
      · obtain rfl := List.mem_singleton.mp hi
        exact ⟨_, List.mem_append_right _ (List.mem_singleton_self _), path, name,
          List.prefix_refl _, hnamed, named?_added hlookup howner⟩

/-! ### Conditions -/

lemma table?_columnRestriction {column : ColumnRef}
    (h : columnRestriction? column s vs = some restriction) :
    restriction.table? = some column.table := by
  cases s with
  | emptiness | containment => cases h
  | _ =>
    obtain rfl := Option.some.inj h
    rfl

lemma table?_collectionRestriction {rows : ElementRows}
    (h : collectionRestriction table leaf s vs rows = .ok restriction) :
    restriction.table? = some table.name := by
  cases s with
  | emptiness | containment =>
    obtain rfl := Except.ok.inj h
    rfl
  | _ => cases h

/-- The restriction at the end of a path is about the table there. -/
lemma table?_leafRestriction (h : leafRestriction ms table leaf s vs n = .ok (restriction, n')) :
    restriction.table? = some table.name := by
  obtain ⟨c, -, ⟨name, -, hr, -⟩ | ⟨rows, -, hr⟩⟩ := column_or_rows_of_leafRestriction h
  · exact table?_columnRestriction hr
  · exact table?_collectionRestriction hr

/-- The restriction of a condition is about the table at the end of the joins on its path. -/
def Reaches (scope : TableScope) (path : List String) (restriction : Restriction) : Prop :=
  ∃ a, scope.named? path = some a ∧ restriction.table? = some a

/-- **Paths** add the tables of their associations up to the first collection. -/
lemma adds_along {hops : List PathSegment}
    (found : ∀ p, p <+: path → ∃ a, scope.named? p = some a)
    (htable : scope.named? path = some table.name)
    (h : along ms leaf s vs scope table (path.foldl joinKey "") hops n =
      .ok (restriction, scope', n')) :
    scope.Adds scope' [path ++ (hops.takeWhile fun s => !s.indexed).map PathSegment.name] ∧
      scope'.Reaches (path ++ (hops.takeWhile fun s => !s.indexed).map PathSegment.name)
        restriction := by
  induction hops generalizing scope table path n with
  | nil =>
    obtain ⟨⟨r, k⟩, hr, hresult⟩ := exists_of_map_eq_ok h
    cases hresult
    rw [List.takeWhile_nil, List.map_nil, List.append_nil]
    exact ⟨.of_found found, _, htable, table?_leafRestriction hr⟩
  | cons hop rest ih =>
    obtain ⟨c, hc, ⟨hindexed, rows, k, target, inner, r, -, -, -, rfl, rfl⟩ |
      ⟨hindexed, column, target, next, scope₁, k, rfl, hjoin, halong⟩⟩ :=
        elements_or_join_of_along h
    · -- what the sub-query joins stays in its own scope
      rw [List.takeWhile_cons_of_neg (by simp [hindexed]), List.map_nil, List.append_nil]
      exact ⟨.of_found found, _, htable, rfl⟩
    · rw [List.takeWhile_cons_of_pos (by simp [hindexed]), List.map_cons]
      obtain ⟨hadds, hnext⟩ := adds_join found htable hjoin
      rw [← foldl_joinKey_append] at halong
      obtain ⟨hadds', hreaches⟩ := ih (hadds.found_append found hnext) hnext halong
      rw [List.append_cons]
      exact ⟨(hadds.trans hadds').absorb, hreaches⟩

lemma Reaches.mono {paths : List (List String)} (h : scope.Reaches path restriction)
    (hadds : scope.Adds scope' paths) : scope'.Reaches path restriction := by
  obtain ⟨a, hnamed, htable⟩ := h
  exact ⟨a, hadds.kept path a hnamed, htable⟩

lemma found_nil (scope : TableScope) : ∀ p, p <+: [] → ∃ a, scope.named? p = some a := by
  intro p hp
  obtain rfl := List.prefix_nil.mp hp
  exact ⟨_, rfl⟩

lemma adds_condition {c : Condition}
    (h : conditionRestriction ms scope c n = .ok (restriction, scope', n')) :
    scope.Adds scope' [c.joinPath] ∧ scope'.Reaches c.joinPath restriction := by
  obtain ⟨s, -, halong⟩ := along_of_conditionRestriction h
  exact adds_along (found_nil scope) rfl halong

/-! ### Predicates and sort clauses -/

/-- **Predicates** add the tables for all their conditions. -/
lemma adds_restriction {p : Predicate Condition}
    (h : TableScope.restriction ms scope n p = .ok (restriction, scope', n')) :
    scope.Adds scope' (p.conditions.map Condition.joinPath) ∧
      List.Forall₂ (fun c r => scope'.Reaches c.joinPath r) p.conditions restriction.leaves := by
  refine of_restriction
    (Q := fun scope _ p r scope' _ =>
      scope.Adds scope' (p.conditions.map Condition.joinPath) ∧
        List.Forall₂ (fun c r => scope'.Reaches c.joinPath r) p.conditions r.leaves)
    (R := fun scope _ ps rs scope' _ =>
      scope.Adds scope' ((ps.flatMap Predicate.conditions).map Condition.joinPath) ∧
        List.Forall₂ (fun c r => scope'.Reaches c.joinPath r) (ps.flatMap Predicate.conditions)
          (Restriction.leavesAll rs)) ?_ ?_ ?_ ?_ h
  · intro scope n c r scope' n' hcondition
    obtain ⟨hadds, hreaches⟩ := adds_condition hcondition
    obtain ⟨a, -, htable⟩ := id hreaches
    rw [Predicate.conditions_cond, Restriction.leaves_of_table? htable]
    exact ⟨hadds, .cons hreaches .nil⟩
  · exact fun scope n => ⟨.refl scope, .nil⟩
  · rintro scope n p r scope₁ k ps rs scope' n' ⟨hadds, hreaches⟩ ⟨hadds', hreaches'⟩
    rw [List.flatMap_cons, List.map_append]
    exact ⟨hadds.trans hadds', List.rel_append (hreaches.imp fun _ _ h => h.mono hadds') hreaches'⟩
  · intro scope n ps rs scope' n' j r hall hr
    rw [Predicate.conditions_junction]
    obtain rfl | rfl := hr <;> exact hall

lemma adds_queryRestriction {p? : Option (Predicate Condition)} {r? : Option Restriction}
    (h : queryRestriction ms scope n p? = .ok (r?, scope', n')) :
    scope.Adds scope' ((p?.toList.flatMap Predicate.conditions).map Condition.joinPath) ∧
      List.Forall₂ (fun c r => scope'.Reaches c.joinPath r)
        (p?.toList.flatMap Predicate.conditions) (r?.toList.flatMap Restriction.leaves) := by
  cases p? with
  | none =>
    cases h
    exact ⟨.refl _, .nil⟩
  | some p =>
    obtain ⟨⟨r, _⟩, hr, hresult⟩ := exists_of_map_eq_ok h
    cases hresult
    simpa using adds_restriction hr

lemma adds_sortTable {hops : List PathSegment} {last : MappedTable}
    (found : ∀ p, p <+: path → ∃ a, scope.named? p = some a)
    (htable : scope.named? path = some table.name)
    (h : sortTable ms scope table (path.foldl joinKey "") hops n = .ok (last, scope', n')) :
    scope.Adds scope' [path ++ hops.map PathSegment.name] ∧
      scope'.named? (path ++ hops.map PathSegment.name) = some last.name := by
  induction hops generalizing scope table path n with
  | nil =>
    cases h
    rw [List.map_nil, List.append_nil]
    exact ⟨.of_found found, htable⟩
  | cons hop rest ih =>
    obtain ⟨column, target, next, scope₁, k, -, hjoin, hrest⟩ := join_of_sortTable h
    obtain ⟨hadds, hnext⟩ := adds_join found htable hjoin
    rw [← foldl_joinKey_append] at hrest
    obtain ⟨hadds', hlast⟩ := ih (hadds.found_append found hnext) hnext hrest
    rw [List.map_cons, List.append_cons]
    exact ⟨(hadds.trans hadds').absorb, hlast⟩

/-- **Sort clauses** add the tables on their paths, and are about the tables at the ends. -/
lemma adds_sortColumns {os : List (Order PropertyPath)} {columns : List (ColumnRef × Direction)}
    (h : sortColumns ms scope n os = .ok (columns, scope', n')) :
    scope.Adds scope' (os.map Order.joinPath) ∧
      List.Forall₂ (fun o column => scope'.named? o.joinPath = some column.1.table) os columns := by
  induction os generalizing scope n columns with
  | nil =>
    cases h
    exact ⟨.refl _, .nil⟩
  | cons o os ih =>
    obtain ⟨column, scope₁, k, columns', hcolumn, hcolumns, rfl⟩ := cons_of_sortColumns h
    obtain ⟨last, name, htable, -, rfl⟩ := sortTable_of_sortColumn hcolumn
    obtain ⟨hadds, hlast⟩ := adds_sortTable (found_nil scope) rfl htable
    obtain ⟨hadds', hall⟩ := ih hcolumns
    exact ⟨hadds.trans hadds', .cons (hadds'.kept _ _ hlast) hall⟩

/-! ### Tables and joins -/

namespace Follows

variable {paths : List (List String)} {path' : List String} {name' : String} {a : Alias}

lemma mem_joined (h : scope.named? (path ++ [name]) = some a) :
    ∃ t, ((path ++ [name]).foldl joinKey "", t) ∈ scope.joined ∧ t.name = a := by
  rw [named?, if_neg (by simp), Option.map_eq_some_iff] at h
  obtain ⟨t, hlookup, ht⟩ := h
  exact ⟨t, mem_of_lookup hlookup, ht⟩

/-- The table at the end of a path is that of a join. -/
lemma exists_join (hfollows : scope.Follows paths) (h : scope.named? (path ++ [name]) = some a) :
    ∃ j ∈ scope.source.joins, j.name = a := by
  obtain ⟨t, hmem, rfl⟩ := mem_joined h
  refine List.mem_map.mp ?_
  rw [hfollows.names, List.mem_reverse]
  exact List.mem_map_of_mem hmem

lemma ne_root (hfollows : scope.Follows paths) (distinct : scope.source.aliases.Nodup)
    (h : scope.named? (path ++ [name]) = some a) : a ≠ scope.root.name := by
  obtain ⟨j, hj, rfl⟩ := hfollows.exists_join h
  rw [hfollows.root]
  rintro heq
  exact (List.nodup_cons.mp distinct).1 (heq ▸ List.mem_map_of_mem hj)

/-- Paths that lead to one table have one key. -/
lemma key_eq (hfollows : scope.Follows paths) (distinct : scope.source.aliases.Nodup)
    (h : scope.named? (path ++ [name]) = some a) (h' : scope.named? (path' ++ [name']) = some a) :
    (path ++ [name]).foldl joinKey "" = (path' ++ [name']).foldl joinKey "" := by
  obtain ⟨t, hmem, ht⟩ := mem_joined h
  obtain ⟨t', hmem', ht'⟩ := mem_joined h'
  have hnodup : (scope.joined.map fun entry => entry.2.name).Nodup := by
    rw [← List.nodup_reverse, ← hfollows.names]
    exact (List.nodup_cons.mp distinct).2
  exact congrArg Prod.fst (List.inj_on_of_nodup_map hnodup hmem hmem' (ht.trans ht'.symm))

/-- **Plain paths to one table are the same.** -/
lemma eq_of_named? (hfollows : scope.Follows paths) (distinct : scope.source.aliases.Nodup)
    (plain : ∀ name ∈ path, name ≠ "" ∧ '.' ∉ name.toList)
    (plain' : ∀ name ∈ path', name ≠ "" ∧ '.' ∉ name.toList)
    (h : scope.named? path = some a) (h' : scope.named? path' = some a) : path = path' := by
  obtain rfl | ⟨p, x, rfl⟩ := path.eq_nil_or_concat' <;>
    obtain rfl | ⟨p', x', rfl⟩ := path'.eq_nil_or_concat'
  · rfl
  · exact absurd (Option.some.inj h).symm (hfollows.ne_root distinct h')
  · exact absurd (Option.some.inj h').symm (hfollows.ne_root distinct h)
  · have hsplit := (splitDots_foldl_joinKey plain (by simp)).2
    rw [hfollows.key_eq distinct h h', (splitDots_foldl_joinKey plain' (by simp)).2] at hsplit
    exact List.map_injective_iff.mpr (fun _ _ => String.toList_inj.mp) hsplit.symm

end Follows

end TableScope

/-! ### Queries -/

namespace Criteria

variable {ms : Mappings} {entity : String} {q : PreparedQuery} {c : Criteria}

lemma sharesJoins_of_compile (h : compile ms entity q = .ok c) : c.SharesJoins q := by
  have hdistinct : c.source.aliases.Nodup := by
    have haliases := (wellScoped_of_compile h).distinct.of_map
    exact (List.nodup_append.mp haliases).1
  obtain ⟨m, scope₁, n₁, scope₂, n₂, -, hrestriction, hcolumns, hsource, -⟩ := scopes_of_compile h
  obtain ⟨hadds, hconditions⟩ := TableScope.adds_queryRestriction hrestriction
  obtain ⟨hadds', horders⟩ := TableScope.adds_sortColumns hcolumns
  have hfollows : scope₂.Follows q.joinPaths :=
    (hadds.trans hadds').follows [] ⟨rfl, rfl, by simp, by simp⟩
  rw [hsource] at hdistinct
  refine ⟨scope₂.named?, ?_, fun {followed path name} hfollowed hbegins => ?_, ?_,
    fun plain {followed followed' path path'} hfollowed hfollowed' hbegins hbegins' same => ?_,
    hconditions.imp fun _ _ h => h.mono hadds', horders⟩
  · rw [hsource, ← hfollows.root]
    rfl
  · obtain ⟨a, ha⟩ := hfollows.found followed hfollowed _ hbegins
    obtain ⟨j, hj, rfl⟩ := hfollows.exists_join ha
    exact ⟨j, hsource ▸ hj, ha⟩
  · rw [hsource]
    exact hfollows.owners
  · obtain ⟨a, ha⟩ := hfollows.found followed hfollowed _ hbegins
    refine hfollows.eq_of_named? hdistinct (fun name hname => ?_) (fun name hname => ?_) ha
      (same ▸ ha)
    · exact plain followed hfollowed name (hbegins.subset hname)
    · exact plain followed' hfollowed' name (hbegins'.subset hname)

/-- **The names of tables** in a compiled query are all different, and each column is one of a table
that is seen where it stands. Conditions and sort clauses on the same path of associations use the
same join. -/
theorem names_of_compile (h : compile ms entity q = .ok c) : c.WellScoped ∧ c.SharesJoins q :=
  ⟨wellScoped_of_compile h, sharesJoins_of_compile h⟩

end Criteria

/-! ### A join that a condition and a sort clause share -/

namespace Agency

/-- The query for tagged companies of two groups, in the order of the names of their groups. -/
def byGroup : PreparedQuery :=
  ⟨(tagged "a" "b" "c").predicate, [⟨groupName, .ascending⟩]⟩

end Agency

open Agency in
/-- The group is joined once for the condition and for the sort clause, and the sub-query for the
tags has a name of its own. -/
theorem names_of_compile_companies :
    ∃ c, Criteria.compile mappings "Company" byGroup = .ok c ∧
      c.source.joins.map Join.name = [⟨'t', 1⟩] ∧ c.aliases = [⟨'t', 0⟩, ⟨'t', 1⟩, ⟨'e', 2⟩] ∧
      c.WellScoped ∧ c.SharesJoins byGroup :=
  ⟨_, rfl, rfl, rfl, Criteria.names_of_compile
    (show Criteria.compile mappings "Company" byGroup = .ok _ from rfl)⟩

end EntityQuery
