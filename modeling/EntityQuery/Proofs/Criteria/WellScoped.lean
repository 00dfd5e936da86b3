import EntityQuery.Proofs.Criteria.Steps
import EntityQuery.Proofs.Text.Numeral
import Mathlib.Data.List.Nodup

/-!
# The names of tables

Every table of a relational query has a name of its own, and every column is one of a table that is
seen where the column stands. One counter numbers the tables of all scopes: what a step of the
compiler names, whether it joins a table to the scope at hand or opens a sub-query, has numbers of a
range that no other step has.
-/

namespace EntityQuery

/-! ### Names and where they are seen -/

/-- The names of the tables of a source. -/
def Source.aliases (s : Source) : List Alias :=
  s.name :: s.joins.map Join.name

/-- Each join is with a table that was introduced before it. -/
def Join.Ordered : List Alias → List Join → Prop
  | _, [] => True
  | known, j :: js => j.owner.table ∈ known ∧ Ordered (known ++ [j.name]) js

/-- The joins of a source are with tables that it introduced before them. -/
def Source.Ordered (s : Source) : Prop :=
  Join.Ordered [s.name] s.joins

namespace Restriction

mutual

/-- The names of the tables of all sub-queries, at any depth. -/
def aliases : Restriction → List Alias
  | and children | or children => aliasesAll children
  | compare _ _ _ | like _ _ _ _ | among _ _ _ | null _ _ => []
  | subquery source _ _ restriction _ => source.aliases ++ aliasesInner restriction

/-- The names of the tables of all sub-queries of a list. -/
def aliasesAll : List Restriction → List Alias
  | [] => []
  | r :: rs => aliases r ++ aliasesAll rs

/-- The names of the tables of all sub-queries inside a sub-query. -/
def aliasesInner : Option Restriction → List Alias
  | none => []
  | some r => aliases r

end

/-- The columns of a restriction are those of tables that are known where it stands. Inside a
sub-query these are the tables of the sub-query itself; of the tables around it, it sees the one
whose rows it belongs to. -/
inductive Scoped : List Alias → Restriction → Prop
  | and {known : List Alias} {rs : List Restriction} (all : ∀ r ∈ rs, Scoped known r) :
    Scoped known (.and rs)
  | or {known : List Alias} {rs : List Restriction} (all : ∀ r ∈ rs, Scoped known r) :
    Scoped known (.or rs)
  | compare {known : List Alias} {column : ColumnRef} (h : column.table ∈ known)
    (comparison : Comparison) (v : SqlValue) : Scoped known (.compare column comparison v)
  | like {known : List Alias} {column : ColumnRef} (h : column.table ∈ known) (v : SqlValue)
    (ignoreCase negated : Bool) : Scoped known (.like column v ignoreCase negated)
  | among {known : List Alias} {column : ColumnRef} (h : column.table ∈ known) (vs : List SqlValue)
    (negated : Bool) : Scoped known (.among column vs negated)
  | null {known : List Alias} {column : ColumnRef} (h : column.table ∈ known) (negated : Bool) :
    Scoped known (.null column negated)
  | subquery {known : List Alias} {source : Source} {inner outer : ColumnRef}
    {restriction : Option Restriction} (ordered : source.Ordered)
    (hinner : inner.table ∈ source.aliases) (houter : outer.table ∈ known)
    (h : ∀ r ∈ restriction, Scoped source.aliases r) (negated : Bool) :
    Scoped known (.subquery source inner outer restriction negated)

end Restriction

/-- The names of all tables of a query, those of its sub-queries among them. -/
def Criteria.aliases (c : Criteria) : List Alias :=
  c.source.aliases ++ Restriction.aliasesInner c.restriction

/-- A relational query whose tables have names of their own, and whose columns are those of tables
that are known where they stand. -/
structure Criteria.WellScoped (c : Criteria) : Prop where
  distinct : (c.aliases.map Alias.text).Nodup
  ordered : c.source.Ordered
  restriction : ∀ r ∈ c.restriction, r.Scoped c.source.aliases
  orders : ∀ column ∈ c.orders, column.1.table ∈ c.source.aliases

/-! ### Lemmas about them -/

lemma Alias.number_eq_of_text {a b : Alias} (h : a.text = b.text) : a.number = b.number := by
  have hdigits : ∀ c : Alias, c.text.toList.tail = Text.numeral c.number := by
    intro c
    simp [Alias.text, Text.integerText]
  have hnumeral : Text.numeral a.number = Text.numeral b.number := by
    rw [← hdigits, h, hdigits]
  rw [← Text.digitsValue_numeral a.number, hnumeral, Text.digitsValue_numeral]

lemma Join.Ordered.append {known : List Alias} {js : List Join} {j : Join}
    (h : Ordered known js) (howner : j.owner.table ∈ known ++ js.map Join.name) :
    Ordered known (js ++ [j]) := by
  induction js generalizing known with
  | nil => exact ⟨by simpa using howner, trivial⟩
  | cons i js ih => exact ⟨h.1, ih h.2 (by simpa using howner)⟩

lemma Restriction.Scoped.mono {known known' : List Alias} {r : Restriction} (h : r.Scoped known)
    (sub : known ⊆ known') : r.Scoped known' := by
  induction h with
  | and _ ih => exact .and fun r hr => ih r hr sub
  | or _ ih => exact .or fun r hr => ih r hr sub
  | compare h => exact .compare (sub h) _ _
  | like h => exact .like (sub h) _ _ _
  | among h => exact .among (sub h) _ _
  | null h => exact .null (sub h) _
  | subquery ordered hinner houter h => exact .subquery ordered hinner (sub houter) h _

/-! ### Numbers -/

/-- Names with different numbers of a range. -/
structure Alias.Fresh (n n' : Nat) (as : List Alias) : Prop where
  le : n ≤ n'
  nodup : (as.map Alias.number).Nodup
  range : ∀ a ∈ as, n ≤ a.number ∧ a.number < n'

namespace Alias.Fresh

variable {n k n' : Nat} {as bs cs ds : List Alias}

lemma nil (h : n ≤ n') : Fresh n n' [] :=
  ⟨h, .nil, by simp⟩

lemma single {a : Alias} (h : n ≤ a.number) (h' : a.number < n') : Fresh n n' [a] :=
  ⟨by omega, by simp, by simp [h, h']⟩

lemma perm (h : Fresh n n' as) (hp : as.Perm bs) : Fresh n n' bs :=
  ⟨h.le, (hp.map Alias.number).nodup_iff.mp h.nodup, fun a ha => h.range a (hp.mem_iff.mpr ha)⟩

lemma append (h : Fresh n k as) (h' : Fresh k n' bs) : Fresh n n' (as ++ bs) := by
  refine ⟨h.le.trans h'.le, ?_, fun a ha => ?_⟩
  · rw [List.map_append]
    refine List.Nodup.append h.nodup h'.nodup fun m hm hm' => ?_
    obtain ⟨a, ha, rfl⟩ := List.mem_map.mp hm
    obtain ⟨b, hb, hab⟩ := List.mem_map.mp hm'
    have := h.range a ha
    have := h'.range b hb
    omega
  · have := h.le
    have := h'.le
    obtain ha | ha := List.mem_append.mp ha
    · have := h.range a ha
      omega
    · have := h'.range a ha
      omega

/-- What two steps name in the scope at hand, and what they name elsewhere. -/
lemma append_append (h : Fresh n k (as ++ bs)) (h' : Fresh k n' (cs ++ ds)) :
    Fresh n n' ((as ++ cs) ++ (bs ++ ds)) := by
  refine (h.append h').perm ?_
  rw [List.append_assoc, List.append_assoc]
  exact .append_left as (List.perm_append_comm_assoc ..)

end Alias.Fresh

/-! ### Scopes -/

/-- The rows of a property, whose tables are numbered from a range. -/
structure ElementRows.Formed (rows : ElementRows) (n n' : Nat) : Prop where
  ordered : rows.source.Ordered
  fresh : Alias.Fresh n n' rows.source.aliases
  inner : rows.inner.table = rows.source.name
  element : rows.element.table = rows.source.name
  target : ∀ t ∈ rows.target?, t.name ∈ rows.source.aliases

namespace TableScope

/-- The invariant of a scope: its tables are those of its source. -/
structure Formed (scope : TableScope) : Prop where
  ordered : scope.source.Ordered
  root : scope.root.name ∈ scope.source.aliases
  joined : ∀ entry ∈ scope.joined, entry.2.name ∈ scope.source.aliases

/-- A scope with more joins. The numbers of a range are enough for these, and for other names that
came up with them. -/
structure Extends (scope scope' : TableScope) (n n' : Nat) (as : List Alias) : Prop where
  formed : scope'.Formed
  root : scope'.root = scope.root
  joins : ∃ added, scope'.source = { scope.source with joins := scope.source.joins ++ added } ∧
    Alias.Fresh n n' (added.map Join.name ++ as)

namespace Extends

variable {scope scope₁ scope' : TableScope} {n k n' : Nat} {as bs : List Alias}

/-- A scope without more joins. -/
lemma of_fresh (h : scope.Formed) (fresh : Alias.Fresh n n' as) : scope.Extends scope n n' as :=
  ⟨h, rfl, [], by simp, fresh⟩

lemma trans (h : scope.Extends scope₁ n k as) (h' : scope₁.Extends scope' k n' bs) :
    scope.Extends scope' n n' (as ++ bs) := by
  obtain ⟨added, hsource, hfresh⟩ := h.joins
  obtain ⟨added', hsource', hfresh'⟩ := h'.joins
  refine ⟨h'.formed, h'.root.trans h.root, added ++ added', ?_, ?_⟩
  · rw [hsource', hsource, List.append_assoc]
  · rw [List.map_append]
    exact hfresh.append_append hfresh'

lemma subset (h : scope.Extends scope' n n' as) : scope.source.aliases ⊆ scope'.source.aliases := by
  obtain ⟨added, hsource, -⟩ := h.joins
  rw [hsource]
  simp [Source.aliases]

end Extends

variable {ms : Mappings} {scope scope' : TableScope} {n n' : Nat} {table : MappedTable}
  {leaf : PathSegment} {s : Strategy} {vs : List Value} {restriction : Restriction}
  {known : List Alias}

/-- **Joins** take one number for each table that was not there before. -/
lemma extends_join {key column target : String} {owner : Alias} {nullable : Bool}
    {next : MappedTable} (hscope : scope.Formed) (howner : owner ∈ scope.source.aliases)
    (h : join ms scope key owner column target nullable n = .ok (next, scope', n')) :
    scope.Extends scope' n n' [] ∧ next.name ∈ scope'.source.aliases := by
  obtain ⟨hlookup, rfl, rfl⟩ | ⟨m, -, -, rfl, rfl, rfl⟩ := found_or_added_of_join h
  · exact ⟨.of_fresh hscope (.nil le_rfl), hscope.joined _ (mem_of_lookup hlookup)⟩
  · set j : Join := ⟨if nullable then .left else .inner, m.table, ⟨'t', n⟩, m.idColumn,
      ⟨owner, column⟩⟩
    have haliases : (Storage.added scope key ⟨⟨'t', n⟩, m⟩ j).source.aliases =
        scope.source.aliases ++ [⟨'t', n⟩] := by
      simp [Storage.added, Source.aliases, j]
    have hsub : scope.source.aliases ⊆ scope.source.aliases ++ [⟨'t', n⟩] :=
      List.subset_append_left ..
    refine ⟨⟨⟨hscope.ordered.append howner, ?_, ?_⟩, rfl, [j], rfl, .single le_rfl
      (Nat.lt_succ_self n)⟩, ?_⟩
    · exact haliases ▸ hsub hscope.root
    · rw [haliases]
      refine List.forall_mem_cons.mpr ⟨by simp, fun entry hentry => ?_⟩
      exact hsub (hscope.joined entry hentry)
    · simp [haliases]

/-- The rows of a property take numbers for their tables. -/
lemma formed_of_elementRows {m : EntityMapping} {property : String} {c : ColumnMapping}
    {rows : ElementRows} (h : elementRows ms m property n c = .ok (rows, n')) :
    rows.Formed n n' := by
  unfold elementRows at h
  split at h
  · obtain ⟨t, -, hrows⟩ := exists_of_map_eq_ok h
    cases hrows
    exact ⟨trivial, .single le_rfl (by simp), rfl, rfl, by simp [Source.aliases]⟩
  · obtain ⟨t, -, hrows⟩ := exists_of_map_eq_ok h
    cases hrows
    have hlink : Alias.Fresh n (n + 1) [⟨'j', n⟩] := .single le_rfl (by simp)
    have hname : Alias.Fresh (n + 1) (n + 2) [⟨'t', n + 1⟩] := .single le_rfl (by simp)
    exact ⟨⟨by simp, trivial⟩, hlink.append hname, rfl, rfl, by simp [Source.aliases]⟩
  · cases h
    exact ⟨trivial, .single le_rfl (by simp), rfl, rfl, by simp⟩
  · cases h
  · cases h

/-! ### Conditions -/

lemma scoped_columnRestriction {column : ColumnRef} (hcolumn : column.table ∈ known)
    (h : columnRestriction? column s vs = some restriction) :
    restriction.Scoped known ∧ restriction.aliases = [] := by
  cases s with
  | equality | ordering =>
    obtain rfl := Option.some.inj h
    exact ⟨.compare hcolumn _ _, rfl⟩
  | pattern =>
    obtain rfl := Option.some.inj h
    exact ⟨.like hcolumn _ _ _, rfl⟩
  | membership =>
    obtain rfl := Option.some.inj h
    exact ⟨.among hcolumn _ _, rfl⟩
  | nullness =>
    obtain rfl := Option.some.inj h
    exact ⟨.null hcolumn _, rfl⟩
  | emptiness | containment => cases h

lemma scoped_collectionRestriction {rows : ElementRows} (htable : table.name ∈ known)
    (hrows : rows.Formed n n') (h : collectionRestriction table leaf s vs rows = .ok restriction) :
    restriction.Scoped known ∧ restriction.aliases = [rows.source.name] := by
  have hinner : rows.inner.table ∈ Source.aliases { rows.source with joins := [] } := by
    simp [hrows.inner, Source.aliases]
  have hordered : Source.Ordered { rows.source with joins := [] } := trivial
  cases s with
  | emptiness =>
    obtain rfl := Except.ok.inj h
    exact ⟨.subquery hordered hinner htable (by simp) _, rfl⟩
  | containment =>
    obtain rfl := Except.ok.inj h
    have helement : rows.element.table ∈ Source.aliases { rows.source with joins := [] } := by
      simp [hrows.element, Source.aliases]
    exact ⟨.subquery hordered hinner htable (by simpa using .compare helement _ _) _, rfl⟩
  | _ => cases h

/-- The restriction at the end of a path sees the table there. -/
lemma scoped_leafRestriction (htable : table.name ∈ known)
    (h : leafRestriction ms table leaf s vs n = .ok (restriction, n')) :
    restriction.Scoped known ∧ Alias.Fresh n n' restriction.aliases := by
  obtain ⟨c, -, ⟨name, -, hr, rfl⟩ | ⟨rows, hrows, hr⟩⟩ := column_or_rows_of_leafRestriction h
  · obtain ⟨hscoped, haliases⟩ := scoped_columnRestriction htable hr
    exact ⟨hscoped, haliases ▸ .nil le_rfl⟩
  · have hformed := formed_of_elementRows hrows
    obtain ⟨hscoped, haliases⟩ := scoped_collectionRestriction htable hformed hr
    refine ⟨hscoped, haliases ▸ ?_⟩
    have hname := hformed.fresh.range rows.source.name (by simp [Source.aliases])
    exact .single hname.1 hname.2

/-- **Paths** add joins to their scope, and open sub-queries with scopes of their own. -/
lemma scoped_along {key : String} {hops : List PathSegment} (hscope : scope.Formed)
    (htable : table.name ∈ scope.source.aliases)
    (h : along ms leaf s vs scope table key hops n = .ok (restriction, scope', n')) :
    scope.Extends scope' n n' restriction.aliases ∧ restriction.Scoped scope'.source.aliases := by
  induction hops generalizing scope table key n restriction scope' n' with
  | nil =>
    obtain ⟨⟨r, k⟩, hr, hresult⟩ := exists_of_map_eq_ok h
    cases hresult
    obtain ⟨hscoped, hfresh⟩ := scoped_leafRestriction htable hr
    exact ⟨.of_fresh hscope hfresh, hscoped⟩
  | cons hop rest ih =>
    obtain ⟨c, hc, ⟨-, rows, k, target, inner, r, hrows, htarget, halong, rfl, rfl⟩ |
      ⟨-, name, target, next, scope₁, k, rfl, hjoin, halong⟩⟩ := elements_or_join_of_along h
    · have hformed := formed_of_elementRows hrows
      have hopen : Formed ⟨target, rows.source, []⟩ :=
        ⟨hformed.ordered, hformed.target target htarget, by simp⟩
      obtain ⟨hextends, hscoped⟩ := ih hopen hopen.root halong
      obtain ⟨added, hsource, hfresh⟩ := hextends.joins
      refine ⟨.of_fresh hscope ?_, .subquery hextends.formed.ordered ?_ htable
        (by simpa using hscoped) _⟩
      · -- the rows of the property are numbered first, then the joins from them on
        have haliases : inner.source.aliases = rows.source.aliases ++ added.map Join.name := by
          rw [hsource]
          simp [Source.aliases]
        rw [Restriction.aliases, Restriction.aliasesInner, haliases, List.append_assoc]
        exact hformed.fresh.append hfresh
      · refine hextends.subset ?_
        rw [hformed.inner]
        simp [Source.aliases]
    · obtain ⟨hextends, hnext⟩ := extends_join hscope htable hjoin
      obtain ⟨hextends', hscoped⟩ := ih hextends.formed hnext halong
      exact ⟨hextends.trans hextends', hscoped⟩

lemma scoped_condition {c : Condition} (hscope : scope.Formed)
    (h : conditionRestriction ms scope c n = .ok (restriction, scope', n')) :
    scope.Extends scope' n n' restriction.aliases ∧ restriction.Scoped scope'.source.aliases := by
  obtain ⟨s, -, halong⟩ := along_of_conditionRestriction h
  exact scoped_along hscope hscope.root halong

/-! ### Predicates and sort clauses -/

/-- **Predicates**: what a condition sees is also seen after the joins of the conditions behind
it. -/
lemma scoped_restriction {p : Predicate Condition} (hscope : scope.Formed)
    (h : TableScope.restriction ms scope n p = .ok (restriction, scope', n')) :
    scope.Extends scope' n n' restriction.aliases ∧ restriction.Scoped scope'.source.aliases := by
  revert hscope
  refine of_restriction
    (Q := fun scope n _ r scope' n' => scope.Formed →
      scope.Extends scope' n n' r.aliases ∧ r.Scoped scope'.source.aliases)
    (R := fun scope n _ rs scope' n' => scope.Formed →
      scope.Extends scope' n n' (Restriction.aliasesAll rs) ∧
        ∀ r ∈ rs, r.Scoped scope'.source.aliases) ?_ ?_ ?_ ?_ h
  · exact fun hcondition hscope => scoped_condition hscope hcondition
  · exact fun scope n hscope => ⟨.of_fresh hscope (.nil le_rfl), by simp⟩
  · intro scope n p r scope₁ k ps rs scope' n' hfirst hothers hscope
    obtain ⟨hextends, hscoped⟩ := hfirst hscope
    obtain ⟨hextends', hall⟩ := hothers hextends.formed
    exact ⟨hextends.trans hextends',
      List.forall_mem_cons.mpr ⟨hscoped.mono hextends'.subset, hall⟩⟩
  · intro scope n ps rs scope' n' j r hall hr hscope
    obtain ⟨hextends, hscoped⟩ := hall hscope
    obtain rfl | rfl := hr
    · exact ⟨hextends, .and hscoped⟩
    · exact ⟨hextends, .or hscoped⟩

lemma scoped_queryRestriction {p? : Option (Predicate Condition)} {r? : Option Restriction}
    (hscope : scope.Formed) (h : queryRestriction ms scope n p? = .ok (r?, scope', n')) :
    scope.Extends scope' n n' (Restriction.aliasesInner r?) ∧
      ∀ r ∈ r?, r.Scoped scope'.source.aliases := by
  cases p? with
  | none =>
    cases h
    exact ⟨.of_fresh hscope (.nil le_rfl), by simp⟩
  | some p =>
    obtain ⟨⟨r, _⟩, hr, hresult⟩ := exists_of_map_eq_ok h
    cases hresult
    obtain ⟨hextends, hscoped⟩ := scoped_restriction hscope hr
    exact ⟨hextends, by simpa using hscoped⟩

lemma extends_sortTable {key : String} {hops : List PathSegment} {last : MappedTable}
    (hscope : scope.Formed) (htable : table.name ∈ scope.source.aliases)
    (h : sortTable ms scope table key hops n = .ok (last, scope', n')) :
    scope.Extends scope' n n' [] ∧ last.name ∈ scope'.source.aliases := by
  induction hops generalizing scope table key n with
  | nil =>
    cases h
    exact ⟨.of_fresh hscope (.nil le_rfl), htable⟩
  | cons hop rest ih =>
    obtain ⟨name, target, next, scope₁, k, -, hjoin, hrest⟩ := join_of_sortTable h
    obtain ⟨hextends, hnext⟩ := extends_join hscope htable hjoin
    obtain ⟨hextends', hlast⟩ := ih hextends.formed hnext hrest
    exact ⟨hextends.trans hextends', hlast⟩

/-- **Sort clauses** see the tables at the ends of their paths. -/
lemma extends_sortColumns {os : List (Order PropertyPath)}
    {columns : List (ColumnRef × Direction)} (hscope : scope.Formed)
    (h : sortColumns ms scope n os = .ok (columns, scope', n')) :
    scope.Extends scope' n n' [] ∧ ∀ column ∈ columns, column.1.table ∈ scope'.source.aliases := by
  induction os generalizing scope n columns with
  | nil =>
    cases h
    exact ⟨.of_fresh hscope (.nil le_rfl), by simp⟩
  | cons o os ih =>
    obtain ⟨column, scope₁, k, columns', hcolumn, hcolumns, rfl⟩ := cons_of_sortColumns h
    obtain ⟨last, name, htable, -, rfl⟩ := sortTable_of_sortColumn hcolumn
    obtain ⟨hextends, hlast⟩ := extends_sortTable hscope hscope.root htable
    obtain ⟨hextends', hall⟩ := ih hextends.formed hcolumns
    exact ⟨hextends.trans hextends',
      List.forall_mem_cons.mpr ⟨hextends'.subset hlast, hall⟩⟩

end TableScope

/-! ### Queries -/

/-- **Compiled queries are well-scoped.** -/
lemma Criteria.wellScoped_of_compile {ms : Mappings} {entity : String} {q : PreparedQuery}
    {c : Criteria} (h : compile ms entity q = .ok c) : c.WellScoped := by
  obtain ⟨m, scope₁, n₁, scope₂, n₂, -, hrestriction, hcolumns, hsource, -⟩ := scopes_of_compile h
  have hopen : TableScope.Formed ⟨⟨⟨'t', 0⟩, m⟩, ⟨m.table, ⟨'t', 0⟩, []⟩, []⟩ :=
    ⟨trivial, by simp [Source.aliases], by simp⟩
  obtain ⟨hextends, hscoped⟩ := TableScope.scoped_queryRestriction hopen hrestriction
  obtain ⟨hextends', horders⟩ := TableScope.extends_sortColumns hextends.formed hcolumns
  refine ⟨?_, hsource ▸ hextends'.formed.ordered, fun r hr => ?_, hsource ▸ horders⟩
  · obtain ⟨added, hadded, hfresh⟩ := (hextends.trans hextends').joins
    have hroot : Alias.Fresh 0 1 [⟨'t', 0⟩] := .single le_rfl (by simp)
    have haliases : c.aliases =
        [⟨'t', 0⟩] ++ (added.map Join.name ++ (Restriction.aliasesInner c.restriction ++ [])) := by
      simp [aliases, Source.aliases, hsource, hadded]
    have hnumbers := (hroot.append hfresh).nodup
    rw [← haliases] at hnumbers
    -- the letters of names play no part: the numbers alone are different
    exact List.Nodup.map_on (fun a ha b hb htext => List.inj_on_of_nodup_map hnumbers ha hb
      (Alias.number_eq_of_text htext)) hnumbers.of_map
  · rw [hsource]
    exact (hscoped r hr).mono hextends'.subset

end EntityQuery
