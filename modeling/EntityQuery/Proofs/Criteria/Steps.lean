import EntityQuery.Proofs.Criteria.Scope
import EntityQuery.Proofs.Predicate.Flat

/-!
# What compiling does

Each part of the compiler that succeeds has done one of a few things. The lemmas say which, for
what is true of compiled queries whatever their tables hold.
-/

namespace EntityQuery

namespace TableScope

variable {ms : Mappings} {scope scope' : TableScope} {n n' : Nat} {table next : MappedTable}
  {leaf hop : PathSegment} {s : Strategy} {vs : List Value} {key : String}
  {rest : List PathSegment} {restriction : Restriction}

/-- The table of an association is one that was joined before, or a new one. -/
lemma found_or_added_of_join {owner : Alias} {column target : String} {nullable : Bool}
    (h : join ms scope key owner column target nullable n = .ok (next, scope', n')) :
    (scope.joined.lookup key = some next ∧ scope' = scope ∧ n' = n) ∨
    ∃ m, scope.joined.lookup key = none ∧ mappingOf ms target = .ok m ∧ next = ⟨⟨'t', n⟩, m⟩ ∧
      scope' = Storage.added scope key next
        ⟨if nullable then .left else .inner, m.table, ⟨'t', n⟩, m.idColumn, ⟨owner, column⟩⟩ ∧
      n' = n + 1 := by
  unfold join at h
  split at h
  · rename_i hlookup
    cases h
    exact .inl ⟨hlookup, rfl, rfl⟩
  · rename_i hlookup
    split at h
    · cases h
    · rename_i m hm
      cases h
      exact .inr ⟨m, hlookup, hm, rfl, rfl, rfl⟩

/-- The restriction at the end of a path is one on a column of the table, or one on rows that
belong to it. -/
lemma column_or_rows_of_leafRestriction
    (h : leafRestriction ms table leaf s vs n = .ok (restriction, n')) :
    ∃ c, columnOf table.mapping leaf.name = .ok c ∧
      ((∃ name, (c = .column name ∨ ∃ target, c = .manyToOne name target) ∧
        columnRestriction? ⟨table.name, name⟩ s vs = some restriction ∧ n' = n) ∨
      ∃ rows, elementRows ms table.mapping leaf.name n c = .ok (rows, n') ∧
        collectionRestriction table leaf s vs rows = .ok restriction) := by
  unfold leafRestriction at h
  split at h
  · cases h
  · rename_i name hc
    split at h
    · rename_i hr
      cases h
      exact ⟨_, hc, .inl ⟨name, .inl rfl, hr, rfl⟩⟩
    · cases h
  · rename_i name target hc
    split at h
    · rename_i hr
      cases h
      exact ⟨_, hc, .inl ⟨name, .inr ⟨target, rfl⟩, hr, rfl⟩⟩
    · cases h
  · rename_i c _ _ hc
    split at h
    · cases h
    · rename_i rows k hrows
      obtain ⟨r, hr, hresult⟩ := exists_of_map_eq_ok h
      cases hresult
      exact ⟨c, hc, .inr ⟨rows, hrows, hr⟩⟩

/-- A step of a path opens a sub-query for the elements of a collection, or goes on from the table
of an association. -/
lemma elements_or_join_of_along
    (h : along ms leaf s vs scope table key (hop :: rest) n = .ok (restriction, scope', n')) :
    ∃ c, columnOf table.mapping hop.name = .ok c ∧
      ((hop.indexed = true ∧ ∃ rows k target inner r,
        elementRows ms table.mapping hop.name n c = .ok (rows, k) ∧ rows.target? = some target ∧
        along ms leaf s vs ⟨target, rows.source, []⟩ target "" rest k = .ok (r, inner, n') ∧
        restriction = .subquery inner.source rows.inner ⟨table.name, table.mapping.idColumn⟩
          (some r) false ∧ scope' = scope) ∨
      hop.indexed = false ∧ ∃ name target next scope₁ k, c = .manyToOne name target ∧
        join ms scope (joinKey key hop.name) table.name name target hop.nullable n =
          .ok (next, scope₁, k) ∧
        along ms leaf s vs scope₁ next (joinKey key hop.name) rest k =
          .ok (restriction, scope', n')) := by
  rw [along] at h
  split at h
  · cases h
  · rename_i c hc
    refine ⟨c, hc, ?_⟩
    split at h
    · rename_i hindexed
      refine .inl ⟨hindexed, ?_⟩
      split at h
      · cases h
      · rename_i rows k hrows
        split at h
        · cases h
        · rename_i target htarget
          split at h
          · cases h
          · rename_i r inner k' halong
            cases h
            exact ⟨rows, k, target, inner, r, hrows, htarget, halong, rfl, rfl⟩
    · rename_i hindexed
      refine .inr ⟨Bool.eq_false_iff.mpr hindexed, ?_⟩
      split at h
      · rename_i name target
        split at h
        · cases h
        · rename_i next scope₁ k hjoin
          exact ⟨name, target, next, scope₁, k, rfl, hjoin, h⟩
      · cases h

lemma along_of_conditionRestriction {c : Condition}
    (h : conditionRestriction ms scope c n = .ok (restriction, scope', n')) :
    ∃ s, Strategy.of? c.operator c.property.kind = some s ∧
      along ms c.property.leaf s c.operands scope scope.root "" c.property.parents n =
        .ok (restriction, scope', n') := by
  unfold conditionRestriction at h
  split at h
  · cases h
  · rename_i s hs
    refine ⟨s, ?_, h⟩
    unfold Strategy.require at hs
    split at hs
    · rename_i hof
      rw [hof, Except.ok.inj hs]
    · cases hs

/-- A junction is compiled to one of the restrictions of its children. -/
lemma restrictions_of_junction {j : Junction} {ps : List (Predicate Condition)}
    (h : TableScope.restriction ms scope n (Predicate.junction j ps) =
      .ok (restriction, scope', n')) :
    ∃ rs, restrictions ms scope n ps = .ok (rs, scope', n') ∧
      (restriction = .and rs ∨ restriction = .or rs) := by
  cases j with
  | and =>
    rw [Predicate.junction, TableScope.restriction] at h
    obtain ⟨⟨rs, _⟩, hrs, hresult⟩ := exists_of_map_eq_ok h
    cases hresult
    exact ⟨rs, hrs, .inl rfl⟩
  | or =>
    rw [Predicate.junction, TableScope.restriction] at h
    obtain ⟨⟨rs, _⟩, hrs, hresult⟩ := exists_of_map_eq_ok h
    cases hresult
    exact ⟨rs, hrs, .inr rfl⟩

lemma cons_of_restrictions {p : Predicate Condition} {ps : List (Predicate Condition)}
    {rs : List Restriction} (h : restrictions ms scope n (p :: ps) = .ok (rs, scope', n')) :
    ∃ r scope₁ k rs', TableScope.restriction ms scope n p = .ok (r, scope₁, k) ∧
      restrictions ms scope₁ k ps = .ok (rs', scope', n') ∧ rs = r :: rs' := by
  rw [restrictions] at h
  split at h
  · cases h
  · rename_i r scope₁ k hr
    obtain ⟨⟨rs', _⟩, hrs, hresult⟩ := exists_of_map_eq_ok h
    cases hresult
    exact ⟨r, scope₁, k, rs', hr, hrs, rfl⟩

/-- **Predicates.** What is true of compiled conditions, and what goes over from the operands of a
junction to the junction, is true of compiled predicates. The operands are compiled one after the
other, each in the scope that the one before it leaves. -/
theorem of_restriction {p : Predicate Condition}
    {Q : TableScope → Nat → Predicate Condition → Restriction → TableScope → Nat → Prop}
    {R : TableScope → Nat → List (Predicate Condition) → List Restriction → TableScope → Nat → Prop}
    (cond : ∀ {scope n c r scope' n'}, conditionRestriction ms scope c n = .ok (r, scope', n') →
      Q scope n (.cond c) r scope' n')
    (nil : ∀ scope n, R scope n [] [] scope n)
    (cons : ∀ {scope n p r scope₁ k ps rs scope' n'}, Q scope n p r scope₁ k →
      R scope₁ k ps rs scope' n' → R scope n (p :: ps) (r :: rs) scope' n')
    (junction : ∀ {scope n ps rs scope' n'} (j : Junction) {r : Restriction},
      R scope n ps rs scope' n' → r = .and rs ∨ r = .or rs →
        Q scope n (.junction j ps) r scope' n')
    (h : TableScope.restriction ms scope n p = .ok (restriction, scope', n')) :
    Q scope n p restriction scope' n' := by
  induction p using Predicate.inductJunction generalizing scope n restriction scope' n' with
  | cond c =>
    rw [TableScope.restriction] at h
    exact cond h
  | junction j ps ih =>
    obtain ⟨rs, hrs, hrestriction⟩ := restrictions_of_junction h
    refine junction j ?_ hrestriction
    clear h hrestriction
    induction ps generalizing scope n rs with
    | nil =>
      cases hrs
      exact nil _ _
    | cons p ps ih' =>
      obtain ⟨r, scope₁, k, rs', hr, hrs', rfl⟩ := cons_of_restrictions hrs
      exact cons (ih p (by simp) hr) (ih' (fun q hq => ih q (by simp [hq])) rs' hrs')

/-- A step of a sort clause goes on from the table of an association. -/
lemma join_of_sortTable
    (h : sortTable ms scope table key (hop :: rest) n = .ok (next, scope', n')) :
    ∃ name target next₁ scope₁ k, columnOf table.mapping hop.name = .ok (.manyToOne name target) ∧
      join ms scope (joinKey key hop.name) table.name name target hop.nullable n =
        .ok (next₁, scope₁, k) ∧
      sortTable ms scope₁ next₁ (joinKey key hop.name) rest k = .ok (next, scope', n') := by
  rw [sortTable] at h
  split at h
  · cases h
  · rename_i name target hc
    split at h
    · cases h
    · rename_i next₁ scope₁ k hjoin
      exact ⟨name, target, next₁, scope₁, k, hc, hjoin, h⟩
  · cases h

/-- The column of a sort clause is one of the table at the end of its path. -/
lemma sortTable_of_sortColumn {o : Order PropertyPath} {column : ColumnRef × Direction}
    (h : sortColumn ms scope o n = .ok (column, scope', n')) :
    ∃ last name, sortTable ms scope scope.root "" o.property.parents n = .ok (last, scope', n') ∧
      (last.mapping.property? o.property.leaf.name = some (.column name) ∨
        ∃ target, last.mapping.property? o.property.leaf.name = some (.manyToOne name target)) ∧
      column = (⟨last.name, name⟩, o.direction) := by
  unfold sortColumn at h
  split at h
  · cases h
  · rename_i last scope₁ k htable
    split at h
    · rename_i name hname
      cases h
      exact ⟨last, name, htable, .inl hname, rfl⟩
    · rename_i name target hname
      cases h
      exact ⟨last, name, htable, .inr ⟨target, hname⟩, rfl⟩
    · cases h

lemma cons_of_sortColumns {o : Order PropertyPath} {os : List (Order PropertyPath)}
    {columns : List (ColumnRef × Direction)}
    (h : sortColumns ms scope n (o :: os) = .ok (columns, scope', n')) :
    ∃ column scope₁ k columns', sortColumn ms scope o n = .ok (column, scope₁, k) ∧
      sortColumns ms scope₁ k os = .ok (columns', scope', n') ∧ columns = column :: columns' := by
  rw [sortColumns] at h
  split at h
  · cases h
  · rename_i column scope₁ k hcolumn
    obtain ⟨⟨columns', _⟩, hcolumns, hresult⟩ := exists_of_map_eq_ok h
    cases hresult
    exact ⟨column, scope₁, k, columns', hcolumn, hcolumns, rfl⟩

end TableScope

open TableScope in
/-- A compiled query has the tables of the root scope after its predicate and its sort clauses. -/
lemma Criteria.scopes_of_compile {ms : Mappings} {entity : String} {q : PreparedQuery}
    {c : Criteria} (h : compile ms entity q = .ok c) :
    ∃ m scope₁ n₁ scope₂ n₂, mappingOf ms entity = .ok m ∧
      queryRestriction ms ⟨⟨⟨'t', 0⟩, m⟩, ⟨m.table, ⟨'t', 0⟩, []⟩, []⟩ 1 q.predicate =
        .ok (c.restriction, scope₁, n₁) ∧
      sortColumns ms scope₁ n₁ q.orders = .ok (c.orders, scope₂, n₂) ∧
      c.source = scope₂.source ∧ c.page = none := by
  unfold compile at h
  split at h
  · cases h
  · rename_i hopen
    obtain ⟨m, hm, hscope⟩ := exists_of_map_eq_ok hopen
    cases hscope
    split at h
    · cases h
    · rename_i hrestriction
      obtain ⟨⟨cs, scope₂, n₂⟩, hcolumns, hc⟩ := exists_of_map_eq_ok h
      cases hc
      exact ⟨m, _, _, scope₂, n₂, hm, hrestriction, hcolumns, rfl, rfl⟩

end EntityQuery
