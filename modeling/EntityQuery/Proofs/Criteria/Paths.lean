import EntityQuery.Proofs.Criteria.Scope

/-!
# Paths in relational queries

The path of a condition is followed by joins and sub-queries, one step at a time, in a scope that
stays sound. The restriction that comes of it selects a row by the ends of the path from the
instance of the row, as far as joins keep them.
-/

namespace EntityQuery

open Instance

variable {ι : Type} [Instance ι] {S : Storage ι} {e : String} {scope : TableScope}
  {base : List Join} {floor n : Nat}

namespace Storage

/-! ### Paths -/

/-- The steps of a path are mapped to associations with stored instances. -/
def MapsHops (S : Storage ι) (hops : List PathSegment) : Prop :=
  ∀ s ∈ hops, ∃ m c t u, S.mappings.Maps S.registry s.owner s.name m c ∧ c.target? = some t ∧
    S.mappings.entity? t = some u

/-- What is to be shown of following a path: there is a restriction, in a scope that is sound again,
and it selects by the ends of the path that are kept. -/
def Follows (S : Storage ι) (e : String) (scope : TableScope) (base : List Join) (floor n : Nat)
    (path : List PathSegment) (test : Option ι → Bool) (result : Compiled Restriction) : Prop :=
  ∃ restriction scope' n', result = .ok (restriction, scope', n') ∧
    S.Sound e scope' base floor n' ∧ scope.Grows scope' ∧ n ≤ n' ∧
    (∀ i, S.Keeps e scope i → keptEnds (some i) path ≠ [] → S.Keeps e scope' i) ∧
    ∀ env i, S.Of e i → S.Shows e scope' env i →
      (restriction.truth S.db env = .yes ↔ (keptEnds (some i) path).any test = true)

variable {leaf : PathSegment} {s : Strategy} {ws : List Value} {matcher : Matcher}

/-- **Sub-queries** range over the elements of a collection, and keep those whose row the joins
inside keep. -/
lemma exists_subquery {hop : PathSegment} {hops rest : List PathSegment} {u t : String}
    {table : MappedTable} {c : ColumnMapping} {m : EntityMapping} {test : Option ι → Bool}
    (h : S.Sound e scope base floor n) (path : S.registry.LeadsSingly e hops u)
    (found : scope.table? hops = some table) (hindexed : hop.indexed = true)
    (mapped : S.mappings.Maps S.registry u hop.name table.mapping c) (many : c.column? = none)
    (leads : c.target? = some t) (target : S.mappings.entity? t = some m)
    (inner : ∀ scope table base n, S.Sound t scope base n n → scope.table? [] = some table →
      S.Follows t scope base n n rest test
        (TableScope.along S.mappings leaf s ws scope table "" rest n)) :
    S.Follows e scope base floor n (hops ++ hop :: rest) test
      (TableScope.along S.mappings leaf s ws scope table (TableScope.keyOf hops) (hop :: rest)
        n) := by
  obtain ⟨rows, n₁, a, hrows, htarget, hn, ha, hinner, hranges⟩ :=
    TableScope.exists_targetRows S.stores mapped many leads target n
  obtain ⟨restriction, scope', n', hresult, hsound, hgrows, hn', hkeeps, htruth⟩ :=
    inner ⟨⟨a, m⟩, rows.source, []⟩ ⟨a, m⟩ rows.source.joins n₁ (sound_open target ha) rfl
  obtain ⟨added, hadded, hjoins⟩ := hsound.joins
  have hsource := TableScope.source_eq (s := rows.source) hgrows.table hgrows.name hadded
  have hmapped := mapped.found
  have hroot : scope'.root.name = a := by rw [hgrows.root]
  refine ⟨.subquery scope'.source rows.inner ⟨table.name, table.mapping.idColumn⟩
    (some restriction) false, scope, n', ?_, h.mono (hn.le.trans hn'), .refl scope,
    hn.le.trans hn', fun i hkeeps _ => hkeeps, fun env i hi hshows => ?_⟩
  · simp [TableScope.along, TableScope.columnOf, hmapped, hindexed, hrows, htarget, hresult]
  obtain ⟨o, hkept, hrow⟩ := hshows hops u table path found
  have hof := of_keptEnds path hi hkept
  have hname : table.name.number < n₁ := (h.fresh path found).trans hn
  -- the columns that link the sub-query to its owner have their values whatever is joined inside
  have houter : ∀ env₁ ∈ S.db.selected rows.source env, ∀ env₂ : Env,
      (∀ b : Alias, b.number < n₁ → env₂ b = env₁ b) →
        env₂.column rows.inner = env₁.column rows.inner ∧
          env₂.column ⟨table.name, table.mapping.idColumn⟩ =
            SqlRow.of S.row u o table.mapping.idColumn := by
    intro env₁ henv₁ env₂ hsame
    have hbefore := (hranges.selects env env₁ henv₁).1 table.name (h.fresh path found)
    refine ⟨by rw [Env.column, Env.column, hsame _ hinner], ?_⟩
    rw [Env.column, hsame _ hname, hbefore, hrow]
  rw [Restriction.truth_subquery, hsource, Database.selected_append, keptEnds_append, hkept,
    List.flatMap_singleton, keptEnds, if_pos hindexed]
  simp only [Restriction.truthInner, iff_true, List.any_eq_true, List.mem_flatMap]
  constructor
  · rintro ⟨env₂, ⟨env₁, henv₁, henv₂⟩, hmatched, hyes⟩
    obtain ⟨-, j, hj, hrow', hrelated⟩ := hranges.selects env env₁ henv₁
    rw [← hroot] at hrow'
    obtain ⟨hsame, hshown⟩ := (hjoins env₁ j hj hrow').1 env₂ henv₂
    obtain ⟨hcolumn, howner⟩ := houter env₁ henv₁ env₂ hsame
    rw [hcolumn, howner] at hmatched
    cases o with
    | none => exact absurd rfl (Database.matched_ne_null hmatched).2
    | some k =>
      obtain ⟨o', ho', htest⟩ := List.any_eq_true.mp ((htruth env₂ j hj hshown).mp hyes)
      exact ⟨o', ⟨j, ⟨k, by simp, hrelated k (hof k rfl) hmatched⟩, ho'⟩, htest⟩
  · rintro ⟨o', ⟨j, ⟨k, hk, hj⟩, ho'⟩, htest⟩
    obtain rfl : o = some k := by simpa using hk
    obtain ⟨env₁, henv₁, hmatched, hrow'⟩ := hranges.finds env k (hof k rfl) j hj
    have hjof := S.stores.of_related mapped leads (hof k rfl) j hj
    rw [← hroot] at hrow'
    have hopen : S.Keeps t ⟨⟨a, m⟩, rows.source, []⟩ j := by
      intro hops' u' t' path' found'
      obtain ⟨rfl, -⟩ := found_open found'
      exact List.cons_ne_nil _ _
    have hkeep := hkeeps j hopen (List.ne_nil_of_mem ho')
    obtain ⟨env₂, henv₂⟩ := List.exists_mem_of_ne_nil _ ((hjoins env₁ j hjof hrow').2 hkeep)
    obtain ⟨hsame, hshown⟩ := (hjoins env₁ j hjof hrow').1 env₂ henv₂
    obtain ⟨hcolumn, howner⟩ := houter env₁ henv₁ env₂ hsame
    refine ⟨env₂, ⟨env₁, henv₁, henv₂⟩, ?_, ?_⟩
    · rw [hcolumn, howner]
      exact hmatched
    · exact (htruth env₂ j hjof hshown).mpr (List.any_eq_true.mpr ⟨o', ho', htest⟩)

/-- **Paths**: following the steps of a path selects a row by the ends of the path from its
instance. -/
theorem follows_along (hm : Matcher.make s ws = .ok matcher) (htakes : s.Takes ws)
    {operator : Operator} (hof : Strategy.of? operator leaf.type.kind = some s)
    {p : PropertyDef} (declared : S.registry.Declares leaf p) {m : EntityMapping}
    {c : ColumnMapping} (mapped : S.mappings.Maps S.registry leaf.owner leaf.name m c)
    (targets : leaf.type.kind = .collection → ∀ t, c.target? = some t →
      ∃ u, S.mappings.entity? t = some u)
    (agrees : ∀ i, S.Of leaf.owner i → ∀ v ∈ (valueOf i leaf.name).parts, v.isNull = false →
      ∀ w ∈ ws, S.db.Agrees v w)
    {hops rest : List PathSegment} {u : String} {table : MappedTable}
    (h : S.Sound e scope base floor n) (path : S.registry.LeadsSingly e hops u)
    (found : scope.table? hops = some table) (onward : S.registry.Leads u rest leaf.owner)
    (hrest : S.MapsHops rest) :
    S.Follows e scope base floor n (hops ++ rest) (fun o => matcher.selects (read o leaf.name))
      (TableScope.along S.mappings leaf s ws scope table (TableScope.keyOf hops) rest n) := by
  induction rest generalizing e scope base floor n hops u table with
  | nil =>
    have howner : u = leaf.owner := by cases onward; rfl
    subst howner
    have hmapping : table.mapping = m := by
      have hm' := h.mapping path found
      rw [mapped.entity] at hm'
      exact (Option.some.inj hm').symm
    obtain ⟨restriction, n', hleaf, hn, htruth⟩ := TableScope.exists_leafRestriction S.stores
      declared mapped targets hmapping (h.fresh path found) hof hm htakes
    refine ⟨restriction, scope, n', by rw [TableScope.along, hleaf]; rfl, h.mono hn, .refl scope,
      hn, fun i hkeeps _ => hkeeps, fun env i hi hshows => ?_⟩
    obtain ⟨o, hkept, hrow⟩ := hshows hops leaf.owner table path found
    have hof' := of_keptEnds path hi hkept
    rw [List.append_nil, hkept, List.any_cons, List.any_nil, Bool.or_false]
    refine htruth env o hof' hrow ?_
    cases o with
    | none =>
      intro v hv hnull
      obtain rfl := List.mem_singleton.mp hv
      cases hnull
    | some j => exact agrees j (hof' j rfl)
  | cons hop rest ih =>
    obtain ⟨m', c', t, u', mapped', leads, target, -, hone, onward, hcolumn⟩ :=
      Mappings.MapsHop.exists_step (hrest hop (by simp)) onward
    obtain rfl : table.mapping = m' :=
      Option.some.inj ((h.mapping path found).symm.trans mapped'.entity)
    have hrest' : S.MapsHops rest := fun s hs => hrest s (by simp [hs])
    cases hindexed : hop.indexed with
    | true =>
      rw [hindexed, if_pos rfl] at hcolumn
      refine exists_subquery h path found hindexed mapped' hcolumn leads target ?_
      intro scope' table' base' n' hsound hfound
      exact ih hsound ⟨.here, rfl⟩ hfound onward hrest'
    | false =>
      rw [hindexed, if_neg (by decide)] at hcolumn
      obtain ⟨column, rfl⟩ := hcolumn
      have honward := path.step hone hindexed
      obtain ⟨next, scope₁, n₁, hjoin, hsound, hgrows, hfound, hn, hkeeps⟩ :=
        exists_join h path found honward mapped' target
      obtain ⟨restriction, scope', n', hresult, hsound', hgrows', hn', hkeeps', htruth⟩ :=
        ih hsound honward hfound onward hrest'
      rw [List.append_assoc] at hkeeps' htruth
      have hfound' := mapped'.found
      refine ⟨restriction, scope', n', ?_, hsound', hgrows.trans hgrows', hn.trans hn', ?_,
        htruth⟩
      · rw [TableScope.keyOf_append] at hjoin hresult
        simp [TableScope.along, TableScope.columnOf, hfound', hindexed, hjoin, hresult]
      · intro i hi hkept
        refine hkeeps' i (hkeeps i hi ?_) hkept
        rintro hnil
        apply hkept
        rw [← List.singleton_append, ← List.append_assoc, keptEnds_append, hnil]
        rfl

end Storage

end EntityQuery
