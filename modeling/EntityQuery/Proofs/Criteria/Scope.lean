import EntityQuery.Proofs.Criteria.Kept

/-!
# The tables of a scope

A scope remembers by the path which table stands at its end. Paths can be told apart by their keys,
so a table that is found again is the one that was joined for the same path. The invariant of a
scope says what its tables stand for: whatever the joins select from the row of an instance shows
the rows at the ends of the paths, and there is something to select if the joins keep them.
-/

namespace EntityQuery

open Instance

/-! ### Keys -/

namespace TableScope

/-- The key of a path of associations. -/
def keyOf (hops : List PathSegment) : String :=
  (hops.map PathSegment.name).foldl joinKey ""

lemma keyOf_append (hops : List PathSegment) (hop : PathSegment) :
    keyOf (hops ++ [hop]) = joinKey (keyOf hops) hop.name := by
  simp [keyOf]

variable {r : Registry} {e u u' : String} {hops hops' : List PathSegment} {hop : PathSegment}

lemma joinKey_ne_empty (key : String) {name : String} (h : name ≠ "") : joinKey key name ≠ "" := by
  unfold joinKey
  split
  · exact h
  · intro hempty
    have hlength := congrArg String.length hempty
    simp at hlength

lemma splitDots_joinKey {key name : String} (hkey : key ≠ "") (hname : '.' ∉ name.toList) :
    PathStep.splitDots (joinKey key name).toList =
      PathStep.splitDots key.toList ++ [name.toList] := by
  have hjoined : (joinKey key name).toList = key.toList ++ '.' :: name.toList := by
    simp [joinKey, hkey]
  rw [hjoined, PathStep.splitDots_append, PathStep.splitDots_plain hname]

/-- The key of a path of plain names has these between its dots. -/
lemma splitDots_foldl_joinKey {names : List String}
    (plain : ∀ name ∈ names, name ≠ "" ∧ '.' ∉ name.toList) (hne : names ≠ []) :
    names.foldl joinKey "" ≠ "" ∧
      PathStep.splitDots (names.foldl joinKey "").toList = names.map String.toList := by
  induction names using List.reverseRecOn with
  | nil => exact absurd rfl hne
  | append_singleton names name ih =>
    have hname := plain name (by simp)
    rw [List.foldl_append, List.foldl_cons, List.foldl_nil]
    refine ⟨joinKey_ne_empty _ hname.1, ?_⟩
    by_cases hnil : names = []
    · subst hnil
      exact PathStep.splitDots_plain hname.2
    · obtain ⟨hkey, hsplit⟩ := ih (fun s hs => plain s (by simp [hs])) hnil
      rw [splitDots_joinKey hkey hname.2, hsplit, List.map_append]
      rfl

lemma splitDots_keyOf (hl : r.Leads e hops u) (hne : hops ≠ []) :
    keyOf hops ≠ "" ∧
      PathStep.splitDots (keyOf hops).toList = hops.map fun s => s.name.toList := by
  have hdeclared : ∀ s ∈ hops, s.name ≠ "" ∧ '.' ∉ s.name.toList := by
    clear hne
    induction hl with
    | here => simp
    | step _ declared _ _ ih => simpa using ⟨⟨declared.named, declared.plain⟩, ih⟩
  have hsplit := splitDots_foldl_joinKey (List.forall_mem_map.mpr hdeclared) (by simpa using hne)
  rwa [List.map_map] at hsplit

/-- Declared paths of single values are told apart by their names. -/
lemma leads_unique (hl : r.Leads e hops u) (hl' : r.Leads e hops' u')
    (single : hops.any PathSegment.indexed = false)
    (single' : hops'.any PathSegment.indexed = false)
    (names : hops.map PathSegment.name = hops'.map PathSegment.name) : hops = hops' ∧ u = u' := by
  induction hl generalizing hops' with
  | here =>
    cases hl' with
    | here => exact ⟨rfl, rfl⟩
    | step => simp at names
  | @step e t v s rest p owner declared type _ ih =>
    cases hl' with
    | here => simp at names
    | @step _ t' _ s' rest' p' owner' declared' type' onward' =>
      simp only [List.any_cons, Bool.or_eq_false_iff] at single single'
      simp only [List.map_cons, List.cons.injEq] at names
      have hp : p = p' := by
        have h := declared.found
        rw [owner, names.1, ← owner', declared'.found] at h
        exact (Option.some.inj h).symm
      have htype : s.type = s'.type := by rw [declared.type, declared'.type, hp]
      have hs : s = s' := by
        have hnullable : s.nullable = s'.nullable := by
          rw [declared.nullable, declared'.nullable, hp]
        have howner : s.owner = s'.owner := owner.trans owner'.symm
        have hindexed : s.indexed = s'.indexed := single.1.trans single'.1.symm
        cases s
        cases s'
        simp_all
      have ht : t = t' := by
        rw [type, type', single.1, single'.1] at htype
        simpa [PropertyType.association] using htype
      subst hs ht
      obtain ⟨rfl, rfl⟩ := ih onward' single.2 single'.2 names.2
      exact ⟨rfl, rfl⟩

/-- **Keys tell paths apart.** -/
theorem keyOf_injective (hl : r.Leads e hops u) (hl' : r.Leads e hops' u')
    (single : hops.any PathSegment.indexed = false)
    (single' : hops'.any PathSegment.indexed = false)
    (hne : hops ≠ []) (hne' : hops' ≠ []) (h : keyOf hops = keyOf hops') :
    hops = hops' ∧ u = u' := by
  refine leads_unique hl hl' single single' ?_
  have hsplit := (splitDots_keyOf hl hne).2
  rw [h, (splitDots_keyOf hl' hne').2] at hsplit
  have hmap := congrArg (List.map String.ofList) hsplit
  simpa [List.map_map, Function.comp_def] using hmap.symm

lemma mem_of_lookup {β : Type} {k : String} {b : β} {entries : List (String × β)}
    (h : entries.lookup k = some b) : (k, b) ∈ entries := by
  obtain ⟨before, after, rfl, -⟩ := List.lookup_eq_some_iff.mp h
  exact List.mem_append_right _ (List.mem_cons_self ..)

/-- The table at the end of a path of single values, as far as it has been joined. -/
def table? (scope : TableScope) (hops : List PathSegment) : Option MappedTable :=
  if hops = [] then some scope.root else scope.joined.lookup (keyOf hops)

lemma source_eq {s s' : Source} {js : List Join} (table : s'.table = s.table)
    (name : s'.name = s.name) (joins : s'.joins = s.joins ++ js) :
    s' = { s with joins := s.joins ++ js } := by
  cases s
  cases s'
  simp_all

/-- A scope with more joins. -/
structure Grows (scope scope' : TableScope) : Prop where
  root : scope'.root = scope.root
  table : scope'.source.table = scope.source.table
  name : scope'.source.name = scope.source.name
  found {hops : List PathSegment} {t : MappedTable} (h : scope.table? hops = some t) :
    scope'.table? hops = some t

namespace Grows

variable {scope scope' scope'' : TableScope}

lemma refl (scope : TableScope) : scope.Grows scope :=
  ⟨rfl, rfl, rfl, id⟩

lemma trans (h : scope.Grows scope') (h' : scope'.Grows scope'') : scope.Grows scope'' :=
  ⟨h'.root.trans h.root, h'.table.trans h.table, h'.name.trans h.name,
    fun ht => h'.found (h.found ht)⟩

end Grows

end TableScope

/-- A path of single values from one entity type to another. -/
def Registry.LeadsSingly (r : Registry) (e : String) (hops : List PathSegment) (u : String) :
    Prop :=
  r.Leads e hops u ∧ hops.any PathSegment.indexed = false

lemma Registry.LeadsSingly.step {r : Registry} {e u t : String} {hops : List PathSegment}
    {hop : PathSegment} (h : r.LeadsSingly e hops u) (next : r.Leads u [hop] t)
    (single : hop.indexed = false) : r.LeadsSingly e (hops ++ [hop]) t :=
  ⟨h.1.append next, by simp [List.any_append, h.2, single]⟩

/-- A database with the instances that it stores. -/
structure Storage (ι : Type) [Instance ι] where
  db : Database
  mappings : Mappings
  registry : Registry
  Of : String → ι → Prop
  row : String → ι → SqlRow
  stores : db.Stores mappings registry Of row

namespace Storage

variable {ι : Type} [Instance ι] (S : Storage ι) (e : String)

/-- The tables of a scope show the rows at the ends of their paths from an instance. -/
def Shows (scope : TableScope) (env : Env) (i : ι) : Prop :=
  ∀ hops u t, S.registry.LeadsSingly e hops u → scope.table? hops = some t →
    ∃ o, keptEnds (some i) hops = [o] ∧ env t.name = SqlRow.of S.row u o

/-- The joins of a scope keep an instance. -/
def Keeps (scope : TableScope) (i : ι) : Prop :=
  ∀ hops u t, S.registry.LeadsSingly e hops u → scope.table? hops = some t →
    keptEnds (some i) hops ≠ []

/-- The invariant of a scope around the table of an entity type: its tables are those of the entity
types at the ends of their paths, with numbers below the next one, and the joins that were added to
those at hand (`base`) select what the tables show. Tables that were there before are numbered below
`floor`, and the joins leave them alone. -/
structure Sound (scope : TableScope) (base : List Join) (floor n : Nat) : Prop where
  mapping {hops : List PathSegment} {u : String} {t : MappedTable}
    (path : S.registry.LeadsSingly e hops u) (found : scope.table? hops = some t) :
    S.mappings.entity? u = some t.mapping
  fresh {hops : List PathSegment} {u : String} {t : MappedTable}
    (path : S.registry.LeadsSingly e hops u) (found : scope.table? hops = some t) :
    t.name.number < n
  root : scope.root.name.number < floor
  floor_le : floor ≤ n
  joins : ∃ added, scope.source.joins = base ++ added ∧ ∀ env i, S.Of e i →
    env scope.root.name = S.row e i →
      (∀ env' ∈ S.db.joinedAll added env,
        (∀ a : Alias, a.number < floor → env' a = env a) ∧ S.Shows e scope env' i) ∧
      (S.Keeps e scope i → S.db.joinedAll added env ≠ [])

variable {S e} {scope scope' : TableScope} {base : List Join} {floor n : Nat} {env : Env} {i : ι}

lemma Shows.of_grows (h : S.Shows e scope' env i) (hg : scope.Grows scope') :
    S.Shows e scope env i :=
  fun hops u t path found => h hops u t path (hg.found found)

lemma Keeps.of_grows (h : S.Keeps e scope' i) (hg : scope.Grows scope') : S.Keeps e scope i :=
  fun hops u t path found => h hops u t path (hg.found found)

lemma Sound.mono {n' : Nat} (h : S.Sound e scope base floor n) (hn : n ≤ n') :
    S.Sound e scope base floor n' :=
  ⟨h.mapping, fun path found => (h.fresh path found).trans_le hn, h.root, h.floor_le.trans hn,
    h.joins⟩

lemma found_open {root t : MappedTable} {source : Source} {hops : List PathSegment}
    (h : TableScope.table? ⟨root, source, []⟩ hops = some t) : hops = [] ∧ t = root := by
  unfold TableScope.table? at h
  split at h
  · exact ⟨by assumption, (Option.some.inj h).symm⟩
  · cases h

/-- A scope is sound when it is opened around a table. -/
lemma sound_open {root : MappedTable} {source : Source}
    (hroot : S.mappings.entity? e = some root.mapping) (hfloor : root.name.number < floor) :
    S.Sound e ⟨root, source, []⟩ source.joins floor floor := by
  have hhere : ∀ {u}, S.registry.LeadsSingly e [] u → u = e := by
    rintro u ⟨hl, -⟩
    cases hl
    rfl
  refine ⟨?_, ?_, hfloor, le_refl _, [], (List.append_nil _).symm, fun env i hi henv => ⟨?_, ?_⟩⟩
  · intro hops u t path found
    obtain ⟨rfl, rfl⟩ := found_open found
    rwa [hhere path]
  · intro hops u t path found
    obtain ⟨rfl, rfl⟩ := found_open found
    exact hfloor
  · intro env' henv'
    obtain rfl := List.mem_singleton.mp henv'
    refine ⟨fun _ _ => rfl, fun hops u t path found => ?_⟩
    obtain ⟨rfl, rfl⟩ := found_open found
    rw [hhere path]
    exact ⟨some i, rfl, henv⟩
  · intro _ hnil
    cases hnil

lemma table?_append {hops : List PathSegment} {hop : PathSegment} :
    scope.table? (hops ++ [hop]) = scope.joined.lookup (TableScope.keyOf (hops ++ [hop])) := by
  rw [TableScope.table?, if_neg (by simp)]

lemma keptEnds_hop {o : Option ι} {hop : PathSegment} (h : hop.indexed = false) :
    keptEnds o [hop] =
      if hop.nullable || (next o hop.name).isSome then [next o hop.name] else [] := by
  rw [keptEnds, h, if_neg (by decide)]
  rfl

lemma of_keptEnds {u : String} {hops : List PathSegment} {o : Option ι}
    (path : S.registry.LeadsSingly e hops u) (hi : S.Of e i) (h : keptEnds (some i) hops = [o]) :
    ∀ j ∈ o, S.Of u j := by
  refine of_ends S.stores.types path.1 (o := some i) (by simpa using hi) o ?_
  exact keptEnds_subset hops (by rw [h]; exact List.mem_singleton_self o)

/-- A scope with the table of one more path. -/
def added (scope : TableScope) (key : String) (next : MappedTable) (j : Join) : TableScope :=
  { scope with
    source := { scope.source with joins := scope.source.joins ++ [j] }
    joined := (key, next) :: scope.joined }

lemma grows_added {key : String} (next : MappedTable) (j : Join)
    (hlookup : scope.joined.lookup key = none) : scope.Grows (added scope key next j) := by
  refine ⟨rfl, rfl, rfl, fun {hops t} found => ?_⟩
  unfold TableScope.table? at found ⊢
  split at found
  · rename_i hnil
    rw [if_pos hnil]
    exact found
  · rename_i hnil
    have hkey : (TableScope.keyOf hops == key) = false := by
      rw [beq_eq_false_iff_ne]
      rintro rfl
      rw [hlookup] at found
      cases found
    rw [if_neg hnil, added, List.lookup_cons, hkey]
    exact found

/-- A path whose table is found after a join had it before, or is the one that was joined. -/
lemma found_added {r : Registry} {hops hops' : List PathSegment} {hop : PathSegment} {t u' : String}
    {next table : MappedTable} {j : Join} (onward : r.LeadsSingly e (hops ++ [hop]) t)
    (path : r.LeadsSingly e hops' u')
    (found : (added scope (TableScope.keyOf (hops ++ [hop])) next j).table? hops' = some table) :
    scope.table? hops' = some table ∨ (hops' = hops ++ [hop] ∧ u' = t ∧ table = next) := by
  unfold TableScope.table? at found ⊢
  split at found
  · rename_i hnil
    exact .inl (by rw [if_pos hnil]; exact found)
  · rename_i hnil
    rw [if_neg hnil]
    rw [added, List.lookup_cons] at found
    cases hkey : TableScope.keyOf hops' == TableScope.keyOf (hops ++ [hop]) with
    | false =>
      rw [hkey] at found
      exact .inl found
    | true =>
      rw [hkey] at found
      obtain ⟨rfl, rfl⟩ := TableScope.keyOf_injective path.1 onward.1 path.2 onward.2 hnil (by simp)
        (beq_iff_eq.mp hkey)
      exact .inr ⟨rfl, rfl, (Option.some.inj found).symm⟩

/-- A join from a table that shows a row goes on to the row of the association, if the joins keep
that. -/
lemma mem_joined_next {hops : List PathSegment} {hop : PathSegment} {u t column : String}
    {table : MappedTable} {m : EntityMapping} {a : Alias} {env' : Env}
    (path : S.registry.LeadsSingly e hops u) (found : scope.table? hops = some table)
    (onward : S.registry.LeadsSingly e (hops ++ [hop]) t)
    (mapped : S.mappings.Maps S.registry u hop.name table.mapping (.manyToOne column t))
    (target : S.mappings.entity? t = some m) (hi : S.Of e i) (hshows : S.Shows e scope env i) :
    env' ∈ S.db.joined ⟨if hop.nullable then .left else .inner, m.table, a, m.idColumn,
      ⟨table.name, column⟩⟩ env ↔
        ∃ o, keptEnds (some i) (hops ++ [hop]) = [o] ∧
          env' = Function.update env a (SqlRow.of S.row t o) := by
  obtain ⟨o, hkept, hrow⟩ := hshows hops u table path found
  have hof := of_keptEnds path hi hkept
  have hnext : ∀ j ∈ next o hop.name, S.Of t j := by
    intro j hj
    obtain ⟨k, hk, hj⟩ := Option.bind_eq_some_iff.mp hj
    exact S.stores.of_related mapped rfl (hof k hk) j (List.mem_of_head? hj)
  have howner : env.column ⟨table.name, column⟩ =
      SqlRow.of S.row t (next o hop.name) m.idColumn := by
    rw [Env.column, hrow]
    exact S.stores.reference_eq mapped target hof
  have hindexed : hop.indexed = false := (by simpa using onward.2 : _ ∧ hop.indexed = false).2
  rw [S.stores.mem_joined_iff target hnext howner, keptEnds_append, hkept, List.flatMap_singleton,
    keptEnds_hop hindexed]
  cases hnullable : hop.nullable <;> cases hsome : (next o hop.name).isSome <;> simp

/-- The joined table of a path shows the row at its end. -/
lemma sound_added (h : S.Sound e scope base floor n) {hops : List PathSegment} {hop : PathSegment}
    {u t column : String} {table : MappedTable} {m : EntityMapping}
    (path : S.registry.LeadsSingly e hops u) (found : scope.table? hops = some table)
    (onward : S.registry.LeadsSingly e (hops ++ [hop]) t)
    (mapped : S.mappings.Maps S.registry u hop.name table.mapping (.manyToOne column t))
    (target : S.mappings.entity? t = some m)
    (fresh : scope.joined.lookup (TableScope.keyOf (hops ++ [hop])) = none) :
    S.Sound e (added scope (TableScope.keyOf (hops ++ [hop])) ⟨⟨'t', n⟩, m⟩
      ⟨if hop.nullable then .left else .inner, m.table, ⟨'t', n⟩, m.idColumn,
        ⟨table.name, column⟩⟩) base floor (n + 1) := by
  obtain ⟨joins, hjoins, hsound⟩ := h.joins
  set j : Join := ⟨if hop.nullable then .left else .inner, m.table, ⟨'t', n⟩, m.idColumn,
    ⟨table.name, column⟩⟩ with hj
  have hgrows := grows_added ⟨⟨'t', n⟩, m⟩ j fresh
  refine ⟨fun {hops' u' t'} path' found' => ?_, fun {hops' u' t'} path' found' => ?_, h.root,
    h.floor_le.trans (Nat.le_succ n), joins ++ [j], ?_, fun env i hi henv => ?_⟩
  · obtain found' | ⟨-, rfl, rfl⟩ := found_added onward path' found'
    · exact h.mapping path' found'
    · exact target
  · obtain found' | ⟨-, rfl, rfl⟩ := found_added onward path' found'
    · exact (h.fresh path' found').trans (Nat.lt_succ_self n)
    · exact Nat.lt_succ_self n
  · rw [added, hjoins, List.append_assoc]
  · obtain ⟨hshows, hkeeps⟩ := hsound env i hi henv
    rw [Database.joinedAll_append]
    refine ⟨fun env' henv' => ?_, fun hall => ?_⟩
    · obtain ⟨env₁, henv₁, henv'⟩ := List.mem_flatMap.mp henv'
      obtain ⟨houter, hshown⟩ := hshows env₁ henv₁
      rw [Database.joinedAll_singleton, mem_joined_next path found onward mapped target hi
        hshown] at henv'
      obtain ⟨o, hkept, rfl⟩ := henv'
      -- the tables at hand have smaller numbers than the one that is joined
      have hother : ∀ a : Alias, a.number < n →
          Function.update env₁ ⟨'t', n⟩ (SqlRow.of S.row t o) a = env₁ a := by
        intro a ha
        refine Function.update_of_ne ?_ _ _
        rintro rfl
        exact lt_irrefl n ha
      refine ⟨fun a ha => ?_, fun hops' u' t' path' found' => ?_⟩
      · rw [hother a (ha.trans_le h.floor_le), houter a ha]
      · obtain found' | ⟨rfl, rfl, rfl⟩ := found_added onward path' found'
        · obtain ⟨o', hkept', hrow'⟩ := hshown hops' u' t' path' found'
          exact ⟨o', hkept', by rw [hother _ (h.fresh path' found'), hrow']⟩
        · exact ⟨o, hkept, Function.update_self ..⟩
    · obtain ⟨env₁, henv₁⟩ := List.exists_mem_of_ne_nil _ (hkeeps (hall.of_grows hgrows))
      obtain ⟨-, hshown⟩ := hshows env₁ henv₁
      have hkept := hall (hops ++ [hop]) t ⟨⟨'t', n⟩, m⟩ onward (by simp [table?_append, added])
      obtain ⟨o, hkept⟩ := (keptEnds_of_not_indexed onward.2).resolve_left hkept
      have hmem : Function.update env₁ ⟨'t', n⟩ (SqlRow.of S.row t o) ∈ S.db.joined j env₁ :=
        (mem_joined_next path found onward mapped target hi hshown).mpr ⟨o, hkept, rfl⟩
      rw [← Database.joinedAll_singleton] at hmem
      exact List.ne_nil_of_mem (List.mem_flatMap.mpr ⟨env₁, henv₁, hmem⟩)

/-- **Joining** keeps a scope sound: the table of a path is found again or joined to the table
before it. -/
lemma exists_join (h : S.Sound e scope base floor n) {hops : List PathSegment} {hop : PathSegment}
    {u t column : String} {table : MappedTable} {m : EntityMapping}
    (path : S.registry.LeadsSingly e hops u) (found : scope.table? hops = some table)
    (onward : S.registry.LeadsSingly e (hops ++ [hop]) t)
    (mapped : S.mappings.Maps S.registry u hop.name table.mapping (.manyToOne column t))
    (target : S.mappings.entity? t = some m) :
    ∃ next scope' n', TableScope.join S.mappings scope (TableScope.keyOf (hops ++ [hop])) table.name
      column t hop.nullable n = .ok (next, scope', n') ∧
      S.Sound e scope' base floor n' ∧ scope.Grows scope' ∧
      scope'.table? (hops ++ [hop]) = some next ∧ n ≤ n' ∧
      ∀ i, S.Keeps e scope i → keptEnds (some i) (hops ++ [hop]) ≠ [] → S.Keeps e scope' i := by
  unfold TableScope.join
  cases fresh : scope.joined.lookup (TableScope.keyOf (hops ++ [hop])) with
  | some next =>
    exact ⟨next, scope, n, rfl, h, .refl scope, table?_append.trans fresh, le_refl n,
      fun i hkeeps _ => hkeeps⟩
  | none =>
    have hmapping : TableScope.mappingOf S.mappings t = .ok m := by
      simp [TableScope.mappingOf, target]
    simp only [hmapping]
    refine ⟨_, _, _, rfl, sound_added h path found onward mapped target fresh,
      grows_added _ _ fresh, by simp [table?_append], Nat.le_succ n, fun i hkeeps hkept => ?_⟩
    intro hops' u' t' path' found'
    obtain found' | ⟨rfl, -, -⟩ := found_added onward path' found'
    · exact hkeeps hops' u' t' path' found'
    · exact hkept

end Storage

end EntityQuery
