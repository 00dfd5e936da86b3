import EntityQuery.Criteria.Compile
import EntityQuery.Proofs.Criteria.Stored
import EntityQuery.Proofs.Execution.Decided

/-!
# The restriction at the end of a path

The property at the end of a path is tested in a column or in the rows that hold its elements. Such
a test selects a row exactly if the matcher of the condition accepts the value, with one exception:
where there is no collection, it has no element either, and so `not contains` selects null.
-/

namespace EntityQuery

open Instance

/-- What a comparison says about two values. -/
def Comparison.holds : Comparison → Value → Value → Bool
  | eq, v, x => v.sameAs x
  | ne, v, x => !v.sameAs x
  | gt, v, x => (v.compare? x).any (· == .gt)
  | ge, v, x => (v.compare? x).any (· != .lt)
  | lt, v, x => (v.compare? x).any (· == .lt)
  | le, v, x => (v.compare? x).any (· != .gt)

/-- A database compares the stored forms of two values as the values compare. -/
def Database.Agrees (db : Database) (v x : Value) : Prop :=
  ∀ c : Comparison, db.compare c (.ofValue v) (.ofValue x) = .ofBool (c.holds v x)

namespace Matcher

/-- What a restriction selects: the values that are accepted, and for `not contains` also null. -/
def selects (m : Matcher) (v : Value) : Bool :=
  m.accepts v || (m.strategy == .containment true && v.isNull)

variable {m : Matcher} {v : Value}

lemma selects_of_not_collection (h : m.strategy.comparesCollections = false) :
    m.selects v = m.accepts v := by
  have hne : (m.strategy == .containment true) = false := by
    cases hs : m.strategy <;> simp_all [Strategy.comparesCollections]
  rw [selects, hne, Bool.false_and, Bool.or_false]

end Matcher

namespace TableScope

variable {db : Database} {ms : Mappings} {r : Registry} {env : Env} {column : ColumnRef}

/-! ### Columns -/

lemma compare_of_holds {x : SqlValue} {v w : Value} (hx : x.Holds v) (c : Comparison)
    (agrees : v.isNull = false → db.Agrees v w) :
    db.compare c x (.ofValue w) = if v.isNull then .unknown else .ofBool (c.holds v w) := by
  cases hv : v.isNull with
  | true => simp [Database.compare, hx.eq_null_iff.mpr hv]
  | false => rw [hx.form, agrees hv c, if_neg (by decide)]

lemma among_of_holds {x : SqlValue} {v : Value} {ws : List Value} (hx : x.Holds v)
    (hv : v.isNull = false) (agrees : ∀ w ∈ ws, db.Agrees v w) :
    (ws.map SqlValue.ofValue).foldr (fun w rest => (db.compare .eq x w).or rest) .no =
      .ofBool (ws.any (v.sameAs ·)) := by
  induction ws with
  | nil => rfl
  | cons w ws ih =>
    rw [List.map_cons, List.foldr_cons, ih fun w' hw' => agrees w' (by simp [hw']),
      compare_of_holds hx .eq fun _ => agrees w (by simp), hv, if_neg (by decide),
      SqlTruth.ofBool_or_ofBool, List.any_cons, Comparison.holds]

lemma among_of_null {ws : List SqlValue} (h : ws ≠ []) :
    ws.foldr (fun w rest => (db.compare .eq .null w).or rest) .no = .unknown := by
  have hcompare : ∀ w, db.compare .eq .null w = .unknown := fun w => by simp [Database.compare]
  induction ws with
  | nil => exact absurd rfl h
  | cons w ws ih =>
    rw [List.foldr_cons, hcompare]
    rcases eq_or_ne ws [] with rfl | hws
    · rfl
    · rw [ih hws]
      rfl

lemma compares_ordering (operator : Operator) (v w : Value) :
    (match operator with
      | .gt => Comparison.gt
      | .ge => .ge
      | .lt => .lt
      | _ => .le).holds v w =
      match v.compare? w with
      | some ordering => Matcher.holds operator ordering
      | none => false := by
  cases operator <;> simp only [Comparison.holds] <;> cases v.compare? w <;>
    simp [Matcher.holds]

/-- **Columns**: the restriction on a column is true if the matcher accepts the value it holds. -/
lemma exists_columnRestriction (db : Database) (column : ColumnRef) {s : Strategy}
    {ws : List Value} {m : Matcher} (hm : Matcher.make s ws = .ok m) (htakes : s.Takes ws)
    (hscalar : s.comparesCollections = false) :
    ∃ restriction, columnRestriction? column s ws = some restriction ∧ ∀ env v,
      (env.column column).Holds v → (∀ w ∈ ws, v.isNull = false → db.Agrees v w) →
      (∀ i n, s = .pattern i n → v = .null ∨ ∃ t, v = .text t) →
      (restriction.truth db env = .yes ↔ m.selects v = true) := by
  obtain ⟨m', hm', hstrategy, hops, hpattern⟩ := Matcher.make_of_takes htakes
  obtain rfl : m = m' := by simpa [hm] using hm'
  have hselects : ∀ v, m.selects v = m.accepts v := fun v =>
    m.selects_of_not_collection (by rw [hstrategy, hscalar])
  simp only [hselects]
  cases htakes with
  | @equality n w present =>
    refine ⟨_, rfl, fun env v hv agrees _ => ?_⟩
    have hcompare := compare_of_holds hv (if n then .ne else .eq) (agrees w (by simp))
    simp only [Restriction.truth, firstParam, List.headD_cons, hcompare, Matcher.accepts,
      hstrategy, Matcher.operand, hops]
    cases hnull : v.isNull <;> cases n <;> simp [Comparison.holds]
  | @ordering operator w present =>
    refine ⟨_, rfl, fun env v hv agrees _ => ?_⟩
    simp only [Restriction.truth, firstParam, List.headD_cons,
      compare_of_holds hv _ (agrees w (by simp)), Matcher.accepts, hstrategy, Matcher.operand, hops]
    cases hnull : v.isNull with
    | true =>
      obtain rfl : v = .null := by cases v <;> simp_all [Value.isNull]
      simp [Value.compare?, Value.identity]
    | false =>
      rw [if_neg (by decide), SqlTruth.ofBool_eq_yes]
      exact Bool.eq_iff_iff.mp (compares_ordering operator v w)
  | @pattern i n t readable =>
    refine ⟨_, rfl, fun env v hv _ htext => ?_⟩
    obtain ⟨pieces, hpieces, hp⟩ := hpattern i n t rfl rfl
    have hform := hv.form
    rcases htext i n rfl with rfl | ⟨s, rfl⟩
    · simp [Restriction.truth, hform, SqlValue.ofValue, Value.identity, SqlValue.like,
        Matcher.accepts, hstrategy, Value.text?]
    · rw [Restriction.truth, hform, Matcher.accepts_text hstrategy hp hpieces]
      simp [SqlValue.ofValue, Value.identity, firstParam, SqlValue.like_text,
        SqlTruth.negate_ofBool]
  | @membership n ws some present =>
    refine ⟨_, rfl, fun env v hv agrees _ => ?_⟩
    simp only [Restriction.truth, Matcher.accepts, hstrategy, hops]
    cases hnull : v.isNull with
    | true =>
      rw [hv.eq_null_iff.mpr hnull, among_of_null (by simpa using some)]
      simp
    | false =>
      rw [among_of_holds hv hnull fun w hw => agrees w hw hnull, SqlTruth.negate_ofBool,
        SqlTruth.ofBool_eq_yes, Bool.not_false, Bool.true_and]
  | @nullness n =>
    refine ⟨_, rfl, fun env v hv _ _ => ?_⟩
    have hnull : (env.column column == .null) = v.isNull := by
      rw [Bool.eq_iff_iff, beq_iff_eq, hv.eq_null_iff]
    rw [Restriction.truth, SqlTruth.ofBool_eq_yes, hnull, Matcher.accepts, hstrategy]
  | emptiness => cases hscalar
  | containment present => cases hscalar

/-! ### Rows of elements -/

variable {ι : Type} [Instance ι] {Of : String → ι → Prop} {row : String → ι → SqlRow}
  {e name t : String} {m u : EntityMapping} {c : ColumnMapping} {rows : ElementRows} {n n' : Nat}

lemma exists_elementRows (many : c.column? = none)
    (targets : ∀ t, c.target? = some t → ∃ u, ms.entity? t = some u) (m : EntityMapping)
    (name : String) (n : Nat) :
    ∃ rows n', elementRows ms m name n c = .ok (rows, n') ∧ n < n' ∧
      ∀ t u, c.target? = some t → ms.entity? t = some u →
        ∃ a, rows.target? = some ⟨a, u⟩ ∧ a.number < n' := by
  cases c with
  | column column => cases many
  | manyToOne column t => cases many
  | oneToMany t mappedBy =>
    obtain ⟨u, hu⟩ := targets t rfl
    refine ⟨_, _, by simp [elementRows, mappingOf, hu, Except.map]; exact ⟨rfl, rfl⟩, by omega, ?_⟩
    rintro t' u' ht hu'
    cases ht
    obtain rfl : u = u' := by simpa [hu] using hu'
    exact ⟨_, rfl, Nat.lt_succ_self n⟩
  | manyToMany table owner column t =>
    obtain ⟨u, hu⟩ := targets t rfl
    refine ⟨_, _, by simp [elementRows, mappingOf, hu, Except.map]; exact ⟨rfl, rfl⟩, by omega, ?_⟩
    rintro t' u' ht hu'
    cases ht
    obtain rfl : u = u' := by simpa [hu] using hu'
    exact ⟨_, rfl, Nat.lt_succ_self (n + 1)⟩
  | elements table owner column => exact ⟨_, _, rfl, by omega, by simp [ColumnMapping.target?]⟩

/-- The rows that a multi-valued property is mapped to. -/
lemma elementRows_eq_ok (h : elementRows ms m name n c = .ok (rows, n')) :
    (∃ t mappedBy u, c = .oneToMany t mappedBy ∧ ms.entity? t = some u ∧ n' = n + 1 ∧
      rows = ⟨⟨u.table, ⟨'t', n⟩, []⟩, ⟨⟨'t', n⟩, mappedBy⟩, ⟨⟨'t', n⟩, u.idColumn⟩,
        some ⟨⟨'t', n⟩, u⟩⟩) ∨
    (∃ table owner column t u, c = .manyToMany table owner column t ∧ ms.entity? t = some u ∧
      n' = n + 2 ∧
      rows = ⟨⟨table, ⟨'j', n⟩, [⟨.inner, u.table, ⟨'t', n + 1⟩, u.idColumn, ⟨⟨'j', n⟩, column⟩⟩]⟩,
        ⟨⟨'j', n⟩, owner⟩, ⟨⟨'j', n⟩, column⟩, some ⟨⟨'t', n + 1⟩, u⟩⟩) ∨
    (∃ table owner column, c = .elements table owner column ∧ n' = n + 1 ∧
      rows = ⟨⟨table, ⟨'e', n⟩, []⟩, ⟨⟨'e', n⟩, owner⟩, ⟨⟨'e', n⟩, column⟩, none⟩) := by
  cases c with
  | column column => cases h
  | manyToOne column t => cases h
  | oneToMany t mappedBy =>
    rw [elementRows, mappingOf] at h
    cases hu : ms.entity? t with
    | none => simp [hu, Except.map] at h
    | some u =>
      simp only [hu, Except.map, Except.ok.injEq, Prod.mk.injEq] at h
      exact .inl ⟨t, mappedBy, u, rfl, hu, h.2.symm, h.1.symm⟩
  | manyToMany table owner column t =>
    rw [elementRows, mappingOf] at h
    cases hu : ms.entity? t with
    | none => simp [hu, Except.map] at h
    | some u =>
      simp only [hu, Except.map, Except.ok.injEq, Prod.mk.injEq] at h
      exact .inr (.inl ⟨table, owner, column, t, u, rfl, hu, h.2.symm, h.1.symm⟩)
  | elements table owner column =>
    simp only [elementRows, Except.ok.injEq, Prod.mk.injEq] at h
    exact .inr (.inr ⟨table, owner, column, rfl, h.2.symm, h.1.symm⟩)

lemma elementRows_names (h : elementRows ms m name n c = .ok (rows, n')) :
    rows.inner.table = rows.source.name ∧ rows.element.table = rows.source.name ∧
      n ≤ rows.source.name.number ∧ rows.source.name.number < n' := by
  obtain ⟨t, mappedBy, u, rfl, -, rfl, rfl⟩ | ⟨table, owner, column, t, u, rfl, -, rfl, rfl⟩ |
    ⟨table, owner, column, rfl, rfl, rfl⟩ := elementRows_eq_ok h <;> simp

/-- The rows of elements that point back at an instance hold the items of its collection. -/
lemma elementRows_items (hs : db.Stores ms r Of row) (mapped : ms.Maps r e name m c)
    (h : elementRows ms m name n c = .ok (rows, n')) {i : ι} (hi : Of e i) (x : SqlValue) :
    (∃ y ∈ db.rows rows.source.table,
      db.matched (y rows.inner.column) (row e i m.idColumn) = true ∧ y rows.element.column = x) ↔
        ∃ v ∈ (valueOf i name).items, SqlValue.ofValue v = x := by
  obtain ⟨t, mappedBy, u, rfl, hu, -, rfl⟩ | ⟨table, owner, column, t, u, rfl, hu, -, rfl⟩ |
    ⟨table, owner, column, rfl, -, rfl⟩ := elementRows_eq_ok h
  · rw [hs.members mapped rfl rfl hu hi]
    simp only [hs.rows hu]
    constructor
    · rintro ⟨_, ⟨j, hj, rfl⟩, hmatched, rfl⟩
      exact ⟨j, (hs.pointers mapped hu hi hj).mp hmatched, rfl⟩
    · rintro ⟨j, hj, rfl⟩
      have hof := hs.of_related mapped rfl hi j hj
      exact ⟨_, ⟨j, hof, rfl⟩, (hs.pointers mapped hu hi hof).mpr hj, rfl⟩
  · rw [hs.members mapped rfl rfl hu hi]
    exact hs.links mapped hu hi x
  · exact hs.elements mapped hi x

/-- What a sub-query on a collection of instances has: the tables around keep their rows, and the
table of the instances has the rows of the elements. -/
structure RangesOver (db : Database) (Of : String → ι → Prop) (row : String → ι → SqlRow)
    (e name t : String) (m : EntityMapping) (n : Nat) (rows : ElementRows) (a : Alias) : Prop where
  selects : ∀ env, ∀ env' ∈ db.selected rows.source env,
    (∀ b : Alias, b.number < n → env' b = env b) ∧ ∃ j, Of t j ∧ env' a = row t j ∧
      ∀ i, Of e i → db.matched (env'.column rows.inner) (row e i m.idColumn) = true →
        j ∈ related i name
  finds : ∀ env i, Of e i → ∀ j ∈ related i name, ∃ env' ∈ db.selected rows.source env,
    db.matched (env'.column rows.inner) (row e i m.idColumn) = true ∧ env' a = row t j

lemma update_of_number_lt {a b : Alias} (env : Env) (y : SqlRow) (h : b.number < a.number) :
    Function.update env a y b = env b := by
  refine Function.update_of_ne ?_ _ _
  rintro rfl
  exact lt_irrefl _ h

lemma rangesOver_pointers {mappedBy : String} (hs : db.Stores ms r Of row)
    (mapped : ms.Maps r e name m (.oneToMany t mappedBy)) (target : ms.entity? t = some u)
    (n : Nat) :
    RangesOver db Of row e name t m n
      ⟨⟨u.table, ⟨'t', n⟩, []⟩, ⟨⟨'t', n⟩, mappedBy⟩, ⟨⟨'t', n⟩, u.idColumn⟩, some ⟨⟨'t', n⟩, u⟩⟩
      ⟨'t', n⟩ := by
  refine ⟨fun env env' henv' => ?_, fun env i hi j hj => ?_⟩
  · simp only [Database.selected, Database.joinedAll, List.mem_flatMap, List.mem_singleton,
      hs.rows target] at henv'
    obtain ⟨_, ⟨j, hj, rfl⟩, rfl⟩ := henv'
    refine ⟨fun b hb => update_of_number_lt env _ hb, j, hj, Function.update_self ..,
      fun i hi hmatched => ?_⟩
    simp only [Env.column, Function.update_self] at hmatched
    exact (hs.pointers mapped target hi hj).mp hmatched
  · have hof := hs.of_related mapped rfl hi j hj
    refine ⟨Function.update env ⟨'t', n⟩ (row t j), ?_, ?_, Function.update_self ..⟩
    · simp only [Database.selected, Database.joinedAll, List.mem_flatMap, List.mem_singleton,
        hs.rows target]
      exact ⟨_, ⟨j, hof, rfl⟩, rfl⟩
    · simp only [Env.column, Function.update_self]
      exact (hs.pointers mapped target hi hof).mpr hj

lemma rangesOver_links {table owner column : String} (hs : db.Stores ms r Of row)
    (mapped : ms.Maps r e name m (.manyToMany table owner column t))
    (target : ms.entity? t = some u) (n : Nat) :
    RangesOver db Of row e name t m n
      ⟨⟨table, ⟨'j', n⟩, [⟨.inner, u.table, ⟨'t', n + 1⟩, u.idColumn, ⟨⟨'j', n⟩, column⟩⟩]⟩,
        ⟨⟨'j', n⟩, owner⟩, ⟨⟨'j', n⟩, column⟩, some ⟨⟨'t', n + 1⟩, u⟩⟩ ⟨'t', n + 1⟩ := by
  have hbefore : (⟨'j', n⟩ : Alias).number < (⟨'t', n + 1⟩ : Alias).number := Nat.lt_succ_self n
  refine ⟨fun env env' henv' => ?_, fun env i hi j hj => ?_⟩
  · simp only [Database.selected, Database.joinedAll_singleton, List.mem_flatMap,
      Database.mem_joined, hs.rows target] at henv'
    obtain ⟨link, hlink, ⟨_, ⟨j, hj, rfl⟩, hid, rfl⟩ | ⟨hkind, -⟩⟩ := henv'
    · refine ⟨fun b hb => ?_, j, hj, Function.update_self .., fun i hi hmatched => ?_⟩
      · have hb' : b.number < (⟨'t', n + 1⟩ : Alias).number := Nat.lt_succ_of_lt hb
        rw [update_of_number_lt _ _ hb', update_of_number_lt env _ hb]
      · simp only [Env.column, update_of_number_lt _ _ hbefore, Function.update_self]
          at hmatched hid
        obtain ⟨j', hj', hlinked⟩ := (hs.links mapped target hi _).mp ⟨link, hlink, hmatched, rfl⟩
        rw [← hlinked] at hid
        obtain rfl := (hs.ids target hj (hs.of_related mapped rfl hi j' hj')).mp hid
        exact hj'
    · cases hkind
  · have hof := hs.of_related mapped rfl hi j hj
    obtain ⟨link, hlink, hmatched, hlinked⟩ := (hs.links mapped target hi _).mpr ⟨j, hj, rfl⟩
    refine ⟨Function.update (Function.update env ⟨'j', n⟩ link) ⟨'t', n + 1⟩ (row t j), ?_, ?_,
      Function.update_self ..⟩
    · simp only [Database.selected, Database.joinedAll_singleton, List.mem_flatMap,
        Database.mem_joined, hs.rows target]
      refine ⟨link, hlink, .inl ⟨_, ⟨j, hof, rfl⟩, ?_, rfl⟩⟩
      simp only [Env.column, Function.update_self, hlinked]
      exact (hs.ids target hof hof).mpr rfl
    · simp only [Env.column, update_of_number_lt _ _ hbefore, Function.update_self]
      exact hmatched

/-- The rows of a collection of instances range over its elements. -/
lemma exists_targetRows (hs : db.Stores ms r Of row) (mapped : ms.Maps r e name m c)
    (many : c.column? = none) (leads : c.target? = some t) (target : ms.entity? t = some u)
    (n : Nat) :
    ∃ rows n' a, elementRows ms m name n c = .ok (rows, n') ∧ rows.target? = some ⟨a, u⟩ ∧ n < n' ∧
      a.number < n' ∧ rows.inner.table.number < n' ∧
      RangesOver db Of row e name t m n rows a := by
  have hmapping : mappingOf ms t = .ok u := by simp [mappingOf, target]
  cases c with
  | column column => cases many
  | manyToOne column t => cases many
  | elements table owner column => cases leads
  | oneToMany t mappedBy =>
    cases leads
    exact ⟨_, _, ⟨'t', n⟩, by rw [elementRows, hmapping]; rfl, rfl, by omega, by simp, by simp,
      rangesOver_pointers hs mapped target n⟩
  | manyToMany table owner column t =>
    cases leads
    exact ⟨_, _, ⟨'t', n + 1⟩, by rw [elementRows, hmapping]; rfl, rfl, by omega, by simp, by simp,
      rangesOver_links hs mapped target n⟩

/-! ### Collections -/

/-- A sub-query for the rows of elements ranges over the items of the collection. -/
lemma exists_selected_iff (hs : db.Stores ms r Of row) (mapped : ms.Maps r e name m c)
    (h : elementRows ms m name n c = .ok (rows, n')) {a : Alias} (ha : a.number < n) {o : Option ι}
    (ho : ∀ i ∈ o, Of e i) (henv : env a = SqlRow.of row e o) (test : SqlValue → Prop) :
    (∃ env' ∈ db.selected { rows.source with joins := [] } env,
      db.matched (env'.column rows.inner) (env'.column ⟨a, m.idColumn⟩) = true ∧
        test (env'.column rows.element)) ↔
      ∃ v ∈ (read o name).items, test (.ofValue v) := by
  obtain ⟨hinner, helement, hge, -⟩ := elementRows_names h
  have hne : a ≠ rows.source.name := by
    rintro rfl
    omega
  have hcolumns : ∀ y : SqlRow,
      Env.column (Function.update env rows.source.name y) rows.inner = y rows.inner.column ∧
      Env.column (Function.update env rows.source.name y) rows.element = y rows.element.column ∧
      Env.column (Function.update env rows.source.name y) ⟨a, m.idColumn⟩ =
        SqlRow.of row e o m.idColumn := by
    intro y
    refine ⟨Env.column_update hinner env y, Env.column_update helement env y, ?_⟩
    rw [Env.column_update_of_ne hne, Env.column, henv]
  simp only [Database.selected, Database.joinedAll, List.mem_flatMap, List.mem_singleton]
  cases o with
  | none =>
    constructor
    · rintro ⟨_, ⟨y, -, rfl⟩, hmatched, -⟩
      rw [(hcolumns y).2.2] at hmatched
      exact absurd rfl (Database.matched_ne_null hmatched).2
    · rintro ⟨v, hv, -⟩
      cases hv
  | some i =>
    have hitems := fun x => elementRows_items hs mapped h (ho i rfl) x
    constructor
    · rintro ⟨_, ⟨y, hy, rfl⟩, hmatched, htest⟩
      rw [(hcolumns y).1, (hcolumns y).2.2] at hmatched
      rw [(hcolumns y).2.1] at htest
      obtain ⟨v, hv, hform⟩ := (hitems _).mp ⟨y, hy, hmatched, rfl⟩
      exact ⟨v, hv, by rwa [hform]⟩
    · rintro ⟨v, hv, htest⟩
      obtain ⟨y, hy, hmatched, hform⟩ := (hitems _).mpr ⟨v, hv, rfl⟩
      refine ⟨_, ⟨y, hy, rfl⟩, ?_, ?_⟩
      · rw [(hcolumns y).1, (hcolumns y).2.2]
        exact hmatched
      · rw [(hcolumns y).2.1, hform]
        exact htest

lemma compare_eq_yes_iff {v w : Value} (agrees : v.isNull = false → db.Agrees v w) :
    db.compare .eq (.ofValue v) (.ofValue w) = .yes ↔ v.sameAs w = true := by
  cases hv : v.isNull with
  | false => rw [agrees hv .eq, SqlTruth.ofBool_eq_yes, Comparison.holds]
  | true =>
    obtain rfl : v = .null := by cases v <;> simp_all [Value.isNull]
    simp [Database.compare, SqlValue.ofValue, Value.identity, Value.sameAs]

/-- **Collections**: the restriction on the rows of elements tells whether a collection has
elements, or has one. It is true of null, which has no elements, whenever it is a negation. -/
lemma exists_collectionRestriction (hs : db.Stores ms r Of row) (mapped : ms.Maps r e name m c)
    (h : elementRows ms m name n c = .ok (rows, n')) {table : MappedTable}
    (htable : table.mapping = m) (hname : table.name.number < n) (leaf : PathSegment)
    {s : Strategy} {ws : List Value} {matcher : Matcher} (hm : Matcher.make s ws = .ok matcher)
    (htakes : s.Takes ws) (hcollection : s.comparesCollections = true) :
    ∃ restriction, collectionRestriction table leaf s ws rows = .ok restriction ∧
      ∀ env (o : Option ι), (∀ i ∈ o, Of e i) → env table.name = SqlRow.of row e o →
        (read o name = .null ∨ ∃ items, read o name = .list items) →
        (∀ v ∈ (read o name).items, ∀ w ∈ ws, v.isNull = false → db.Agrees v w) →
        (restriction.truth db env = .yes ↔ matcher.selects (read o name) = true) := by
  obtain ⟨matcher', hm', hstrategy, hops, -⟩ := Matcher.make_of_takes htakes
  obtain rfl : matcher = matcher' := by simpa [hm] using hm'
  subst htable
  cases htakes with
  | @emptiness negated =>
    refine ⟨_, rfl, fun env o ho henv hlist _ => ?_⟩
    have hitems := exists_selected_iff hs mapped h hname ho henv (fun _ => True)
    simp only [and_true] at hitems
    rw [Restriction.truth_subquery]
    simp only [Restriction.truthInner, and_true, hitems]
    rcases hlist with hnull | ⟨items, hlist⟩
    · cases negated <;> simp [hnull, Matcher.selects, Matcher.accepts, hstrategy, Value.items,
        Value.list?, Matcher.lacksElements]
    · cases items <;> cases negated <;> simp [hlist, Matcher.selects, Matcher.accepts, hstrategy,
        Value.items, Value.list?, Matcher.lacksElements]
  | @containment negated w present =>
    refine ⟨_, rfl, fun env o ho henv hlist agrees => ?_⟩
    have hitems := exists_selected_iff hs mapped h hname ho henv
      (fun x => db.compare .eq x (.ofValue w) = .yes)
    have hsame : (∃ v ∈ (read o name).items, db.compare .eq (.ofValue v) (.ofValue w) = .yes) ↔
        (read o name).items.any (·.sameAs w) = true := by
      rw [List.any_eq_true]
      refine exists_congr fun v => and_congr_right fun hv => compare_eq_yes_iff ?_
      exact agrees v hv w (by simp)
    rw [Restriction.truth_subquery]
    simp only [Restriction.truthInner, Restriction.truth, firstParam, List.headD_cons, hitems,
      hsame]
    rcases hlist with hnull | ⟨items, hlist⟩
    · cases negated <;> simp [hnull, Matcher.selects, Matcher.accepts, hstrategy, Value.items,
        Value.list?, Value.isNull]
    · cases negated <;> simp [hlist, Matcher.selects, Matcher.accepts, hstrategy,
        Value.items, Value.list?, Value.isNull, Matcher.operand, hops]
  | _ => cases hcollection

/-! ### Leaves -/

lemma exists_leafRestriction (hs : db.Stores ms r Of row) {leaf : PathSegment} {p : PropertyDef}
    (declared : r.Declares leaf p) (mapped : ms.Maps r leaf.owner leaf.name m c)
    (targets : leaf.type.kind = .collection → ∀ t, c.target? = some t → ∃ u, ms.entity? t = some u)
    {table : MappedTable} (htable : table.mapping = m) (hname : table.name.number < n)
    {operator : Operator} {s : Strategy} {ws : List Value} {matcher : Matcher}
    (hof : Strategy.of? operator leaf.type.kind = some s) (hm : Matcher.make s ws = .ok matcher)
    (htakes : s.Takes ws) :
    ∃ restriction n', leafRestriction ms table leaf s ws n = .ok (restriction, n') ∧ n ≤ n' ∧
      ∀ env (o : Option ι), (∀ i ∈ o, Of leaf.owner i) →
        env table.name = SqlRow.of row leaf.owner o →
        (∀ v ∈ (read o leaf.name).parts, v.isNull = false → ∀ w ∈ ws, db.Agrees v w) →
        (restriction.truth db env = .yes ↔ matcher.selects (read o leaf.name) = true) := by
  obtain ⟨p', hp', hsuits⟩ := mapped.suits
  obtain rfl : p = p' := by simpa [declared.found] using hp'
  rw [← declared.type] at hsuits
  have hkind := Strategy.kind_eq_collection_iff hof
  have hfits : ∀ o : Option ι, (∀ i ∈ o, Of leaf.owner i) →
      (read o leaf.name).Fits r leaf.type := by
    rintro (_ | i) ho
    · exact .null
    · rw [declared.type]
      exact hs.types.value (ho i rfl) declared.found
  have hcolumn : columnOf table.mapping leaf.name = .ok c := by
    simp [columnOf, htable, mapped.found]
  unfold leafRestriction
  rw [hcolumn]
  by_cases hmany : leaf.type.kind = .collection
  · have hnone := hsuits.column?_eq_none hmany
    obtain ⟨rows, n', hrows, hn, -⟩ := exists_elementRows hnone (targets hmany) m leaf.name n
    obtain ⟨restriction, hrestriction, htruth⟩ := exists_collectionRestriction hs mapped hrows
      htable hname leaf hm htakes (hkind.mp hmany)
    refine ⟨restriction, n', ?_, hn.le, fun env o ho henv agrees => ?_⟩
    · rw [← htable] at hrows
      cases c <;> cases hnone <;> simp [hrows, hrestriction, Except.map]
    · have hlist := (hfits o ho).list_or_null hmany
      refine htruth env o ho henv hlist fun v hv w hw hnull => agrees v ?_ hnull w hw
      rcases hlist with hread | ⟨items, hread⟩ <;> rw [hread] at hv ⊢
      · cases hv
      · exact hv
  · have hscalar : s.comparesCollections = false := by
      rw [hkind] at hmany
      simpa using hmany
    obtain ⟨column, hc⟩ := hsuits.exists_column? hmany
    obtain ⟨restriction, hrestriction, htruth⟩ :=
      exists_columnRestriction db ⟨table.name, column⟩ hm htakes hscalar
    refine ⟨restriction, n, ?_, le_refl _, fun env o ho henv agrees => htruth env _ ?_ ?_ ?_⟩
    · cases c <;> cases hc <;> simp [hrestriction]
    · rw [Env.column, henv]
      exact hs.holds_read mapped hc ho
    · have hparts : read o leaf.name ∈ (read o leaf.name).parts := by
        rw [(hfits o ho).parts_eq hmany]
        exact List.mem_singleton_self _
      exact fun w hw hnull => agrees _ hparts hnull w hw
    · rintro i negated rfl
      exact (hfits o ho).text_or_null (Strategy.kind_eq_text hof)

end TableScope

end EntityQuery
