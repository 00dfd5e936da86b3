import EntityQuery.Proofs.Criteria.Paths
import EntityQuery.Proofs.Preparation.Conversion

/-!
# Relational queries are correct

The restriction of a predicate is true for a row exactly if the predicate holds about the instance
of the row, its conditions read as they are selected. The tables of conditions and sort clauses are
joined in one scope that only grows, so a row of the whole source shows what each of them saw.
-/

namespace EntityQuery

open Instance

variable {ι : Type} [Instance ι] {S : Storage ι} {e : String} {scope : TableScope}
  {base : List Join} {floor n : Nat}

namespace Storage

/-! ### Predicates -/

/-- A database compares what it stores of the property of a condition with the operands as the
values compare. -/
def AgreesOn (S : Storage ι) (c : Condition) : Prop :=
  ∀ i, S.Of c.property.leaf.owner i → ∀ v ∈ (valueOf i c.property.leaf.name).parts,
    v.isNull = false → ∀ w ∈ c.operands, S.db.Agrees v w

/-- What is to be shown of compiling a part of a query: it succeeds in a scope that is sound again,
and what it comes to says something about the rows that the scope shows. -/
def Compiles {α : Type} (S : Storage ι) (e : String) (scope : TableScope) (base : List Join)
    (floor : Nat) (shows : α → Env → ι → Prop) (result : Compiled α) : Prop :=
  ∃ a scope' n', result = .ok (a, scope', n') ∧ S.Sound e scope' base floor n' ∧
    scope.Grows scope' ∧ ∀ env i, S.Of e i → S.Shows e scope' env i → shows a env i

/-- A restriction is true of a row if the predicate selects its instance. -/
def Selects (S : Storage ι) (p : Predicate Condition) (restriction : Restriction) (env : Env)
    (i : ι) : Prop :=
  restriction.truth S.db env = .yes ↔ p.holds (Condition.selected i) = true

lemma Selects.iff {p : Predicate Condition} {restriction : Restriction} {env : Env} {i : ι}
    (h : S.Selects p restriction env i) :
    restriction.truth S.db env = .yes ↔ p.holds (Condition.selected i) = true := h

lemma compiles_condition {c : Condition} (h : S.Sound e scope base floor n)
    (hc : c.Prepared S.registry e) (mapped : S.mappings.MapsPath S.registry c.property)
    (agrees : S.AgreesOn c) :
    S.Compiles e scope base floor (S.Selects (.cond c))
      (TableScope.conditionRestriction S.mappings scope c n) := by
  obtain ⟨s, hs⟩ := Condition.exists_strategy_of_check hc.checked
  have htakes := Condition.takes_of_check hs hc.unary hc.checked
  obtain ⟨matcher, hm, -⟩ := Matcher.make_of_takes htakes
  have hmatcher : c.matcher = .ok matcher := by
    simp [Condition.matcher, Strategy.require, hs, hm]
  obtain ⟨p, declared⟩ := hc.admitted.leaf
  obtain ⟨m, column, hcolumn, targets⟩ := mapped.leaf
  obtain ⟨restriction, scope', n', hresult, hsound, hgrows, -, -, htruth⟩ :=
    follows_along hm htakes hs declared hcolumn targets agrees h ⟨.here, rfl⟩ rfl
      hc.admitted.parents mapped.parents
  refine ⟨restriction, scope', n', ?_, hsound, hgrows, fun env i hi hshows => ?_⟩
  · rw [TableScope.conditionRestriction, Strategy.require, hs]
    exact hresult
  · rw [Selects, htruth env i hi hshows, Predicate.holds_cond, Condition.selected, hmatcher]
    rfl

lemma compiles_list {ps : List (Predicate Condition)} (h : S.Sound e scope base floor n)
    (hps : ∀ p ∈ ps, ∀ scope n, S.Sound e scope base floor n →
      S.Compiles e scope base floor (S.Selects p) (TableScope.restriction S.mappings scope n p)) :
    S.Compiles e scope base floor
      (fun rs env i => List.Forall₂ (fun p restriction => S.Selects p restriction env i) ps rs)
      (TableScope.restrictions S.mappings scope n ps) := by
  induction ps generalizing scope n with
  | nil => exact ⟨[], scope, n, rfl, h, .refl scope, fun _ _ _ _ => .nil⟩
  | cons p ps ih =>
    obtain ⟨restriction, scope₁, n₁, hresult, hsound, hgrows, hselects⟩ :=
      hps p (by simp) scope n h
    obtain ⟨rs, scope', n', hresult', hsound', hgrows', hselects'⟩ :=
      ih hsound fun p' hp' => hps p' (by simp [hp'])
    refine ⟨restriction :: rs, scope', n', ?_, hsound', hgrows.trans hgrows',
      fun env i hi hshows => .cons (hselects env i hi (hshows.of_grows hgrows'))
        (hselects' env i hi hshows)⟩
    simp [TableScope.restrictions, hresult, hresult', Except.map]

lemma all_selects {ps : List (Predicate Condition)} {rs : List Restriction} {env : Env} {i : ι}
    (h : List.Forall₂ (fun p restriction => S.Selects p restriction env i) ps rs) :
    S.Selects (.and ps) (.and rs) env i := by
  rw [Selects, Restriction.truth, Predicate.holds_and]
  induction h with
  | nil => simp [Restriction.truthAll]
  | cons hp _ ih =>
    rw [Restriction.truthAll, SqlTruth.and_eq_yes, List.all_cons, Bool.and_eq_true, hp.iff, ih]

lemma any_selects {ps : List (Predicate Condition)} {rs : List Restriction} {env : Env} {i : ι}
    (h : List.Forall₂ (fun p restriction => S.Selects p restriction env i) ps rs) :
    S.Selects (.or ps) (.or rs) env i := by
  rw [Selects, Restriction.truth, Predicate.holds_or]
  induction h with
  | nil => simp [Restriction.truthAny]
  | cons hp _ ih =>
    rw [Restriction.truthAny, SqlTruth.or_eq_yes, List.any_cons, Bool.or_eq_true, hp.iff, ih]

/-- **Predicates**: the restriction of a predicate selects the instances about which its conditions,
as they are selected, make it hold. -/
theorem compiles_predicate {p : Predicate Condition} (h : S.Sound e scope base floor n)
    (hp : ∀ c ∈ p.conditions, c.Prepared S.registry e ∧
      S.mappings.MapsPath S.registry c.property ∧ S.AgreesOn c) :
    S.Compiles e scope base floor (S.Selects p) (TableScope.restriction S.mappings scope n p) := by
  induction p using Predicate.induct generalizing scope n with
  | cond c =>
    obtain ⟨hc, mapped, agrees⟩ := hp c (by simp)
    rw [TableScope.restriction]
    exact compiles_condition h hc mapped agrees
  | and ps ih =>
    obtain ⟨rs, scope', n', hresult, hsound, hgrows, hselects⟩ :=
      compiles_list h fun p hmem scope n h =>
        ih p hmem h fun c hc => hp c (by simpa using ⟨p, hmem, hc⟩)
    exact ⟨.and rs, scope', n', by simp [TableScope.restriction, hresult, Except.map], hsound,
      hgrows, fun env i hi hshows => all_selects (hselects env i hi hshows)⟩
  | or ps ih =>
    obtain ⟨rs, scope', n', hresult, hsound, hgrows, hselects⟩ :=
      compiles_list h fun p hmem scope n h =>
        ih p hmem h fun c hc => hp c (by simpa using ⟨p, hmem, hc⟩)
    exact ⟨.or rs, scope', n', by simp [TableScope.restriction, hresult, Except.map], hsound,
      hgrows, fun env i hi hshows => any_selects (hselects env i hi hshows)⟩

/-! ### Sort clauses -/

lemma exists_sortTable {hops rest : List PathSegment} {u v : String} {table : MappedTable}
    (h : S.Sound e scope base floor n) (path : S.registry.LeadsSingly e hops u)
    (found : scope.table? hops = some table) (onward : S.registry.LeadsSingly u rest v)
    (hrest : S.MapsHops rest) :
    ∃ last scope' n', TableScope.sortTable S.mappings scope table (TableScope.keyOf hops) rest n =
      .ok (last, scope', n') ∧ S.Sound e scope' base floor n' ∧ scope.Grows scope' ∧
      S.mappings.entity? v = some last.mapping := by
  induction rest generalizing scope n hops u table with
  | nil =>
    obtain ⟨hleads, -⟩ := onward
    cases hleads
    exact ⟨table, scope, n, rfl, h, .refl scope, h.mapping path found⟩
  | cons hop rest ih =>
    obtain ⟨hleads, hsingle⟩ := onward
    rw [List.any_cons, Bool.or_eq_false_iff] at hsingle
    obtain ⟨m, c, t, m', mapped, -, target, -, hone, onward, hcolumn⟩ :=
      Mappings.MapsHop.exists_step (hrest hop (by simp)) hleads
    rw [hsingle.1, if_neg (by decide)] at hcolumn
    obtain ⟨column, rfl⟩ := hcolumn
    obtain rfl : table.mapping = m :=
      Option.some.inj ((h.mapping path found).symm.trans mapped.entity)
    have honward := path.step hone hsingle.1
    obtain ⟨next, scope₁, n₁, hjoin, hsound, hgrows, hfound, -, -⟩ :=
      exists_join h path found honward mapped target
    obtain ⟨last, scope', n', hresult, hsound', hgrows', hlast⟩ :=
      ih hsound honward hfound ⟨onward, hsingle.2⟩ fun s hs => hrest s (by simp [hs])
    refine ⟨last, scope', n', ?_, hsound', hgrows.trans hgrows', hlast⟩
    rw [TableScope.keyOf_append] at hjoin hresult
    have hfound' := mapped.found
    simp [TableScope.sortTable, TableScope.columnOf, hfound', hjoin, hresult]

/-- The property that a sort clause ends with is in a column of the table that its path leads to. -/
lemma exists_sortColumn {r : Registry} {ms : Mappings} {o : Order PropertyPath}
    {scope scope' : TableScope} {last : MappedTable} {n n' : Nat} (admits : r.Admits e o.property)
    (scalar : o.property.type.isCollection = false) (mapped : ms.MapsPath r o.property)
    (htable : TableScope.sortTable ms scope scope.root "" o.property.parents n =
      .ok (last, scope', n')) (hlast : ms.entity? o.property.leaf.owner = some last.mapping) :
    ∃ column, TableScope.sortColumn ms scope o n = .ok ((column, o.direction), scope', n') := by
  obtain ⟨m, c, hcolumn, -⟩ := mapped.leaf
  obtain ⟨p, declared⟩ := admits.leaf
  obtain ⟨p', hp', hsuits⟩ := hcolumn.suits
  obtain rfl : p = p' := by simpa [declared.found] using hp'
  rw [← declared.type] at hsuits
  obtain ⟨column, hc⟩ := hsuits.exists_column? fun hkind => by
    rw [← PropertyType.isCollection_iff] at hkind
    exact absurd (hkind.symm.trans scalar) (by decide)
  have hmapping : last.mapping = m := Option.some.inj (hlast.symm.trans hcolumn.entity)
  refine ⟨⟨last.name, column⟩, ?_⟩
  rw [TableScope.sortColumn]
  simp only [htable, hmapping, hcolumn.found]
  cases c <;> cases hc <;> rfl

lemma compiles_order {o : Order PropertyPath} (h : S.Sound e scope base floor n)
    (ho : S.registry.Admits e o.property ∧ o.property.isMultiValued = false ∧
      o.property.type.isCollection = false)
    (mapped : S.mappings.MapsPath S.registry o.property) :
    S.Compiles e scope base floor (fun _ _ _ => True)
      (TableScope.sortColumn S.mappings scope o n) := by
  obtain ⟨hadmits, hsingle, hscalar⟩ := ho
  obtain ⟨last, scope', n', hresult, hsound, hgrows, hlast⟩ :=
    exists_sortTable h ⟨.here, rfl⟩ rfl ⟨hadmits.parents, hsingle⟩ mapped.parents
  obtain ⟨column, hcolumn⟩ := exists_sortColumn hadmits hscalar mapped hresult hlast
  exact ⟨(column, o.direction), scope', n', hcolumn, hsound, hgrows, fun _ _ _ _ => trivial⟩

lemma compiles_orders {os : List (Order PropertyPath)} (h : S.Sound e scope base floor n)
    (hos : ∀ o ∈ os, S.registry.Admits e o.property ∧ o.property.isMultiValued = false ∧
      o.property.type.isCollection = false)
    (mapped : ∀ o ∈ os, S.mappings.MapsPath S.registry o.property) :
    S.Compiles e scope base floor (fun _ _ _ => True)
      (TableScope.sortColumns S.mappings scope n os) := by
  induction os generalizing scope n with
  | nil => exact ⟨[], scope, n, rfl, h, .refl scope, fun _ _ _ _ => trivial⟩
  | cons o os ih =>
    obtain ⟨c, scope₁, n₁, hresult, hsound, hgrows, -⟩ :=
      compiles_order h (hos o (by simp)) (mapped o (by simp))
    obtain ⟨cs, scope', n', hresult', hsound', hgrows', -⟩ :=
      ih hsound (fun o' ho' => hos o' (by simp [ho'])) fun o' ho' => mapped o' (by simp [ho'])
    refine ⟨c :: cs, scope', n', ?_, hsound', hgrows.trans hgrows', fun _ _ _ _ => trivial⟩
    simp [TableScope.sortColumns, hresult, hresult', Except.map]

end Storage

/-! ### Queries -/

/-- The table of an entity type and the properties that a prepared query names are mapped. -/
structure Mappings.MapsQuery (ms : Mappings) (r : Registry) (entity : String) (p : PreparedQuery) :
    Prop where
  root : ∃ m, ms.entity? entity = some m
  conditions : ∀ t ∈ p.predicate, ∀ c ∈ t.conditions, ms.MapsPath r c.property
  orders : ∀ o ∈ p.orders, ms.MapsPath r o.property

/-- Whether divergences decide about an instance: the predicate holds with them but not without, or
the other way round. -/
def Predicate.diverges (i : ι) (t : Predicate Condition) : Bool :=
  t.holds (fun c => c.stated i != c.diverges i) != t.holds (Condition.stated i)

lemma Predicate.diverges_eq_false {t : Predicate Condition} {i : ι}
    (h : ∀ c ∈ t.conditions, c.diverges i = false) : t.diverges i = false := by
  have hcongr : t.holds (fun c => c.stated i != c.diverges i) = t.holds (Condition.stated i) :=
    t.holds_congr fun c hc => by simp [h c hc]
  rw [diverges, hcongr, bne_self_eq_false]

namespace Storage

variable {entity : String}

/-- A row of the source of a query is the row of an instance, and the scope shows it. -/
lemma exists_of_mem_selected {m : EntityMapping} {outer env : Env} {a : Alias}
    (hroot : S.mappings.entity? entity = some m)
    (h : S.Sound entity scope [] floor n)
    (hgrows : TableScope.Grows ⟨⟨a, m⟩, ⟨m.table, a, []⟩, []⟩ scope)
    (henv : env ∈ S.db.selected scope.source outer) :
    (∃ i, S.Of entity i ∧ env scope.source.name = S.row entity i) ∧
      ∀ i, S.Of entity i → env scope.source.name = S.row entity i → S.Shows entity scope env i := by
  obtain ⟨added, hadded, hjoins⟩ := h.joins
  obtain ⟨row, hrow, henv⟩ := List.mem_flatMap.mp henv
  have hname : scope.root.name = scope.source.name := by rw [hgrows.root, hgrows.name]
  rw [hadded, List.nil_append] at henv
  rw [hgrows.table, S.stores.rows hroot] at hrow
  obtain ⟨i, hi, rfl⟩ := hrow
  have hupdate : Function.update outer scope.source.name (S.row entity i) scope.root.name =
      S.row entity i := by
    rw [hname, Function.update_self]
  have hsame : env scope.source.name = S.row entity i := by
    rw [← hname, ((hjoins _ i hi hupdate).1 env henv).1 _ h.root, hupdate]
  refine ⟨⟨i, hi, hsame⟩, fun j hj hrow => ?_⟩
  have hrows : S.row entity i = S.row entity j := hsame.symm.trans hrow
  exact ((hjoins _ j hj (hupdate.trans hrows)).1 env henv).2

end Storage

/-- **Relational queries.** A prepared query whose properties are mapped is compiled. For a row that
the source of the relational query keeps, the restriction is true exactly if the expression holds of
the instance of the row, unless divergences decide; none do where no condition diverges. -/
theorem restriction_agrees_iff {entity : String} {context : QueryContext} {q : RawQuery}
    {p : PreparedQuery} {t : Predicate Condition}
    (hp : q.prepare S.registry context entity = .ok p) (ht : p.predicate = some t)
    (mapped : S.mappings.MapsQuery S.registry entity p)
    (agrees : ∀ c ∈ t.conditions, S.AgreesOn c) :
    ∃ criteria restriction b, Criteria.compile S.mappings entity p = .ok criteria ∧
      criteria.restriction = some restriction ∧ BooleanExpression.ofPredicate t = .ok b ∧
      ∀ outer, ∀ env ∈ S.db.selected criteria.source outer,
        (∃ i, S.Of entity i ∧ env criteria.source.name = S.row entity i) ∧
        ∀ i, S.Of entity i → env criteria.source.name = S.row entity i →
          ((restriction.truth S.db env = .yes ↔ b.evaluate i = true) ↔ t.diverges i = false) ∧
          ((∀ c ∈ t.conditions, c.diverges i = false) →
            (restriction.truth S.db env = .yes ↔ b.evaluate i = true)) := by
  have hprepared := RawQuery.prepared_of_prepare hp ht
  obtain ⟨d, hd, horders, -⟩ := RawQuery.exists_of_prepare hp
  have hsortable := Registry.sortable_of_prepareOrders horders
  rw [Registry.entity?_name hd] at hsortable
  obtain ⟨m, hroot⟩ := mapped.root
  obtain ⟨b, hb, heval⟩ := BooleanExpression.exists_ofPredicate (ι := ι) fun c hc => by
    obtain ⟨-, b, -, -, -, hb, -⟩ := Condition.exists_matcher (ι := ι) (hprepared c hc)
    exact ⟨b, hb⟩
  -- the conditions and then the sort clauses are compiled in a scope around the root table
  have hopen : S.Sound entity ⟨⟨⟨'t', 0⟩, m⟩, ⟨m.table, ⟨'t', 0⟩, []⟩, []⟩ [] 1 1 :=
    Storage.sound_open hroot Nat.one_pos
  obtain ⟨restriction, scope, n, hrestriction, hsound, hgrows, hselects⟩ :=
    Storage.compiles_predicate hopen fun c hc =>
      ⟨hprepared c hc, mapped.conditions t ht c hc, agrees c hc⟩
  obtain ⟨columns, scope', n', hcolumns, hsound', hgrows', -⟩ :=
    Storage.compiles_orders hsound hsortable mapped.orders
  refine ⟨⟨scope'.source, some restriction, columns, none⟩, restriction, b, ?_, rfl, hb,
    fun outer env henv => ?_⟩
  · simp [Criteria.compile, TableScope.openScope, TableScope.mappingOf, hroot, ht,
      TableScope.queryRestriction, hrestriction, hcolumns, Except.map]
  · obtain ⟨hexists, hshows⟩ :=
      Storage.exists_of_mem_selected hroot hsound' (hgrows.trans hgrows') henv
    refine ⟨hexists, fun i hi hrow => ?_⟩
    have htruth := hselects env i hi ((hshows i hi hrow).of_grows hgrows')
    have hselected : t.holds (Condition.selected i) =
        t.holds fun c => c.stated i != c.diverges i :=
      t.holds_congr fun c hc => Condition.selected_eq (hprepared c hc) i
    have hiff : (restriction.truth S.db env = .yes ↔ b.evaluate i = true) ↔
        t.diverges i = false := by
      rw [htruth.iff, heval, hselected, Predicate.diverges, bne_eq_false_iff_eq]
      exact Bool.eq_iff_iff.symm
    exact ⟨hiff, fun h => hiff.mpr (Predicate.diverges_eq_false h)⟩

/-! ### A divergence that decides -/

/-- Two companies, of which only the second has a group; the group has one member. -/
inductive Firm where
  | lone
  | full
  | tech
  | ann
  deriving DecidableEq

namespace Firm

/-- The entity type of an instance. -/
def type : Firm → String
  | lone | full => "Company"
  | tech => "Group"
  | ann => "Person"

/-- The id of an instance. -/
def id : Firm → String
  | lone => "lone"
  | full => "full"
  | tech => "tech"
  | ann => "ann"

instance : Instance Firm where
  valueOf
    | i, "id" => .text i.id
    | full, "group" => .ref "Group" (.text "tech")
    | tech, "members" => .list [.ref "Person" (.text "ann")]
    | _, _ => .null
  related
    | full, "group" => [tech]
    | tech, "members" => [ann]
    | _, _ => []

/-- The entity types of the instances. -/
def registry : Registry :=
  ⟨[⟨"Company", "id", [⟨"id", .text, false, none⟩, ⟨"group", .entity "Group", true, none⟩]⟩,
    ⟨"Group", "id", [⟨"id", .text, false, none⟩,
      ⟨"members", .collection (.entity "Person"), true, none⟩]⟩,
    ⟨"Person", "id", [⟨"id", .text, false, none⟩]⟩]⟩

/-- The table of companies. -/
def companies : EntityMapping :=
  (EntityMapping.named "Company" "company" "id").map "group" (.manyToOne "group_id" "Group")

/-- The table of groups. -/
def groups : EntityMapping :=
  (EntityMapping.named "Group" "grp" "id").map "members"
    (.manyToMany "grp_person" "grp_id" "person_id" "Person")

/-- The table of people. -/
def people : EntityMapping :=
  .named "Person" "person" "id"

/-- The tables of the entity types. -/
def mappings : Mappings :=
  ⟨[companies, groups, people]⟩

/-- The row of an instance. -/
def row : Firm → SqlRow
  | i, "id" => .text i.id
  | full, "group_id" => .text "tech"
  | _, _ => .null

/-- The row that links the group with its member. -/
def link : SqlRow
  | "grp_id" => .text "tech"
  | "person_id" => .text "ann"
  | _ => .null

/-- The database of the instances. -/
def db : Database where
  rows
    | "company" => [row lone, row full]
    | "grp" => [row tech]
    | "person" => [row ann]
    | "grp_person" => [link]
    | _ => []
  compares
    | c, .text s, .text t => c.holds (.text s) (.text t)
    | _, _, _ => false

/-- The query for companies whose group does not have a member. -/
def withoutAnn : RawQuery :=
  .of (.cond ⟨"group.members", .notContains, some (.word "ann")⟩)

/-- The path from a company to the members of its group. -/
def members : PropertyPath :=
  ⟨[⟨"group", "Company", .entity "Group", true, false⟩],
    ⟨"members", "Group", .collection (.entity "Person"), true, false⟩⟩

/-- The condition of the query. -/
def excludesAnn : Condition :=
  ⟨members, .notContains, [.ref "Person" (.text "ann")]⟩

open Staff (context)

lemma convert_ann (site : OperandSite) :
    registry.convert site (.collection (.entity "Person")) (.text "ann") =
      .ok (.ref "Person" (.text "ann")) := by
  have known : registry.idType? "Person" = some .text := rfl
  rw [Registry.convert_collection, Registry.convert_entity rfl known,
    Registry.convert_scalar rfl (by simp)]
  rfl

lemma prepare_withoutAnn : withoutAnn.prepare registry context "Company" =
    .ok (.of (.cond excludesAnn)) := by
  have hentity : registry.requireEntity "Company" = .ok ⟨"Company", "id",
      [⟨"id", .text, false, none⟩, ⟨"group", .entity "Group", true, none⟩]⟩ := rfl
  have hpath : registry.pathOf ⟨"Company", "id", [⟨"id", .text, false, none⟩,
      ⟨"group", .entity "Group", true, none⟩]⟩ "group.members" = .ok members := rfl
  have hoperands : registry.operandsOf context members
      ⟨"group.members", .notContains, some (.word "ann")⟩ = .ok excludesAnn.operands := by
    change (registry.convert _ (.collection (.entity "Person")) (.text "ann")).map _ = _
    rw [convert_ann]
    rfl
  have hsettle : registry.settle excludesAnn = .ok (.cond excludesAnn) := rfl
  simp only [RawQuery.prepare, withoutAnn, hentity, Query.of, Predicate.mapM,
    Registry.prepareCondition, hpath, hoperands]
  rw [show (⟨members, .notContains, excludesAnn.operands⟩ : Condition) = excludesAnn from rfl,
    hsettle]
  rfl

lemma types : registry.Types fun e (i : Firm) => e = i.type where
  value := by
    rintro _ name i p rfl h
    obtain ⟨rfl, hp⟩ := Registry.declared_of_property? h
    cases i <;> simp [registry, type, Registry.entity?] at hp <;> rcases hp with rfl | rfl <;>
      first
        | exact .null
        | exact .text
        | exact .ref rfl rfl .text
        | exact .list (by simpa using .ref rfl rfl .text)
  single := by
    rintro _ name t i p rfl h -
    obtain ⟨rfl, hp⟩ := Registry.declared_of_property? h
    cases i <;> simp [registry, type, Registry.entity?] at hp <;> rcases hp with rfl | rfl <;>
      simp [Instance.related]
  target := by
    rintro _ name t i p rfl h htarget
    obtain ⟨rfl, hp⟩ := Registry.declared_of_property? h
    cases i <;> simp [registry, type, Registry.entity?] at hp <;> rcases hp with rfl | rfl <;>
      simp_all [Instance.related, PropertyType.target?, PropertyType.element, type]

lemma entity_cases {e : String} {m : EntityMapping} (h : mappings.entity? e = some m) :
    (e = "Company" ∧ m = companies) ∨ (e = "Group" ∧ m = groups) ∨ (e = "Person" ∧ m = people) := by
  have he : m.entity = e := by simpa using List.find?_some h
  have hm := List.mem_of_find?_eq_some h
  simp only [mappings, List.mem_cons, List.not_mem_nil, or_false] at hm
  rcases hm with rfl | rfl | rfl <;> simp_all [companies, groups, people, EntityMapping.named,
    EntityMapping.map]

lemma maps_cases {e name : String} {m : EntityMapping} {c : ColumnMapping}
    (h : mappings.Maps registry e name m c) :
    (name = "id" ∧ c = .column "id") ∨
    (e = "Company" ∧ name = "group" ∧ c = .manyToOne "group_id" "Group") ∨
    (e = "Group" ∧ name = "members" ∧
      c = .manyToMany "grp_person" "grp_id" "person_id" "Person") := by
  have hmem : (name, c) ∈ m.properties := TableScope.mem_of_lookup h.found
  rcases entity_cases h.entity with ⟨rfl, rfl⟩ | ⟨rfl, rfl⟩ | ⟨rfl, rfl⟩ <;>
    simp [companies, groups, people, EntityMapping.named, EntityMapping.map] at hmem <;>
    tauto

lemma idColumn_eq {e : String} {m : EntityMapping} (h : mappings.entity? e = some m) :
    m.idColumn = "id" := by
  rcases entity_cases h with ⟨-, rfl⟩ | ⟨-, rfl⟩ | ⟨-, rfl⟩ <;> rfl

lemma matched_text {s t : String} : db.matched (.text s) (.text t) = true ↔ s = t := by
  have hsame : (Value.text s == Value.text t) = (s == t) := rfl
  simp [Database.matched, Database.compare, db, Comparison.holds, Value.sameAs, Value.identity,
    hsame]

lemma id_injective {i j : Firm} : i.id = j.id ↔ i = j := by
  cases i <;> cases j <;> simp [id]

lemma row_id (i : Firm) : row i "id" = .text i.id := by
  cases i <;> rfl

lemma eq_tech {i : Firm} (h : "Group" = i.type) : i = tech := by
  cases i <;> simp_all [type]

lemma stores : db.Stores mappings registry (fun e i => e = i.type) fun _ => row where
  types := types
  rows {e m} entity x := by
    rcases entity_cases entity with ⟨rfl, rfl⟩ | ⟨rfl, rfl⟩ | ⟨rfl, rfl⟩
    · change x ∈ [row lone, row full] ↔ _
      constructor
      · intro hx
        rcases List.mem_pair.mp hx with rfl | rfl
        · exact ⟨lone, rfl, rfl⟩
        · exact ⟨full, rfl, rfl⟩
      · rintro ⟨i, hi, rfl⟩
        cases i <;> simp [type] at hi <;> simp
    · change x ∈ [row tech] ↔ _
      constructor
      · intro hx
        exact ⟨tech, rfl, (List.mem_singleton.mp hx).symm⟩
      · rintro ⟨i, hi, rfl⟩
        obtain rfl := eq_tech hi
        exact List.mem_singleton_self _
    · change x ∈ [row ann] ↔ _
      constructor
      · intro hx
        exact ⟨ann, rfl, (List.mem_singleton.mp hx).symm⟩
      · rintro ⟨i, hi, rfl⟩
        cases i <;> simp [type] at hi
        exact List.mem_singleton_self _
  ids {e m i j} entity hi hj := by
    rw [idColumn_eq entity, row_id, row_id, matched_text, id_injective]
  values {e name column m c i} mapped hc hi := by
    rcases maps_cases mapped with ⟨rfl, rfl⟩ | ⟨rfl, rfl, rfl⟩ | ⟨-, -, rfl⟩ <;> cases hc
    · exact ⟨by cases i <;> rfl, by simp [row_id]⟩
    · cases i <;> simp [type] at hi <;> exact ⟨rfl, by simp [row, valueOf]⟩
  references {e name column t m u i} mapped target hi := by
    rcases maps_cases mapped with ⟨-, hc⟩ | ⟨rfl, rfl, hc⟩ | ⟨-, -, hc⟩ <;> cases hc
    rw [idColumn_eq target]
    cases i <;> simp [type] at hi <;> rfl
  pointers {e name t mappedBy m u i j} mapped target hi hj := by
    rcases maps_cases mapped with ⟨-, hc⟩ | ⟨-, -, hc⟩ | ⟨-, -, hc⟩ <;> cases hc
  links {e name table owner column t m u i} mapped target hi x := by
    rcases maps_cases mapped with ⟨-, hc⟩ | ⟨-, -, hc⟩ | ⟨rfl, rfl, hc⟩ <;> cases hc
    rw [idColumn_eq target, idColumn_eq mapped.entity]
    obtain rfl := eq_tech hi
    change (∃ l ∈ [link], _) ↔ ∃ j ∈ [ann], row j "id" = x
    simp [link, row, matched_text, id]
  members {e name t m u c i} mapped leads many target hi x := by
    rcases maps_cases mapped with ⟨-, rfl⟩ | ⟨-, -, rfl⟩ | ⟨rfl, rfl, rfl⟩
    · cases leads
    · cases many
    · cases leads
      rw [idColumn_eq target]
      obtain rfl := eq_tech hi
      change (∃ v ∈ [Value.ref "Person" (.text "ann")], _) ↔ ∃ j ∈ [ann], row j "id" = x
      simp [SqlValue.ofValue, Value.identity, row, id]
  elements {e name table owner column m i} mapped hi x := by
    rcases maps_cases mapped with ⟨-, hc⟩ | ⟨-, -, hc⟩ | ⟨-, -, hc⟩ <;> cases hc

/-- The instances with their rows. -/
def storage : Storage Firm :=
  ⟨db, mappings, registry, fun e i => e = i.type, fun _ => row, stores⟩

lemma mapsQuery : mappings.MapsQuery registry "Company" (.of (.cond excludesAnn)) where
  root := ⟨companies, rfl⟩
  conditions := by
    rintro t ht c hc
    obtain rfl := Option.some.inj ht
    obtain rfl : c = excludesAnn := by simpa using hc
    refine ⟨?_, groups, _, ⟨rfl, rfl, _, rfl, rfl⟩, ?_⟩
    · intro s hs
      obtain rfl := List.mem_singleton.mp hs
      exact ⟨companies, _, "Group", groups, ⟨rfl, rfl, _, rfl, rfl⟩, rfl, rfl⟩
    · rintro - t ht
      cases ht
      exact ⟨people, rfl⟩
  orders := by simp [Query.of]

lemma agreesOn : storage.AgreesOn excludesAnn := by
  intro i hi v hv hnull w hw
  obtain rfl := eq_tech hi
  obtain rfl := List.mem_singleton.mp (show v ∈ [Value.ref "Person" (.text "ann")] from hv)
  obtain rfl := List.mem_singleton.mp (show w ∈ [Value.ref "Person" (.text "ann")] from hw)
  intro c
  cases c <;> rfl

end Firm

open Firm Staff in
/-- Of the companies whose group does not have a member, one without a group is selected only by the
restriction; about the other one both agree. -/
theorem restriction_agrees_iff_companies :
    ∃ p, withoutAnn.prepare registry context "Company" = .ok p ∧
      p.predicate = some (.cond excludesAnn) ∧
      ∃ criteria restriction b, Criteria.compile mappings "Company" p = .ok criteria ∧
        criteria.restriction = some restriction ∧
        BooleanExpression.ofPredicate (.cond excludesAnn) = .ok b ∧
        ∀ env ∈ db.selected criteria.source (fun _ => .null),
          (env criteria.source.name = row full →
            (restriction.truth db env = .yes ↔ b.evaluate full = true)) ∧
          (env criteria.source.name = row lone →
            ¬ (restriction.truth db env = .yes ↔ b.evaluate lone = true)) := by
  have hagrees : ∀ c ∈ (Predicate.cond excludesAnn).conditions, storage.AgreesOn c := by
    intro c hc
    obtain rfl : c = excludesAnn := by simpa using hc
    exact agreesOn
  obtain ⟨criteria, restriction, b, hcompile, hrestriction, hb, hiff⟩ :=
    restriction_agrees_iff (S := storage) prepare_withoutAnn rfl mapsQuery hagrees
  refine ⟨_, prepare_withoutAnn, rfl, criteria, restriction, b, hcompile, hrestriction, hb,
    fun env henv => ?_⟩
  obtain ⟨-, hiff⟩ := hiff _ env henv
  refine ⟨fun h => (hiff full rfl h).1.mpr (by decide), fun h hboth => ?_⟩
  exact absurd ((hiff lone rfl h).1.mp hboth) (by decide)

open Firm Staff in
/-- The restriction selects the company without a group, about which the expression does not hold.
-/
theorem restriction_disagrees :
    ∃ p criteria restriction b env, withoutAnn.prepare registry context "Company" = .ok p ∧
      p.predicate = some (.cond excludesAnn) ∧ mappings.MapsQuery registry "Company" p ∧
      storage.AgreesOn excludesAnn ∧ Criteria.compile mappings "Company" p = .ok criteria ∧
      criteria.restriction = some restriction ∧
      BooleanExpression.ofPredicate (.cond excludesAnn) = .ok b ∧
      env ∈ db.selected criteria.source (fun _ => .null) ∧
      env criteria.source.name = row lone ∧
      restriction.truth db env = .yes ∧ b.evaluate lone = false := by
  -- a left join puts nulls where the group would be
  refine ⟨_, _, _, _, Function.update (Function.update (fun _ => .null) ⟨'t', 0⟩ (row lone))
    ⟨'t', 1⟩ .null, prepare_withoutAnn, rfl, mapsQuery, agreesOn, rfl, rfl, rfl, ?_, rfl, rfl, rfl⟩
  exact List.mem_flatMap.mpr ⟨row lone, List.mem_cons_self, List.mem_singleton_self _⟩

end EntityQuery
