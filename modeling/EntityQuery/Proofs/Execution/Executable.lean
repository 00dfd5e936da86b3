import EntityQuery.Execution.Binding
import EntityQuery.Proofs.Execution.Agreement

/-!
# Prepared queries can be run

What preparation lets through, the executors in memory can run. The check of preparation, the table
of strategies, the operands of a matcher and the handles of expressions are told apart by operator
and by kind in four places; a prepared condition is accepted in all of them, and so is every tree of
prepared conditions.
-/

namespace EntityQuery

variable {r : Registry} {context : QueryContext} {entity : String}

/-! ### Matchers that are ready -/

/-- A matcher that can test any value: it has the operands its strategy compares with, the single
one if there is to be one, and the pattern if that is what it compares with. -/
structure Matcher.Ready (m : Matcher) : Prop where
  takes : m.strategy.Takes m.operands
  single : m.strategy.operandCount? = some 1 → m.operands = [m.operand]
  pattern : ∀ i n, m.strategy = .pattern i n → ∃ pieces, m.pattern? = some ⟨pieces, i⟩

lemma Matcher.ready_of_make {s : Strategy} {vs : List Value} {m : Matcher} (htakes : s.Takes vs)
    (hm : make s vs = .ok m) : m.Ready := by
  obtain ⟨m', hm', rfl, rfl, hpattern⟩ := make_of_takes htakes
  obtain rfl := Except.ok.inj (hm'.symm.trans hm)
  refine ⟨htakes, fun hs => ?_, fun i n hs => ?_⟩
  · obtain ⟨v, hv, -⟩ := htakes.single hs
    simp [operand, hv]
  · obtain ⟨t, ht, -⟩ := (hs ▸ htakes).readable
    obtain ⟨pieces, -, hpieces⟩ := hpattern i n t hs ht
    exact ⟨pieces, hpieces⟩

/-- The matchers of a filter, from left to right. -/
def Filter.matchers : Filter → List Matcher
  | test _ matcher => [matcher]
  | all children => children.flatMap matchers
  | any children => children.flatMap matchers

/-- A prepared condition has a matcher that is ready, and its expression has no other. -/
lemma Condition.Prepared.exists_ready {c : Condition} (h : c.Prepared r entity) :
    ∃ m b, c.matcher = .ok m ∧ m.Ready ∧ BooleanExpression.ofCondition c = .ok b ∧
      b.matchers = [m] := by
  obtain ⟨m, b, hm, hs, -, hb, hmatchers, -⟩ := exists_test h
  have hmake : Matcher.make m.strategy c.operands = .ok m := by
    simpa [matcher, Strategy.require, hs] using hm
  exact ⟨m, b, hm, Matcher.ready_of_make (takes_of_check hs h.unary h.checked) hmake, hb,
    hmatchers⟩

/-! ### Trees of conditions -/

namespace Predicate

/-- A predicate is compiled to a filter and to an expression, and both are made of the matchers of
its conditions. -/
structure Compiles (p : Predicate Condition) (f : Filter) (b : BooleanExpression) : Prop where
  filter : Filter.compile p = .ok f
  expression : BooleanExpression.ofPredicate p = .ok b
  matchers : p.conditions.map Condition.matcher = f.matchers.map .ok
  same : b.matchers = f.matchers

lemma exists_compileAll {ps : List (Predicate Condition)} (hps : ∀ p ∈ ps, ∃ f b, p.Compiles f b) :
    ∃ fs bs, Filter.compileAll ps = .ok fs ∧ BooleanExpression.ofPredicates ps = .ok bs ∧
      (ps.flatMap conditions).map Condition.matcher = (fs.flatMap Filter.matchers).map .ok ∧
      bs.flatMap BooleanExpression.matchers = fs.flatMap Filter.matchers := by
  induction ps with
  | nil => exact ⟨[], [], rfl, rfl, rfl, rfl⟩
  | cons p ps ih =>
    obtain ⟨f, b, hf, hb, hmatchers, hsame⟩ := hps p (by simp)
    obtain ⟨fs, bs, hfs, hbs, hall, hsames⟩ := ih fun p' hp' => hps p' (by simp [hp'])
    refine ⟨f :: fs, b :: bs, ?_, ?_, ?_, ?_⟩
    · simp [Filter.compileAll, hf, hfs, Except.map]
    · simp [BooleanExpression.ofPredicates, hb, hbs, Except.map]
    · simp [hmatchers, hall]
    · simp [hsame, hsames]

theorem exists_compiles {p : Predicate Condition}
    (hp : ∀ c ∈ p.conditions, ∃ m b, c.matcher = .ok m ∧
      BooleanExpression.ofCondition c = .ok b ∧ b.matchers = [m]) :
    ∃ f b, p.Compiles f b := by
  induction p using Predicate.induct with
  | cond c =>
    obtain ⟨m, b, hm, hb, hmatchers⟩ := hp c (by simp)
    refine ⟨.test c.property m, b, ?_, ?_, ?_, ?_⟩
    · simp [Filter.compile, hm]
    · rw [BooleanExpression.ofPredicate, hb]
    · simp [Filter.matchers, hm]
    · rw [Filter.matchers, hmatchers]
  | and ps ih =>
    obtain ⟨fs, bs, hfs, hbs, hall, hsame⟩ := exists_compileAll fun p h =>
      ih p h fun c hc => hp c (by simpa using ⟨p, h, hc⟩)
    refine ⟨.all fs, .and bs, ?_, ?_, ?_, ?_⟩
    · simp [Filter.compile, hfs, Except.map]
    · simp [BooleanExpression.ofPredicate, hbs, Except.map]
    · rw [conditions_and, Filter.matchers, hall]
    · rw [BooleanExpression.matchers, Filter.matchers, hsame]
  | or ps ih =>
    obtain ⟨fs, bs, hfs, hbs, hall, hsame⟩ := exists_compileAll fun p h =>
      ih p h fun c hc => hp c (by simpa using ⟨p, h, hc⟩)
    refine ⟨.any fs, .or bs, ?_, ?_, ?_, ?_⟩
    · simp [Filter.compile, hfs, Except.map]
    · simp [BooleanExpression.ofPredicate, hbs, Except.map]
    · rw [conditions_or, Filter.matchers, hall]
    · rw [BooleanExpression.matchers, Filter.matchers, hsame]

/-- Prepared conditions make a predicate that compiles, and matchers that are ready. -/
theorem exists_compiles_ready {p : Predicate Condition}
    (hp : ∀ c ∈ p.conditions, c.Prepared r entity) :
    ∃ f b, p.Compiles f b ∧ ∀ m ∈ f.matchers, m.Ready := by
  obtain ⟨f, b, h⟩ := exists_compiles fun c hc => by
    obtain ⟨m, b, hm, -, hb, hmatchers⟩ := (hp c hc).exists_ready
    exact ⟨m, b, hm, hb, hmatchers⟩
  refine ⟨f, b, h, fun m hm => ?_⟩
  have hmem : (.ok m : Except EvaluationError Matcher) ∈ p.conditions.map Condition.matcher :=
    h.matchers ▸ List.mem_map_of_mem hm
  obtain ⟨c, hc, hcm⟩ := List.mem_map.mp hmem
  obtain ⟨m', -, hm', hready, -⟩ := (hp c hc).exists_ready
  obtain rfl := Except.ok.inj (hcm.symm.trans hm')
  exact hready

end Predicate

/-! ### Queries -/

lemma PreparedQuery.exists_toExpression {p : PreparedQuery}
    (h : ∀ t, p.predicate = some t → ∃ b, BooleanExpression.ofPredicate t = .ok b) :
    ∃ b, p.toExpression = .ok (b, p.orders.map .ofOrder) := by
  obtain ⟨_ | t, orders⟩ := p
  · exact ⟨none, rfl⟩
  · obtain ⟨b, hb⟩ := h t rfl
    exact ⟨some b, by simp [toExpression, hb, evaluated, Except.map]⟩

/-- An executor runs a query: it yields all instances and every page of them. -/
def Executor.Runs {ρ : Type} (e : Executor ρ) (p : PreparedQuery) : Prop :=
  (∃ xs, e.findAll p = .ok xs) ∧ ∀ request, ∃ page, e.findPage p request = .ok page

lemma Executor.runs_slicing {ρ : Type} {find : PreparedQuery → Except QueryError (List ρ)}
    {p : PreparedQuery} {xs : List ρ} (h : (slicing find).findAll p = .ok xs) :
    (slicing find).Runs p := by
  refine ⟨⟨xs, h⟩, fun request => ⟨.slice xs request, ?_⟩⟩
  have hfind : find p = .ok xs := h
  simp [slicing, hfind, Except.map]

/-- **Prepared queries can be run** in memory. All their conditions have matchers, which are ready,
and both the filter and the expression of the predicate are made of these. So the executor over a
list of instances, the one that evaluates expressions and the one a memory is bound to find the
instances and the pages without an error, whatever the instances are. -/
theorem RawQuery.runs_of_prepare {q : RawQuery} {p : PreparedQuery}
    (h : q.prepare r context entity = .ok p) :
    (∀ t, p.predicate = some t → ∃ f b, t.Compiles f b ∧ ∀ m ∈ f.matchers, m.Ready) ∧
      (∃ b, p.toExpression = .ok (b, p.orders.map .ofOrder)) ∧
      ∀ {ι : Type} [Instance ι] (m : Memory ι), (Executor.ofCollection m.items).Runs p ∧
        (Executor.ofPredicates (Memory.expressions m.items)).Runs p ∧
        ∃ binding, EntityBinding.bind entity r m.repository = .ok binding ∧
          binding.executor.Runs p := by
  have hprepared : ∀ t, p.predicate = some t → ∀ c ∈ t.conditions, c.Prepared r entity :=
    fun t ht => prepared_of_prepare h ht
  have hcompiles : ∀ t, p.predicate = some t → ∃ f b, t.Compiles f b ∧ ∀ m ∈ f.matchers, m.Ready :=
    fun t ht => Predicate.exists_compiles_ready (hprepared t ht)
  refine ⟨hcompiles, PreparedQuery.exists_toExpression fun t ht => ?_, fun m => ?_⟩
  · obtain ⟨f, b, hb, -⟩ := hcompiles t ht
    exact ⟨b, hb.expression⟩
  · have hcollection : (Executor.ofCollection m.items).Runs p := by
      obtain ⟨xs, hxs, -⟩ := Executor.exists_findAll_ofCollection m.items fun t ht c hc => by
        obtain ⟨m, -, hm, -⟩ := (hprepared t ht c hc).exists_ready
        exact ⟨m, hm⟩
      exact Executor.runs_slicing hxs
    have hpredicates : (Executor.ofPredicates (Memory.expressions m.items)).Runs p := by
      obtain ⟨xs, hxs, -⟩ := Executor.exists_findAll_ofPredicates m.items fun t ht c hc => by
        obtain ⟨-, b, -, -, hb, -⟩ := (hprepared t ht c hc).exists_ready
        exact ⟨b, hb⟩
      exact Executor.runs_slicing hxs
    refine ⟨hcollection, hpredicates, ?_⟩
    -- the memory is bound to one of the two
    obtain ⟨items, _ | _⟩ := m
    · exact ⟨_, rfl, hcollection⟩
    · exact ⟨_, rfl, hpredicates⟩

namespace Staff

/-- The query for companies with a representative whose boss has a name with an A in front. -/
def bossNamed : RawQuery :=
  .of (.cond ⟨"representatives[].boss.name", .like, some (.string "A%")⟩)

lemma prepare_bossNamed : bossNamed.prepare (registry none) Staff.context "Company" =
    .ok (.of (.cond ⟨bossName, .like, [.text "A%"]⟩)) := by
  cbv

end Staff

open Staff in
/-- The pattern is read and the companies are found, in either way. -/
theorem runs_of_prepare_bossNamed :
    bossNamed.prepare (registry none) Staff.context "Company" =
        .ok (.of (.cond ⟨bossName, .like, [.text "A%"]⟩)) ∧
      (∃ f b, Predicate.Compiles (.cond ⟨bossName, .like, [.text "A%"]⟩) f b ∧
        ∀ m ∈ f.matchers, m.Ready) ∧
      (Executor.ofCollection [one, two]).Runs (.of (.cond ⟨bossName, .like, [.text "A%"]⟩)) ∧
      (Executor.ofPredicates (Memory.expressions [one, two])).Runs
        (.of (.cond ⟨bossName, .like, [.text "A%"]⟩)) := by
  obtain ⟨hcompiles, -, hruns⟩ := RawQuery.runs_of_prepare prepare_bossNamed
  obtain ⟨hcollection, hpredicates, -⟩ := hruns (Memory.mk [one, two] true)
  exact ⟨prepare_bossNamed, hcompiles _ rfl, hcollection, hpredicates⟩

end EntityQuery
