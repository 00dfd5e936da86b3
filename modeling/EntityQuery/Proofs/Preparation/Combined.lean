import EntityQuery.Proofs.Execution.Executable
import EntityQuery.Proofs.Predicate.Trim
import EntityQuery.Proofs.Preparation.Preserved

/-!
# Preparing combined queries

Queries are combined by joining their predicates, before they are prepared or after. Whatever
junctions a written query has, preparation leaves trim ones, and on these joining is associative
enough for the two ways to end in the same tree. The combination accepts an instance as the
connective says.
-/

namespace EntityQuery

variable {r : Registry} {context : QueryContext} {entity : String}

/-! ### Settling -/

namespace Stage

/-- What a condition is settled to is trim, whatever the stages are. -/
lemma trim_of_settle {stages : List Stage} {check : Condition → Except PrepareError Unit}
    {depth start : Nat} {c : Condition} {q : Predicate Condition}
    (h : settle stages check depth start c = .ok q) : q.Trim := by
  induction depth generalizing start c q with
  | zero => simp [settle] at h
  | succ depth ih =>
    rcases settle_eq_ok h with ⟨-, -, rfl⟩ | ⟨n, p, -, hp⟩
    · exact .cond c
    · exact Predicate.trim_mapM hp fun d _ a ha => ih ha

end Stage

namespace Registry

lemma trim_of_prepareCondition {e : EntityDef} {c : RawCondition} {q : Predicate Condition}
    (h : r.prepareCondition context e c = .ok q) : q.Trim := by
  obtain ⟨path, vs, -, -, hsettle⟩ := exists_of_prepareCondition h
  exact Stage.trim_of_settle hsettle

lemma isEmpty_of_prepareOrders {e : EntityDef} {os : List (Order String)}
    {os' : List (Order PropertyPath)} (h : r.prepareOrders e os = .ok os') :
    os'.isEmpty = os.isEmpty := by
  cases os with
  | nil =>
    obtain rfl : [] = os' := Except.ok.inj h
    rfl
  | cons o os =>
    rw [prepareOrders] at h
    split at h
    · cases h
    · split at h
      · cases h
      · obtain ⟨rest, -, rfl⟩ := exists_of_map_eq_ok h
        rfl

end Registry

/-! ### Preparing -/

namespace RawQuery

variable {q q₁ q₂ : RawQuery} {p p₁ p₂ : PreparedQuery} {e : EntityDef}

/-- A query is prepared part by part. -/
lemma prepare_eq_ok (he : r.entity? entity = some e)
    (horders : r.prepareOrders e q.orders = .ok p.orders)
    (hpredicate : q.predicate = none ∧ p.predicate = none ∨ ∃ raw t, q.predicate = some raw ∧
      p.predicate = some t ∧ raw.mapM (r.prepareCondition context e) = .ok t) :
    q.prepare r context entity = .ok p := by
  obtain ⟨predicate, orders⟩ := q
  obtain ⟨predicate', orders'⟩ := p
  rcases hpredicate with ⟨rfl, rfl⟩ | ⟨raw, t, rfl, rfl, hmap⟩
  · simp_all [prepare, Registry.requireEntity, Except.map]
  · simp_all [prepare, Registry.requireEntity, Except.map]

lemma prepareOrders_ordersOf (h₁ : r.prepareOrders e q₁.orders = .ok p₁.orders)
    (h₂ : r.prepareOrders e q₂.orders = .ok p₂.orders) :
    r.prepareOrders e (Query.ordersOf q₁ q₂) = .ok (Query.ordersOf p₁ p₂) := by
  unfold Query.ordersOf
  rw [Registry.isEmpty_of_prepareOrders h₁]
  split
  · exact h₂
  · exact h₁

/-- Two predicates are prepared, and joined before or after. -/
lemma mapM_join_pair {j : Junction} {raw₁ raw₂ : Predicate RawCondition}
    {t₁ t₂ : Predicate Condition} (h₁ : raw₁.mapM (r.prepareCondition context e) = .ok t₁)
    (h₂ : raw₂.mapM (r.prepareCondition context e) = .ok t₂) :
    (Predicate.join j [raw₁, raw₂]).mapM (r.prepareCondition context e) =
      .ok (Predicate.join j [t₁, t₂]) :=
  Predicate.mapM_join (fun _ _ => Registry.trim_of_prepareCondition)
    (Predicate.mapAllM_append_eq_ok (Predicate.mapAllM_singleton_eq_ok h₁)
      (Predicate.mapAllM_singleton_eq_ok h₂))

lemma prepare_and (h₁ : q₁.prepare r context entity = .ok p₁)
    (h₂ : q₂.prepare r context entity = .ok p₂) :
    RawQuery.prepare r context entity (q₁.and q₂) = .ok (p₁.and p₂) := by
  obtain ⟨e, he, horders₁, hpredicate₁⟩ := exists_of_prepare h₁
  obtain ⟨e', he', horders₂, hpredicate₂⟩ := exists_of_prepare h₂
  obtain rfl := Option.some.inj (he.symm.trans he')
  refine prepare_eq_ok he (prepareOrders_ordersOf horders₁ horders₂) ?_
  rcases hpredicate₁ with ⟨hq₁, hp₁⟩ | ⟨raw₁, t₁, hq₁, hp₁, hmap₁⟩ <;>
    rcases hpredicate₂ with ⟨hq₂, hp₂⟩ | ⟨raw₂, t₂, hq₂, hp₂, hmap₂⟩ <;>
    simp only [Query.and, hq₁, hp₁, hq₂, hp₂]
  · exact .inl ⟨trivial, trivial⟩
  · exact .inr ⟨raw₂, t₂, rfl, rfl, hmap₂⟩
  · exact .inr ⟨raw₁, t₁, rfl, rfl, hmap₁⟩
  · exact .inr ⟨_, _, rfl, rfl, mapM_join_pair hmap₁ hmap₂⟩

lemma prepare_or (h₁ : q₁.prepare r context entity = .ok p₁)
    (h₂ : q₂.prepare r context entity = .ok p₂) :
    RawQuery.prepare r context entity (q₁.or q₂) = .ok (p₁.or p₂) := by
  obtain ⟨e, he, horders₁, hpredicate₁⟩ := exists_of_prepare h₁
  obtain ⟨e', he', horders₂, hpredicate₂⟩ := exists_of_prepare h₂
  obtain rfl := Option.some.inj (he.symm.trans he')
  refine prepare_eq_ok he (prepareOrders_ordersOf horders₁ horders₂) ?_
  rcases hpredicate₁ with ⟨hq₁, hp₁⟩ | ⟨raw₁, t₁, hq₁, hp₁, hmap₁⟩ <;>
    rcases hpredicate₂ with ⟨hq₂, hp₂⟩ | ⟨raw₂, t₂, hq₂, hp₂, hmap₂⟩ <;>
    simp only [Query.or, hq₁, hp₁, hq₂, hp₂]
  case inr.inr => exact .inr ⟨_, _, rfl, rfl, mapM_join_pair hmap₁ hmap₂⟩
  all_goals exact .inl ⟨trivial, trivial⟩

end RawQuery

/-! ### Running -/

namespace PreparedQuery

variable {ι : Type} [Instance ι] {p₁ p₂ : PreparedQuery}

/-- What a list of instances is searched by: the filter of the predicate, which accepts everything
if there is none. -/
def accepts (i : ι) (p : PreparedQuery) : Except EvaluationError Bool :=
  match p.predicate with
  | none => .ok true
  | some t => (Filter.compile t).map fun f => f.accepts i

/-- What the expression of the predicate says about an instance. -/
def evaluates (i : ι) (p : PreparedQuery) : Except EvaluationError Bool :=
  match p.predicate with
  | none => .ok true
  | some t => (BooleanExpression.ofPredicate t).map fun b => b.evaluate i

lemma holds_and (test : Condition → Bool) :
    holds test (p₁.and p₂) = (holds test p₁ && holds test p₂) := by
  obtain ⟨_ | t₁, orders₁⟩ := p₁ <;> obtain ⟨_ | t₂, orders₂⟩ := p₂ <;> simp [holds, Query.and]

lemma holds_or (test : Condition → Bool) :
    holds test (p₁.or p₂) = (holds test p₁ || holds test p₂) := by
  obtain ⟨_ | t₁, orders₁⟩ := p₁ <;> obtain ⟨_ | t₂, orders₂⟩ := p₂ <;> simp [holds, Query.or]

/-- Either way of running a prepared query comes to the truth of its predicate. -/
lemma accepts_and_evaluates_of_prepare {q : RawQuery} {p : PreparedQuery}
    (h : q.prepare r context entity = .ok p) (i : ι) :
    p.accepts i = .ok (p.holds (Condition.found i)) ∧
      p.evaluates i = .ok (p.holds (Condition.stated i)) := by
  have hprepared : ∀ t, p.predicate = some t → ∀ c ∈ t.conditions, c.Prepared r entity :=
    fun t => RawQuery.prepared_of_prepare h
  obtain ⟨_ | t, orders⟩ := p
  · exact ⟨rfl, rfl⟩
  · obtain ⟨f, hf, haccepts⟩ := Filter.exists_compile (ι := ι) fun c hc => by
      obtain ⟨m, -, hm, -⟩ := (hprepared t rfl c hc).exists_ready
      exact ⟨m, hm⟩
    obtain ⟨b, hb, hevaluates⟩ := BooleanExpression.exists_ofPredicate (ι := ι) fun c hc => by
      obtain ⟨-, b, -, -, hb, -⟩ := (hprepared t rfl c hc).exists_ready
      exact ⟨b, hb⟩
    simp [accepts, evaluates, hf, hb, Except.map, holds, haccepts, hevaluates]

end PreparedQuery

/-- **Combining commutes with preparing.** Two queries that can be prepared, whatever junctions they
have, can be combined before that or after: the same tree and the same sort clauses come out. The
conjunction accepts an instance if both parts do, and the disjunction if one of them does, in either
way of running them. -/
theorem prepare_combined {q₁ q₂ : RawQuery} {p₁ p₂ : PreparedQuery}
    (h₁ : q₁.prepare r context entity = .ok p₁) (h₂ : q₂.prepare r context entity = .ok p₂) :
    RawQuery.prepare r context entity (q₁.and q₂) = .ok (p₁.and p₂) ∧
      RawQuery.prepare r context entity (q₁.or q₂) = .ok (p₁.or p₂) ∧
      ∀ {ι : Type} [Instance ι] (i : ι),
        (∃ a b, PreparedQuery.accepts i p₁ = .ok a ∧ PreparedQuery.accepts i p₂ = .ok b ∧
          PreparedQuery.accepts i (p₁.and p₂) = .ok (a && b) ∧
          PreparedQuery.accepts i (p₁.or p₂) = .ok (a || b)) ∧
        ∃ a b, PreparedQuery.evaluates i p₁ = .ok a ∧ PreparedQuery.evaluates i p₂ = .ok b ∧
          PreparedQuery.evaluates i (p₁.and p₂) = .ok (a && b) ∧
          PreparedQuery.evaluates i (p₁.or p₂) = .ok (a || b) := by
  have hand := RawQuery.prepare_and h₁ h₂
  have hor := RawQuery.prepare_or h₁ h₂
  refine ⟨hand, hor, fun i => ?_⟩
  obtain ⟨haccepts₁, hevaluates₁⟩ := PreparedQuery.accepts_and_evaluates_of_prepare h₁ i
  obtain ⟨haccepts₂, hevaluates₂⟩ := PreparedQuery.accepts_and_evaluates_of_prepare h₂ i
  obtain ⟨hacceptsAnd, hevaluatesAnd⟩ := PreparedQuery.accepts_and_evaluates_of_prepare hand i
  obtain ⟨hacceptsOr, hevaluatesOr⟩ := PreparedQuery.accepts_and_evaluates_of_prepare hor i
  rw [PreparedQuery.holds_and] at hacceptsAnd hevaluatesAnd
  rw [PreparedQuery.holds_or] at hacceptsOr hevaluatesOr
  exact ⟨⟨_, _, haccepts₁, haccepts₂, hacceptsAnd, hacceptsOr⟩,
    ⟨_, _, hevaluates₁, hevaluates₂, hevaluatesAnd, hevaluatesOr⟩⟩

namespace Staff

/-- Representatives without a boss. A disjunction of nothing stands beside the condition, inside
another conjunction. -/
def bossless : RawQuery :=
  ⟨some (.or [.and [.or []], .and [.cond ⟨"boss", .isNull, none⟩]]), []⟩

/-- Representatives whose boss has a name, by their ids. -/
def bossHasName : RawQuery :=
  ⟨some (.and [.and [], .cond ⟨"boss.name", .isNotNull, none⟩]), [⟨"id", .descending⟩]⟩

/-- The path to the id of a representative. -/
def ownId : PropertyPath :=
  ⟨[], ⟨"id", "Representative", .text, false, false⟩⟩

lemma prepare_bossless : bossless.prepare (registry none) Staff.context "Representative" =
    .ok ⟨some (.cond ⟨boss, .isNull, []⟩), []⟩ := by
  rfl

lemma prepare_bossHasName : bossHasName.prepare (registry none) Staff.context "Representative" =
    .ok ⟨some (.cond ⟨nameOfBoss, .isNotNull, []⟩), [⟨ownId, .descending⟩]⟩ := by
  rfl

end Staff

open Staff in
/-- Nobody has no boss and one with a name; both representatives have one or the other. -/
theorem prepare_combined_representatives :
    ∃ p₁ p₂, bossless.prepare (registry none) Staff.context "Representative" = .ok p₁ ∧
      bossHasName.prepare (registry none) Staff.context "Representative" = .ok p₂ ∧
      RawQuery.prepare (registry none) Staff.context "Representative" (bossless.and bossHasName) =
        .ok (p₁.and p₂) ∧
      RawQuery.prepare (registry none) Staff.context "Representative" (bossless.or bossHasName) =
        .ok (p₁.or p₂) ∧
      ∀ i ∈ [john, joe], PreparedQuery.accepts i (p₁.and p₂) = .ok false ∧
        PreparedQuery.accepts i (p₁.or p₂) = .ok true := by
  obtain ⟨hand, hor, hruns⟩ := prepare_combined prepare_bossless prepare_bossHasName
  refine ⟨_, _, prepare_bossless, prepare_bossHasName, hand, hor, fun i hi => ?_⟩
  obtain ⟨⟨a, b, ha, hb, hboth, heither⟩, -⟩ := hruns i
  rw [hboth, heither]
  simp only [List.mem_cons, List.not_mem_nil, or_false] at hi
  rcases hi with rfl | rfl <;> cases ha <;> cases hb <;> exact ⟨rfl, rfl⟩

end EntityQuery
