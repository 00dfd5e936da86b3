import EntityQuery.Proofs.Execution.Executable
import EntityQuery.Proofs.Preparation.Accepted

/-!
# Operands that nothing uses

A prepared query that was made by hand may give operands to a test for absence. The check of
preparation does not look at them, and neither does an expression, but a matcher refuses them. This
is the only way for an accepted query to fail when it is run.
-/

namespace EntityQuery

variable {r : Registry} {context : QueryContext} {entity : String}

/-! ### Conditions -/

namespace Condition

variable {c : Condition}

/-- The operands of a unary operator. -/
def idle (c : Condition) : List Value :=
  if c.operator.isUnary then c.operands else []

/-- The condition without its idle operands. -/
def bare (c : Condition) : Condition :=
  if c.operator.isUnary then c.replace c.operator [] else c

lemma bare_of_idle (h : c.idle = []) : c.bare = c := by
  unfold idle at h
  unfold bare
  split
  · rename_i hu
    rw [if_pos hu] at h
    rw [replace, ← h]
  · rfl

@[simp] lemma bare_property (c : Condition) : c.bare.property = c.property := by
  unfold bare
  split <;> rfl

@[simp] lemma bare_operator (c : Condition) : c.bare.operator = c.operator := by
  unfold bare
  split <;> rfl

lemma operands_bare (hu : c.operator.isUnary = true) : c.bare.operands = [] := by
  rw [bare, if_pos hu, replace]

/-- The strategies of unary operators are the tests for absence. -/
lemma testsAbsence_of_isUnary {operator : Operator} {kind : PropertyKind} {s : Strategy}
    (h : Strategy.of? operator kind = some s) (hu : operator.isUnary = true) :
    s.testsAbsence = true := by
  have hcount := (Strategy.operandCount?_of h).1.mp hu
  cases s <;> first | rfl | cases hcount

/-- The check does not look at idle operands. -/
lemma check_bare (c : Condition) : c.bare.check = c.check := by
  unfold bare
  split
  · rename_i hu
    simp only [check, replace]
    cases hs : Strategy.of? c.operator c.property.kind with
    | none => rfl
    | some s =>
      have habsence := testsAbsence_of_isUnary hs hu
      cases s <;> first | rfl | cases habsence
  · rfl

/-- Without its idle operands, an accepted condition is as preparation would have left it. -/
lemma Accepted.bare (h : c.Accepted r entity) : c.bare.Prepared r entity where
  admitted := by
    rw [bare_property]
    exact h.admitted
  unary hu := operands_bare (by simpa using hu)
  checked := by
    rw [check_bare]
    exact h.checked

end Condition

namespace BooleanExpression

variable {s : Strategy} {leaf : PathSegment}

/-- A test for absence is made without operands, whatever it is given. -/
lemma ofLeaf_of_testsAbsence (h : s.testsAbsence = true) (scope : Scope) (vs : List Value) :
    ofLeaf scope leaf s vs = ofLeaf scope leaf s [] := by
  unfold ofLeaf
  cases s <;> first | (cases leaf.type.kind <;> rename_i n <;> cases n <;> rfl) | cases h

lemma along_of_testsAbsence (h : s.testsAbsence = true) (scope : Scope) (vs : List Value)
    (hops : List PathSegment) : along leaf s vs scope hops = along leaf s [] scope hops := by
  induction hops generalizing scope with
  | nil => exact ofLeaf_of_testsAbsence h scope vs
  | cons hop rest ih => simp only [along, ih]

/-- No expression has idle operands. -/
lemma ofCondition_bare (c : Condition) : ofCondition c.bare = ofCondition c := by
  unfold Condition.bare
  split
  · rename_i hu
    unfold ofCondition Strategy.require Condition.replace
    cases hs : Strategy.of? c.operator c.property.kind with
    | none => rfl
    | some s => exact (along_of_testsAbsence (Condition.testsAbsence_of_isUnary hs hu) _ _ _).symm
  · rfl

end BooleanExpression

namespace Condition

variable {c : Condition}

/-- An accepted condition always has an expression. -/
lemma Accepted.exists_ofCondition (h : c.Accepted r entity) :
    ∃ b, BooleanExpression.ofCondition c = .ok b := by
  obtain ⟨-, b, -, -, -, hb, -⟩ := exists_test h.bare
  exact ⟨b, BooleanExpression.ofCondition_bare c ▸ hb⟩

/-- An accepted condition without idle operands has a matcher. -/
lemma Accepted.exists_matcher (h : c.Accepted r entity) (hidle : c.idle = []) :
    ∃ m, c.matcher = .ok m := by
  obtain ⟨m, -, hm, -⟩ := exists_test h.bare
  exact ⟨m, bare_of_idle hidle ▸ hm⟩

/-- A matcher refuses idle operands. -/
lemma Accepted.matcher_eq_error (h : c.Accepted r entity) (hidle : c.idle ≠ []) :
    ∃ s, Strategy.of? c.operator c.property.kind = some s ∧
      c.matcher = .error (.operandCount s 0 c.idle.length) := by
  obtain ⟨s, hs⟩ := exists_strategy_of_check h.checked
  have hu : c.operator.isUnary = true := by
    by_contra hu
    simp [idle, hu] at hidle
  have hcount := (Strategy.operandCount?_of hs).1.mp hu
  have hsome : c.operands ≠ [] := by simpa [idle, hu] using hidle
  refine ⟨s, hs, ?_⟩
  simp [matcher, Strategy.require, hs, Matcher.make, hcount, hsome, idle, hu]

end Condition

/-! ### Filters -/

namespace Filter

lemma map_compileAll {ps : List (Predicate Condition)}
    (hps : ∀ p ∈ ps, (compile p).map matchers = p.conditions.mapM Condition.matcher) :
    (compileAll ps).map (fun fs => fs.flatMap matchers) =
      (ps.flatMap Predicate.conditions).mapM Condition.matcher := by
  induction ps with
  | nil => rfl
  | cons p ps ih =>
    have hrest := ih fun p' hp' => hps p' (by simp [hp'])
    rw [List.flatMap_cons, List.mapM_append, ← hrest, ← hps p (by simp), compileAll]
    cases compile p with
    | error e => rfl
    | ok f => cases compileAll ps <;> rfl

/-- A filter is made of the matchers of the conditions, from left to right, and the first that
cannot be made is the reason why there is none. -/
theorem map_compile (p : Predicate Condition) :
    (compile p).map matchers = p.conditions.mapM Condition.matcher := by
  induction p using Predicate.induct with
  | cond c =>
    rw [compile, Predicate.conditions_cond, List.mapM_cons, List.mapM_nil]
    cases c.matcher with
    | error e => rfl
    | ok m => simp [Except.map, matchers]
  | and ps ih =>
    rw [Predicate.conditions_and, ← map_compileAll ih, compile]
    cases compileAll ps <;> simp [Except.map, matchers]
  | or ps ih =>
    rw [Predicate.conditions_or, ← map_compileAll ih, compile]
    cases compileAll ps <;> simp [Except.map, matchers]

/-- The first element without a result is why a list has none. -/
lemma mapM_eq_error {α β ε : Type} {f : α → Except ε β} {fails : α → Bool} {xs : List α} {x : α}
    {e : ε} (hx : xs.find? fails = some x) (hfx : f x = .error e)
    (hok : ∀ y ∈ xs, fails y = false → ∃ z, f y = .ok z) : xs.mapM f = .error e := by
  induction xs with
  | nil => cases hx
  | cons y ys ih =>
    rw [List.mapM_cons]
    cases hy : fails y with
    | true =>
      rw [List.find?_cons_of_pos hy, Option.some.injEq] at hx
      rw [hx, hfx]
      rfl
    | false =>
      rw [List.find?_cons_of_neg (by simp [hy])] at hx
      obtain ⟨z, hz⟩ := hok y (by simp) hy
      have hys := ih hx fun y' hy' => hok y' (by simp [hy'])
      rw [hz, hys]
      rfl

end Filter

/-! ### Queries -/

namespace PreparedQuery

/-- The first condition of a query that has idle operands. -/
def firstIdle? (p : PreparedQuery) : Option Condition :=
  p.predicate.bind fun t => t.conditions.find? fun c => !c.idle.isEmpty

variable {p : PreparedQuery}

lemma firstIdle?_eq_none : p.firstIdle? = none ↔
    ∀ t ∈ p.predicate, ∀ c ∈ t.conditions, c.idle = [] := by
  obtain ⟨_ | t, orders⟩ := p <;> simp [firstIdle?]

/-- An accepted query has no idle operands exactly if all its conditions have matchers. -/
lemma firstIdle?_eq_none_iff (hp : ∀ t ∈ p.predicate, ∀ c ∈ t.conditions, c.Accepted r entity) :
    p.firstIdle? = none ↔ ∀ t ∈ p.predicate, ∀ c ∈ t.conditions, ∃ m, c.matcher = .ok m := by
  rw [firstIdle?_eq_none]
  refine forall₄_congr fun t ht c hc => ⟨(hp t ht c hc).exists_matcher, fun ⟨m, hm⟩ => ?_⟩
  by_contra hidle
  obtain ⟨s, -, herror⟩ := (hp t ht c hc).matcher_eq_error hidle
  cases hm.symm.trans herror

/-- The search of a list fails on the first condition with idle operands, before it looks at an
instance. -/
lemma findAll_eq_error {ι : Type} [Instance ι] (items : List ι)
    (hp : ∀ t ∈ p.predicate, ∀ c ∈ t.conditions, c.Accepted r entity) {c : Condition}
    (hc : p.firstIdle? = some c) :
    ∃ s, Strategy.of? c.operator c.property.kind = some s ∧
      c.matcher = .error (.operandCount s 0 c.idle.length) ∧
      (Executor.ofCollection items).findAll p =
        .error (.evaluation (.operandCount s 0 c.idle.length)) := by
  obtain ⟨_ | t, orders⟩ := p
  · cases hc
  · have hfind : t.conditions.find? (fun c => !c.idle.isEmpty) = some c := hc
    have hmem := List.mem_of_find?_eq_some hfind
    have hidle : c.idle ≠ [] := by simpa using List.find?_some hfind
    obtain ⟨s, hs, herror⟩ := (hp t rfl c hmem).matcher_eq_error hidle
    have hconditions : t.conditions.mapM Condition.matcher =
        .error (.operandCount s 0 c.idle.length) :=
      Filter.mapM_eq_error hfind herror fun d hd hnone =>
        (hp t rfl d hd).exists_matcher (by simpa using hnone)
    have hcompile : Filter.compile t = .error (.operandCount s 0 c.idle.length) := by
      have hmap := (Filter.map_compile t).trans hconditions
      cases hf : Filter.compile t with
      | error e => simpa [hf, Except.map] using hmap
      | ok f => simp [hf, Except.map] at hmap
    refine ⟨s, hs, herror, ?_⟩
    simp [Executor.ofCollection, Executor.slicing, Collection.findAll, hcompile]

/-- **What accepting a prepared query guarantees.** Whoever made the query, its expression can be
built and evaluated on all instances. A list of instances can be searched exactly if no condition
has idle operands, which is also when all conditions have matchers; otherwise every search fails,
with the error of the first condition that has some. -/
theorem runs_iff_of_prepare {q p : PreparedQuery}
    (h : r.prepare context entity (.prepared q) = .ok p) :
    (∃ b, p.toExpression = .ok (b, p.orders.map .ofOrder)) ∧
      (p.firstIdle? = none ↔ ∀ t ∈ p.predicate, ∀ c ∈ t.conditions, ∃ m, c.matcher = .ok m) ∧
      ∀ {ι : Type} [Instance ι] (items : List ι),
        (Executor.ofPredicates (Memory.expressions items)).Runs p ∧
          ((Executor.ofCollection items).Runs p ↔ p.firstIdle? = none) ∧
          ∀ c, p.firstIdle? = some c → ∃ s, Strategy.of? c.operator c.property.kind = some s ∧
            c.matcher = .error (.operandCount s 0 c.idle.length) ∧
            (Executor.ofCollection items).findAll p =
              .error (.evaluation (.operandCount s 0 c.idle.length)) := by
  obtain ⟨haccepted, -⟩ := Registry.accepted_of_prepare h
  have hexpressions : ∀ t ∈ p.predicate, ∀ c ∈ t.conditions,
      ∃ b, BooleanExpression.ofCondition c = .ok b :=
    fun t ht c hc => (haccepted t ht c hc).exists_ofCondition
  have hmatchers := firstIdle?_eq_none_iff haccepted
  refine ⟨exists_toExpression fun t ht => ?_, hmatchers, fun {ι} _ items => ⟨?_, ⟨?_, ?_⟩, ?_⟩⟩
  · obtain ⟨b, hb, -⟩ := BooleanExpression.exists_ofPredicate (ι := Staff) (hexpressions t ht)
    exact ⟨b, hb⟩
  · obtain ⟨xs, hxs, -⟩ := Executor.exists_findAll_ofPredicates items hexpressions
    exact Executor.runs_slicing hxs
  · rintro ⟨⟨xs, hxs⟩, -⟩
    by_contra hsome
    obtain ⟨c, hc⟩ := Option.ne_none_iff_exists'.mp hsome
    obtain ⟨s, -, -, herror⟩ := findAll_eq_error items haccepted hc
    cases hxs.symm.trans herror
  · intro hnone
    obtain ⟨xs, hxs, -⟩ := Executor.exists_findAll_ofCollection items (hmatchers.mp hnone)
    exact Executor.runs_slicing hxs
  · exact fun c hc => findAll_eq_error items haccepted hc

end PreparedQuery

namespace Staff

/-- The persons without a name, asked for with an operand that the operator does not take. -/
def nameless (idle : List Value) : PreparedQuery :=
  .of (.cond ⟨⟨[], ⟨"name", "Person", .text, true, false⟩⟩, .isNull, idle⟩)

lemma prepare_nameless (idle : List Value) :
    (registry none).prepare Staff.context "Person" (.prepared (nameless idle)) =
      .ok (nameless idle) := by
  cbv

end Staff

open Staff in
/-- The query is accepted with the operand and without it; with the operand only its expression can
be evaluated. -/
theorem runs_iff_of_prepare_nameless :
    (∀ idle, (registry none).prepare Staff.context "Person" (.prepared (nameless idle)) =
        .ok (nameless idle)) ∧
      (Executor.ofPredicates (Memory.expressions [ann])).Runs (nameless [.text "x"]) ∧
      ¬ (Executor.ofCollection [ann]).Runs (nameless [.text "x"]) ∧
      (Executor.ofCollection [ann]).Runs (nameless []) := by
  obtain ⟨-, -, hruns⟩ := PreparedQuery.runs_iff_of_prepare (prepare_nameless [.text "x"])
  obtain ⟨-, -, hruns'⟩ := PreparedQuery.runs_iff_of_prepare (prepare_nameless [])
  obtain ⟨hpredicates, hcollection, -⟩ := hruns [ann]
  refine ⟨prepare_nameless, hpredicates, fun h => ?_, (hruns' [ann]).2.1.mpr rfl⟩
  cases hcollection.mp h

open Staff in
/-- An accepted query that the list cannot be searched by. -/
theorem exists_accepted_not_run :
    (registry none).prepare Staff.context "Person" (.prepared (nameless [.text "x"])) =
        .ok (nameless [.text "x"]) ∧
      (Executor.ofPredicates (Memory.expressions [ann])).findAll (nameless [.text "x"]) = .ok [] ∧
      (Executor.ofCollection [ann]).findAll (nameless [.text "x"]) =
        .error (.evaluation (.operandCount (.nullness false) 0 1)) :=
  ⟨prepare_nameless _, rfl, rfl⟩

end EntityQuery
