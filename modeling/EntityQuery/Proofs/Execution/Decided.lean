import EntityQuery.Proofs.Instance.Fits
import EntityQuery.Proofs.Preparation.Checked

/-!
# What is decided about an instance

A prepared condition is compiled for a list of instances and for expressions around the same
matcher. Both are then read through the ends of the condition's path: the filter tests the values of
the ends that are there, the expression also tests null for an end that is missing.
-/

namespace EntityQuery

open Instance

variable {ι : Type} [Instance ι] {r : Registry} {entity : String}

/-! ### Conditions -/

namespace Condition

/-- The ends of a condition's path. -/
def ends (i : ι) (c : Condition) : List (Option ι) :=
  Instance.ends (some i) c.property.parents

/-- What a list of instances is searched by: the values a path reaches. -/
def found (i : ι) (c : Condition) : Bool :=
  match c.matcher with
  | .ok m => (valuesAt i c.property).any m.accepts
  | .error _ => false

/-- What an expression says about an instance. -/
def stated (i : ι) (c : Condition) : Bool :=
  match BooleanExpression.ofCondition c with
  | .ok b => b.evaluate i
  | .error _ => false

end Condition

namespace PropertyRef

/-- The instance at the end of single-valued associations. -/
def follow (o : Option ι) (names : List String) : Option ι :=
  names.foldl next o

lemma follow_none (names : List String) : follow (none : Option ι) names = none := by
  induction names with
  | nil => rfl
  | cons name names ih => exact ih

lemma follow_cons (i : ι) (name : String) (names : List String) :
    follow (some i) (name :: names) =
      match Instance.related i name with
      | [] => none
      | j :: _ => follow (some j) names := by
  rw [follow, List.foldl_cons]
  cases h : Instance.related i name with
  | nil =>
    rw [next, Option.bind_some, h]
    exact follow_none names
  | cons j js => simp [next, h, follow]

lemma valueAt_append (i : ι) (names : List String) (last : String) :
    valueAt i (names ++ [last]) = read (follow (some i) names) last := by
  induction names generalizing i with
  | nil => rfl
  | cons name names ih =>
    rw [List.cons_append, valueAt, follow_cons]
    · cases h : Instance.related i name with
      | nil => rfl
      | cons j js => exact ih j
    · simp

lemma elementsAt_append (i : ι) (names : List String) (last : String) :
    elementsAt i (names ++ [last]) =
      (follow (some i) names).toList.flatMap fun j => related j last := by
  induction names generalizing i with
  | nil => simp [elementsAt, follow]
  | cons name names ih =>
    rw [List.cons_append, elementsAt, follow_cons]
    · cases h : Instance.related i name with
      | nil => rfl
      | cons j js => exact ih j
    · simp

end PropertyRef

namespace BooleanExpression

open PropertyRef

variable {s : Strategy} {vs : List Value} {leaf : PathSegment} {m : Matcher}

/-- The matchers of an expression, from left to right. -/
def matchers : BooleanExpression → List Matcher
  | test _ matcher => [matcher]
  | and children => children.flatMap matchers
  | or children => children.flatMap matchers
  | any _ condition => condition.matchers

/-- **Following a path** makes the test of its last property at every end, and no other test. -/
lemma exists_along
    (hleaf : ∀ scope, ofLeaf scope leaf s vs = .ok (.test (scope.property leaf.name) m))
    (scope : Scope) (hops : List PathSegment) :
    ∃ b, along leaf s vs scope hops = .ok b ∧ b.matchers = [m] ∧
      ∀ {ι : Type} [Instance ι] (i : ι), b.evaluate i =
        (Instance.ends (follow (some i) scope.steps) hops).any fun o =>
          m.accepts (read o leaf.name) := by
  induction hops generalizing scope with
  | nil =>
    refine ⟨_, by rw [along]; exact hleaf scope, by rw [matchers], fun i => ?_⟩
    rw [evaluate, PropertyRef.value, Scope.property, valueAt_append, Instance.ends, List.any_cons,
      List.any_nil, Bool.or_false]
  | cons hop rest ih =>
    rw [along]
    cases hi : hop.indexed with
    | true =>
      -- the rest of the path is about one element, in a scope of its own
      obtain ⟨b, hb, hmatchers, heval⟩ := ih Scope.root
      refine ⟨.any (scope.property hop.name) b, ?_, by rw [matchers, hmatchers], fun i => ?_⟩
      · simp [CollectionHandle.any, Scope.collection, hb, Except.map]
      · rw [evaluate, PropertyRef.elements, Scope.property, elementsAt_append, Instance.ends, hi,
          if_pos rfl, List.any_flatMap (l := List.flatMap _ _)]
        exact congrArg (List.any _) (funext fun j => heval j)
    | false =>
      obtain ⟨b, hb, hmatchers, heval⟩ := ih (scope.get hop.name)
      refine ⟨b, by simpa using hb, hmatchers, fun i => ?_⟩
      rw [heval i, Instance.ends, hi, if_neg (by decide), Scope.get, follow, List.foldl_append]
      rfl

end BooleanExpression

namespace Condition

variable {c : Condition} {m : Matcher}

/-- A prepared condition has a matcher, and its expression applies this one alone, at the ends of
the path. -/
lemma exists_test (h : c.Prepared r entity) :
    ∃ m b, c.matcher = .ok m ∧ Strategy.of? c.operator c.property.kind = some m.strategy ∧
      m.operands = c.operands ∧ BooleanExpression.ofCondition c = .ok b ∧ b.matchers = [m] ∧
      ∀ {ι : Type} [Instance ι] (i : ι), b.evaluate i =
        (c.ends i).any fun o => m.accepts (read o c.property.leaf.name) := by
  obtain ⟨s, hs⟩ := exists_strategy_of_check h.checked
  have htakes := takes_of_check hs h.unary h.checked
  obtain ⟨m, hm, rfl, hops, -⟩ := Matcher.make_of_takes htakes
  have hleaf : ∀ scope, BooleanExpression.ofLeaf scope c.property.leaf m.strategy c.operands =
      .ok (.test (scope.property c.property.leaf.name) m) := by
    intro scope
    rw [BooleanExpression.ofLeaf_of_takes hs htakes, PropertyRef.testBy, hm]
    rfl
  obtain ⟨b, hb, hmatchers, heval⟩ :=
    BooleanExpression.exists_along hleaf .root c.property.parents
  refine ⟨m, b, ?_, hs, hops, ?_, hmatchers, heval⟩
  · simp [matcher, Strategy.require, hs, hm]
  · simp [BooleanExpression.ofCondition, Strategy.require, hs, hb]

lemma exists_matcher (h : c.Prepared r entity) :
    ∃ m b, c.matcher = .ok m ∧ Strategy.of? c.operator c.property.kind = some m.strategy ∧
      m.operands = c.operands ∧ BooleanExpression.ofCondition c = .ok b ∧
      ∀ i : ι, b.evaluate i = (c.ends i).any fun o => m.accepts (read o c.property.leaf.name) := by
  obtain ⟨m, b, hm, hs, hops, hb, -, heval⟩ := exists_test h
  exact ⟨m, b, hm, hs, hops, hb, heval⟩

lemma found_eq (hm : c.matcher = .ok m) (i : ι) :
    found i c = (valuesAt i c.property).any m.accepts := by
  rw [found, hm]

/-- The values that a path reaches are those of the ends that are there; a path through single
values has one end, and null is its value if it is missing. -/
lemma valuesAt_eq {i : ι} (hfits : r.Fits entity i) (hadm : r.Admits entity c.property) :
    valuesAt i c.property =
      if c.property.isMultiValued then
        (c.ends i).reduceOption.map fun j => valueOf j c.property.leaf.name
      else (c.ends i).map fun o => read o c.property.leaf.name := by
  obtain ⟨Of, htypes, hof⟩ := hfits
  have hreach := reach_eq_ends (o := some i) htypes hadm.parents (by simpa using hof)
    c.property.leaf.name
  have hnames : c.property.names =
      c.property.parents.map PathSegment.name ++ [c.property.leaf.name] := by
    simp [PropertyPath.names, PropertyPath.segments]
  simp only [Option.toList_some, List.flatMap_cons, List.flatMap_nil, List.append_nil,
    ← hnames] at hreach
  unfold valuesAt
  cases hmulti : c.property.isMultiValued with
  | true => simpa [ends] using hreach
  | false =>
    rw [PropertyPath.isMultiValued] at hmulti
    rw [hreach, ends, ends_of_not_indexed hmulti]
    generalize c.property.parents.foldl _ (some i) = o
    cases o <;> rfl

end Condition

end EntityQuery
