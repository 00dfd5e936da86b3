import EntityQuery.Expression.OfPredicate
import EntityQuery.Execution.Collection
import EntityQuery.Proofs.Like.Spelled
import EntityQuery.Proofs.Preparation.Settled

/-!
# Conditions that can be tested

The check of preparation accepts the operands that a strategy takes, and with these a matcher can
be made. The filter and the expression of a condition are then built around one and the same
matcher.
-/

namespace EntityQuery

/-! ### Strategies -/

namespace Strategy

/-- The operator that compares by a strategy. -/
def operator : Strategy → Operator
  | equality n => if n then .ne else .eq
  | ordering operator => operator
  | pattern false n => if n then .notLike else .like
  | pattern true n => if n then .notIlike else .ilike
  | membership n => if n then .notIn else .isIn
  | nullness n => if n then .isNotNull else .isNull
  | emptiness n => if n then .isNotEmpty else .isEmpty
  | containment n => if n then .notContains else .contains

/-- Whether a strategy is for collections. -/
def comparesCollections : Strategy → Bool
  | emptiness _ | containment _ => true
  | _ => false

variable {operator : Operator} {kind : PropertyKind} {s : Strategy}

lemma operator_of_eq_some (h : of? operator kind = some s) : operator = s.operator := by
  cases operator <;> cases kind <;> simp [of?] at h <;> subst h <;> rfl

lemma kind_eq_collection_iff (h : of? operator kind = some s) :
    kind = .collection ↔ s.comparesCollections = true := by
  cases operator <;> cases kind <;> simp [of?] at h <;> subst h <;> decide

/-- The number of operands of a strategy is that of its operators. -/
lemma operandCount?_of (h : of? operator kind = some s) :
    (operator.isUnary = true ↔ s.operandCount? = some 0) ∧
      (operator.takesList = true ↔ s.operandCount? = none) ∧
      (operator.isPattern = true → ∃ i n, s = .pattern i n) := by
  cases operator <;> cases kind <;> simp [of?] at h <;> subst h <;>
    simp [operandCount?, Operator.isUnary, Operator.takesList, Operator.isPattern]

lemma kind_eq_text {i n : Bool} (h : of? operator kind = some (.pattern i n)) : kind = .text := by
  cases operator <;> cases kind <;> simp [of?] at h <;> rfl

end Strategy

/-! ### Operands -/

/-- The operands that a strategy compares with. -/
inductive Strategy.Takes : Strategy → List Value → Prop where
  | nullness {n : Bool} : Takes (.nullness n) []
  | emptiness {n : Bool} : Takes (.emptiness n) []
  | membership {n : Bool} {vs : List Value} (some : vs ≠ [])
      (present : ∀ v ∈ vs, v.isNull = false) : Takes (.membership n) vs
  | pattern {i n : Bool} {s : String} (readable : checkPattern s = .ok ()) :
      Takes (.pattern i n) [.text s]
  | equality {n : Bool} {v : Value} (present : v.isNull = false) : Takes (.equality n) [v]
  | ordering {operator : Operator} {v : Value} (present : v.isNull = false) :
      Takes (.ordering operator) [v]
  | containment {n : Bool} {v : Value} (present : v.isNull = false) : Takes (.containment n) [v]

namespace Strategy.Takes

variable {s : Strategy} {vs : List Value}

lemma single (h : s.Takes vs) (hs : s.operandCount? = some 1) :
    ∃ x, vs = [x] ∧ x.isNull = false := by
  cases h with
  | pattern _ => exact ⟨_, rfl, rfl⟩
  | equality hx => exact ⟨_, rfl, hx⟩
  | ordering hx => exact ⟨_, rfl, hx⟩
  | containment hx => exact ⟨_, rfl, hx⟩
  | _ => simp [operandCount?] at hs

lemma eq_nil (h : s.Takes vs) (hs : s.operandCount? = some 0) : vs = [] := by
  cases h <;> first | rfl | cases hs

lemma ne_nil (h : s.Takes vs) (hs : s.operandCount? = none) : vs ≠ [] := by
  cases h <;> first | assumption | cases hs

lemma readable {i n : Bool} (h : Takes (.pattern i n) vs) :
    ∃ t, vs = [.text t] ∧ checkPattern t = .ok () := by
  cases h with
  | pattern readable => exact ⟨_, rfl, readable⟩

lemma present (h : s.Takes vs) : ∀ v ∈ vs, v.isNull = false := by
  cases h with
  | nullness => simp
  | emptiness => simp
  | membership _ hvs => exact hvs
  | pattern _ => exact List.forall_mem_singleton.mpr rfl
  | equality hx => exact List.forall_mem_singleton.mpr hx
  | ordering hx => exact List.forall_mem_singleton.mpr hx
  | containment hx => exact List.forall_mem_singleton.mpr hx

end Strategy.Takes

namespace Condition

variable {c : Condition} {s : Strategy}

lemma isUnary_of_nullness {n : Bool} {kind : PropertyKind} {operator : Operator}
    (h : Strategy.of? operator kind = some (.nullness n) ∨
      Strategy.of? operator kind = some (.emptiness n)) : operator.isUnary = true := by
  cases operator <;> cases kind <;> simp_all [Strategy.of?, Operator.isUnary]

lemma isNull_eq_false {v : Value} (h : v ≠ .null) : v.isNull = false := by
  cases v <;> simp_all [Value.isNull]

/-- A strategy that compares with one operand has one, and it is not null. -/
lemma single_of_check (hs : Strategy.of? c.operator c.property.kind = some s)
    (hn : s.operandCount? = some 1) (h : c.check = .ok ()) :
    ∃ v, c.operands = [v] ∧ v.isNull = false := by
  unfold check at h
  rw [hs] at h
  cases s <;> simp only [Strategy.operandCount?, Option.some.injEq, reduceCtorEq,
    Nat.zero_ne_one] at hn <;>
  · rcases hvs : c.operands with _ | ⟨v, _ | ⟨w, ws⟩⟩
    · simp [hvs] at h
    · refine ⟨v, rfl, isNull_eq_false ?_⟩
      rintro rfl
      simp [hvs] at h
    · simp [hvs] at h

/-- A pattern that passes the check is text that can be read as one. -/
lemma pattern_of_check {i n : Bool} {v : Value} (hv : c.operands = [v])
    (hs : Strategy.of? c.operator c.property.kind = some (.pattern i n)) (h : c.check = .ok ()) :
    ∃ t, v = .text t ∧ checkPattern t = .ok () := by
  unfold check at h
  rw [hs, hv] at h
  cases v with
  | text t =>
    refine ⟨t, rfl, ?_⟩
    cases ht : checkPattern t with
    | ok u => rfl
    | error e => simp [ht] at h
  | _ => simp at h

/-- The check lets through the operands that the strategy takes. -/
theorem takes_of_check (hs : Strategy.of? c.operator c.property.kind = some s)
    (hu : c.operator.isUnary = true → c.operands = []) (h : c.check = .ok ()) :
    s.Takes c.operands := by
  cases s with
  | nullness n => exact hu (isUnary_of_nullness (.inl hs)) ▸ .nullness
  | emptiness n => exact hu (isUnary_of_nullness (.inr hs)) ▸ .emptiness
  | membership n =>
    unfold check at h
    rw [hs] at h
    cases hempty : c.operands.isEmpty with
    | true => simp [hempty] at h
    | false =>
      cases hnull : c.operands.any Value.isNull with
      | true => simp [hempty, hnull] at h
      | false =>
        refine .membership (by simpa using hempty) fun v hv => ?_
        simpa using List.any_eq_false.mp hnull v hv
  | pattern i n =>
    obtain ⟨v, hv, -⟩ := single_of_check hs rfl h
    obtain ⟨t, rfl, ht⟩ := pattern_of_check hv hs h
    exact hv ▸ .pattern ht
  | equality n =>
    obtain ⟨v, hv, hnull⟩ := single_of_check hs rfl h
    exact hv ▸ .equality hnull
  | ordering o =>
    obtain ⟨v, hv, hnull⟩ := single_of_check hs rfl h
    exact hv ▸ .ordering hnull
  | containment n =>
    obtain ⟨v, hv, hnull⟩ := single_of_check hs rfl h
    exact hv ▸ .containment hnull

/-- The check requires a strategy. -/
lemma exists_strategy_of_check (h : c.check = .ok ()) :
    ∃ s, Strategy.of? c.operator c.property.kind = some s := by
  unfold check at h
  cases hs : Strategy.of? c.operator c.property.kind with
  | none => simp [hs] at h
  | some s => exact ⟨s, rfl⟩

end Condition

/-! ### Matchers -/

namespace Matcher

/-- What making a matcher comes to when the operands are right. -/
lemma make_of_takes {s : Strategy} {vs : List Value} (h : s.Takes vs) :
    ∃ m, make s vs = .ok m ∧ m.strategy = s ∧ m.operands = vs ∧
      ∀ i n t, s = .pattern i n → vs = [.text t] →
        ∃ pieces, Pattern.pieces? t.toList = some pieces ∧ m.pattern? = some ⟨pieces, i⟩ := by
  cases h with
  | @pattern i n t readable =>
    unfold checkPattern at readable
    cases hp : Pattern.pieces? t.toList with
    | none => simp [hp] at readable
    | some pieces =>
      refine ⟨⟨.pattern i n, [.text t], some ⟨pieces, i⟩⟩, ?_, rfl, rfl, ?_⟩
      · simp [make, make.bind, Strategy.operandCount?, LikePattern.compile, Value.text?, hp,
          Except.map]
      · rintro i' n' t' hs ht
        cases hs
        cases ht
        exact ⟨pieces, hp, rfl⟩
  | membership _ _ => exact ⟨_, rfl, rfl, rfl, by simp⟩
  | nullness => exact ⟨_, rfl, rfl, rfl, by simp⟩
  | emptiness => exact ⟨_, rfl, rfl, rfl, by simp⟩
  | equality _ => exact ⟨_, rfl, rfl, rfl, by simp⟩
  | ordering _ => exact ⟨_, rfl, rfl, rfl, by simp⟩
  | containment _ => exact ⟨_, rfl, rfl, rfl, by simp⟩

/-- A text is accepted if the pattern spells it. -/
lemma accepts_text {m : Matcher} {i n : Bool} {s t : String} {pieces : List PatternPiece}
    (hs : m.strategy = .pattern i n) (hp : m.pattern? = some ⟨pieces, i⟩)
    (hpieces : Pattern.pieces? t.toList = some pieces) :
    m.accepts (.text s) = (patternSpells i t s != n) := by
  simp [accepts, hs, hp, Value.text?, patternSpells, hpieces, LikePattern.accepts,
    Pattern.describes_eq_spells]

/-- Null is accepted by the tests for absence only. -/
lemma accepts_null (m : Matcher) :
    m.accepts .null = decide (m.strategy = .nullness false ∨ m.strategy = .emptiness false) := by
  unfold accepts
  split <;> rename_i hs <;> simp [hs, Value.isNull, lacksElements, Value.compare?, Value.identity,
    Value.text?]

end Matcher

namespace BooleanExpression

variable {operator : Operator} {s : Strategy} {vs : List Value}

lemma ofSingle_of_takes {η : Type} [SingleValued η]
    (hs : Strategy.of? operator .boolean = some s) (h : s.Takes vs) (handle : η) :
    ofSingle handle s vs = (SingleValued.property handle).testBy s vs := by
  cases h with
  | @equality n v _ => cases n <;> rfl
  | @membership n vs _ _ => cases n <;> rfl
  | @nullness n => cases n <;> rfl
  | _ => cases operator <;> simp [Strategy.of?] at hs

lemma ofOrdered_of_takes {η : Type} [HasOrder η]
    (hs : Strategy.of? operator .number = some s) (h : s.Takes vs) (handle : η) :
    ofOrdered handle s vs = (SingleValued.property handle).testBy s vs := by
  cases h with
  | ordering _ => cases operator <;> simp [Strategy.of?] at hs <;> subst hs <;> rfl
  | @equality n v _ => cases n <;> rfl
  | @membership n vs _ _ => cases n <;> rfl
  | @nullness n => cases n <;> rfl
  | _ => cases operator <;> simp [Strategy.of?] at hs

lemma ofCollection_of_takes (hs : Strategy.of? operator .collection = some s) (h : s.Takes vs)
    (handle : CollectionHandle) : ofCollection handle s vs = handle.property.testBy s vs := by
  cases h with
  | @emptiness n => cases n <;> rfl
  | @containment n v _ => cases n <;> rfl
  | _ => cases operator <;> simp [Strategy.of?] at hs

lemma of?_text (hs : Strategy.of? operator .text = some s) :
    (∃ i n, s = .pattern i n) ∨ Strategy.of? operator .number = some s := by
  cases operator <;> first | exact .inl ⟨_, _, (Option.some.inj hs).symm⟩ | exact .inr hs

/-- The test at the end of a path is made by the strategy from the operands. -/
lemma ofLeaf_of_takes {leaf : PathSegment}
    (hs : Strategy.of? operator leaf.type.kind = some s) (h : s.Takes vs) (scope : Scope) :
    ofLeaf scope leaf s vs = (scope.property leaf.name).testBy s vs := by
  unfold ofLeaf
  cases hk : leaf.type.kind <;> rw [hk] at hs
  case text =>
    rcases of?_text hs with ⟨i, n, rfl⟩ | hordered
    · cases h with
      | pattern _ => rfl
    · cases h with
      | pattern _ => rfl
      | _ => exact ofOrdered_of_takes hordered (by constructor <;> assumption) _
  case number => exact ofOrdered_of_takes hs h _
  case temporal => exact ofOrdered_of_takes hs h _
  case boolean => exact ofSingle_of_takes hs h _
  case enum => exact ofSingle_of_takes hs h _
  case reference => exact ofSingle_of_takes hs h _
  case collection => exact ofCollection_of_takes hs h _

end BooleanExpression

end EntityQuery
