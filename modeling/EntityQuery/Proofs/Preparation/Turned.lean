import EntityQuery.Proofs.Preparation.Sided

/-!
# Preparation of turned conditions

Preparation looks at the last property of a path only, and it does to a negated operator what it
does to the operator, with conjunctions and disjunctions exchanged. So a condition that is put
behind other associations, or negated, is prepared to the predicate that is turned in the same way.
-/

namespace EntityQuery

variable {r : Registry} {front : List PathSegment} {dual : Bool}

/-- The operator, or its negation if it has one. -/
def Operator.turned (dual : Bool) (operator : Operator) : Operator :=
  match dual with
  | false => operator
  | true => operator.negate?.getD operator

/-- The path behind some associations. -/
def PropertyPath.behind (front : List PathSegment) (p : PropertyPath) : PropertyPath :=
  ⟨front ++ p.parents, p.leaf⟩

/-- The condition behind some associations, or its negation there. -/
def Condition.turned (front : List PathSegment) (dual : Bool) (c : Condition) : Condition :=
  ⟨c.property.behind front, c.operator.turned dual, c.operands⟩

/-- The predicate behind some associations, or its dual there, with every condition negated. -/
abbrev Predicate.behind (front : List PathSegment) (dual : Bool) (p : Predicate Condition) :
    Predicate Condition :=
  p.turned dual (Condition.turned front dual)

/-- A condition has a negation if one is wanted; the orderings have none. -/
def Condition.Turns (dual : Bool) (c : Condition) : Prop :=
  dual = true → c.operator.negate?.isSome = true

/-- Whether a condition has one operand, which is not null. -/
def Condition.hasSingle (c : Condition) : Bool :=
  match c.operands with
  | [v] => !v.isNull
  | _ => false

/-! ### Conditions -/

namespace Condition

variable {c : Condition}

lemma Sides.turns {p : Predicate Condition} (h : c.Sides p) (hc : c.Turns dual) :
    ∀ d ∈ p.conditions, d.Turns dual :=
  fun d hd hdual => h.negatable (hc hdual) d hd

@[simp] lemma turned_operands (c : Condition) : (c.turned front dual).operands = c.operands :=
  rfl

@[simp] lemma turned_operator (c : Condition) :
    (c.turned front dual).operator = c.operator.turned dual :=
  rfl

@[simp] lemma turned_kind (c : Condition) :
    (c.turned front dual).property.kind = c.property.kind :=
  rfl

@[simp] lemma turned_text? (c : Condition) : (c.turned front dual).text? = c.text? :=
  rfl

@[simp] lemma turned_hasSingle (c : Condition) : (c.turned front dual).hasSingle = c.hasSingle :=
  rfl

end Condition

/-! ### Rules -/

namespace Rule

variable {c d : Condition} {p : Predicate Condition}

lemma behind_allOf (ps : List (Predicate Condition)) : (Predicate.allOf ps).behind front dual =
    .join (Junction.turned dual .and) (ps.map (Predicate.behind front dual)) :=
  (Predicate.join_turned .and ps).symm

lemma behind_anyOf (ps : List (Predicate Condition)) : (Predicate.anyOf ps).behind front dual =
    .join (Junction.turned dual .or) (ps.map (Predicate.behind front dual)) :=
  (Predicate.join_turned .or ps).symm

lemma turned_absence (c : Condition) :
    absence (c.turned front dual) = (absence c).map (Predicate.behind front dual) := by
  unfold absence
  rw [Condition.turned_kind, Condition.turned_operator]
  cases c.property.kind <;> cases dual <;> cases hop : c.operator <;>
    simp [Operator.turned, Operator.negate?] <;> rfl

lemma nullComparison_eq_none (h : c.operands ≠ [.null]) : nullComparison c = none := by
  unfold nullComparison
  split <;> first | rfl | contradiction

lemma turned_nullComparison (c : Condition) :
    nullComparison (c.turned front dual) =
      (nullComparison c).map (Predicate.behind front dual) := by
  by_cases hnull : c.operands = [.null]
  · unfold nullComparison
    rw [Condition.turned_operands, Condition.turned_operator, hnull]
    cases dual <;> cases c.operator <;> rfl
  · rw [nullComparison_eq_none hnull, nullComparison_eq_none (by simpa using hnull)]
    rfl

lemma turned_nullInList (c : Condition) :
    nullInList (c.turned front dual) = (nullInList c).map (Predicate.behind front dual) := by
  unfold nullInList
  rw [Condition.turned_operands, Condition.turned_operator]
  generalize c.operands.filter (fun v => !v.isNull) = values
  cases hnull : c.operands.any Value.isNull
  · simp
  · cases dual <;> cases hop : c.operator <;>
      simp [Operator.turned, Operator.negate?, Operator.takesList, behind_allOf, behind_anyOf] <;>
      cases values <;> rfl

lemma turned_containsPart (hop : c.operator = .contains ∨ c.operator = .notContains) (v : Value) :
    containsPart (c.turned front dual) v = (containsPart c v).behind front dual := by
  unfold containsPart
  rw [Condition.turned_operator]
  cases v.isNull <;> cases dual <;> rcases hop with hop | hop <;> rw [hop] <;>
    simp [Operator.turned, Operator.negate?] <;> rfl

/-- The parts of a list, joined as the operator asks. -/
lemma containsList_eq (c : Condition) : containsList c =
    match c.hasSingle, c.operator with
    | false, .contains => some (.anyOf (c.operands.map (containsPart c)))
    | false, .notContains => some (.allOf (c.operands.map (containsPart c)))
    | _, _ => none := by
  unfold containsList Condition.hasSingle
  rcases c.operands with _ | ⟨v, _ | ⟨w, ws⟩⟩ <;> cases c.operator <;> first | rfl | skip
  all_goals cases hv : v.isNull <;> simp [hv]

lemma turned_containsList (c : Condition) :
    containsList (c.turned front dual) = (containsList c).map (Predicate.behind front dual) := by
  have hparts : c.operator = .contains ∨ c.operator = .notContains →
      c.operands.map (containsPart (c.turned front dual)) =
        (c.operands.map (containsPart c)).map (Predicate.behind front dual) := by
    intro hop
    rw [List.map_map]
    exact List.map_congr_left fun v _ => turned_containsPart hop v
  rw [containsList_eq, containsList_eq, Condition.turned_hasSingle, Condition.turned_operands,
    Condition.turned_operator]
  cases c.hasSingle <;> cases dual <;> cases hop : c.operator <;> first | rfl | skip
  all_goals
    simp only [Operator.turned, Operator.negate?, Option.getD_some, Option.map_some, behind_anyOf,
      behind_allOf, hparts (by simp [hop])]
    rfl

lemma turned_textContains (c : Condition) :
    textContains (c.turned front dual) = (textContains c).map (Predicate.behind front dual) := by
  unfold textContains
  rw [Condition.turned_kind, Condition.turned_operator, Condition.turned_text?]
  cases c.property.kind <;> cases dual <;> cases hop : c.operator <;> cases c.text? <;>
    simp [Operator.turned, Operator.negate?] <;> rfl

lemma emptyText_eq_none (h : c.text? ≠ some "") : emptyText c = none := by
  unfold emptyText
  split <;> first | rfl | contradiction

lemma turned_emptyText (c : Condition) :
    emptyText (c.turned front dual) = (emptyText c).map (Predicate.behind front dual) := by
  by_cases hempty : c.text? = some ""
  · unfold emptyText
    rw [Condition.turned_kind, Condition.turned_operator, Condition.turned_text?, hempty]
    cases c.property.kind <;> cases dual <;> cases c.operator <;> rfl
  · rw [emptyText_eq_none hempty, emptyText_eq_none (by simpa using hempty)]
    rfl

/-- **Rules turn**: what a rule makes of a condition, turned, is what it makes of the turned
condition. -/
lemma turned_of_mem {f : Rule} (hf : f ∈ all) (c : Condition) :
    f (c.turned front dual) = (f c).map (Predicate.behind front dual) := by
  simp only [all, List.mem_cons, List.not_mem_nil, or_false] at hf
  rcases hf with rfl | rfl | rfl | rfl | rfl | rfl
  · exact turned_absence c
  · exact turned_nullComparison c
  · exact turned_nullInList c
  · exact turned_containsList c
  · exact turned_textContains c
  · exact turned_emptyText c

end Rule

/-! ### Translators -/

lemma Registry.sibling_turned (c : Condition) (name : String) :
    r.sibling (c.turned front dual) name = (r.sibling c name).map (PropertyPath.behind front) := by
  have hleaf : (c.turned front dual).property.leaf = c.property.leaf := rfl
  have hparents : (c.turned front dual).property.parents = front ++ c.property.parents := rfl
  unfold sibling
  rw [hleaf, hparents]
  cases r.resolve c.property.leaf.owner name with
  | error e => rfl
  | ok q => simp [Except.map, PropertyPath.behind]

namespace Translator

variable {c d : Condition} {p : Predicate Condition}

lemma disregardCase_turned (c : Condition) :
    disregardCase (c.turned front dual) = (disregardCase c).turned front dual := by
  unfold disregardCase
  rw [Condition.turned_operator, Condition.turned_text?, Condition.turned_operands]
  cases dual <;> cases hop : c.operator <;> cases c.text? <;> rfl

lemma siblingConditions_turned (c : Condition) (names : List String) :
    siblingConditions r (c.turned front dual) names =
      (siblingConditions r c names).map (List.map (Predicate.behind front dual)) := by
  induction names with
  | nil => rfl
  | cons name names ih =>
    rw [siblingConditions, siblingConditions, Registry.sibling_turned, ih]
    cases r.sibling c name with
    | error e => rfl
    | ok path =>
      cases siblingConditions r c names with
      | error e => rfl
      | ok ps => simp [Except.map, Condition.turned]

lemma isNegation_turned (hc : c.Turns dual) :
    (c.operator.turned dual).isNegation = (c.operator.isNegation != dual) := by
  cases dual with
  | false => exact (Bool.xor_false _).symm
  | true =>
    have hnegate := hc rfl
    revert hnegate
    cases c.operator <;> simp [Operator.turned, Operator.negate?, Operator.isNegation]

/-- Translators turn. -/
lemma translate_turned {t : Translator} (hc : c.Turns dual) (h : t.translate r c = .ok p) :
    t.translate r (c.turned front dual) = .ok (p.behind front dual) := by
  unfold translate at h ⊢
  split
  · rw [disregardCase_turned]
    cases h
    simp
  · cases h
  · rename_i names _
    rw [siblingConditions_turned, Condition.turned_operator, isNegation_turned hc]
    cases hps : siblingConditions r c names with
    | error e => simp [hps] at h
    | ok ps =>
      simp only [hps, Except.ok.injEq] at h
      subst h
      cases dual <;> cases c.operator.isNegation <;>
        simp [Except.map, Rule.behind_allOf, Rule.behind_anyOf] <;> rfl

end Translator

/-! ### Stages -/

namespace Stage

variable {c d : Condition} {p q : Predicate Condition}

lemma translator_turned (hc : c.Turns dual) {result : Option (Predicate Condition)}
    (h : translator r c = .ok result) :
    translator r (c.turned front dual) = .ok (result.map (Predicate.behind front dual)) := by
  have hleaf : (c.turned front dual).property.leaf = c.property.leaf := rfl
  unfold translator at h ⊢
  rw [hleaf]
  split at h
  · rename_i name type nullable t hfound
    cases ht : t.translate r c with
    | error e => simp [ht] at h
    | ok p =>
      simp only [ht, Except.ok.injEq] at h
      subst h
      simp [Translator.translate_turned hc ht]
  · rename_i hfound
    obtain rfl := Except.ok.inj h
    rfl

/-- **Stages turn**: every stage does to the turned condition what it does to the condition. -/
lemma turned_of_mem_all {stage : Stage} (hs : stage ∈ all r) (hc : c.Turns dual)
    {result : Option (Predicate Condition)} (h : stage c = .ok result) :
    stage (c.turned front dual) = .ok (result.map (Predicate.behind front dual)) := by
  simp only [all, List.mem_append, List.mem_map, List.mem_singleton] at hs
  rcases hs with ⟨f, hf, rfl⟩ | rfl
  · obtain rfl := Except.ok.inj h
    rw [ofRule, Rule.turned_of_mem hf]
  · exact translator_turned hc h

/-! ### Comparing conditions -/

lemma turned_turned (dual : Bool) (operator : Operator) :
    (operator.turned dual).turned dual = operator := by
  cases dual <;> cases operator <;> rfl

lemma turned_beq (c d : Condition) :
    (d.turned front dual == c.turned front dual) = (d == c) := by
  have hproperty : (d.property.behind front == c.property.behind front) =
      (d.property == c.property) := by
    obtain ⟨dparents, dleaf⟩ := d.property
    obtain ⟨cparents, cleaf⟩ := c.property
    rw [Bool.eq_iff_iff]
    simp [PropertyPath.behind]
  have hoperator : (d.operator.turned dual == c.operator.turned dual) =
      (d.operator == c.operator) := by
    rw [Bool.eq_iff_iff, beq_iff_eq, beq_iff_eq]
    refine ⟨fun h => ?_, fun h => by rw [h]⟩
    rw [← turned_turned dual d.operator, h, turned_turned]
  exact congrArg (· && Value.beqAll d.operands c.operands)
    (congrArg₂ (· && ·) hproperty hoperator)

lemma turned_beq_cond (p : Predicate Condition) (c : Condition) :
    (p.behind front dual == .cond (c.turned front dual)) = (p == .cond c) := by
  cases p with
  | cond d =>
    rw [Predicate.behind, Predicate.turned_cond]
    exact turned_beq c d
  | and ps => cases dual <;> rfl
  | or ps => cases dual <;> rfl

end Stage

/-! ### The check -/

/-- The strategy, or its negation if it has one. -/
def Strategy.turned (dual : Bool) : Strategy → Strategy
  | equality n => equality (n != dual)
  | ordering operator => ordering operator
  | pattern i n => pattern i (n != dual)
  | membership n => membership (n != dual)
  | nullness n => nullness (n != dual)
  | emptiness n => emptiness (n != dual)
  | containment n => containment (n != dual)

lemma Strategy.of?_turned (operator : Operator) (kind : PropertyKind) :
    of? (operator.turned dual) kind = (of? operator kind).map (turned dual) := by
  cases dual <;> cases operator <;> cases kind <;> rfl

/-- What passes the check passes it when it is turned. -/
lemma Condition.check_turned {c : Condition} (h : c.check = .ok ()) :
    (c.turned front dual).check = .ok () := by
  unfold check at h ⊢
  rw [turned_kind, turned_operator, turned_operands, Strategy.of?_turned]
  cases hs : Strategy.of? c.operator c.property.kind with
  | none => simp [hs] at h
  | some s =>
    rw [hs] at h
    revert h
    cases s with
    | nullness n => exact fun _ => rfl
    | emptiness n => exact fun _ => rfl
    | membership n =>
      cases c.operands.isEmpty <;> cases c.operands.any Value.isNull <;> simp [Strategy.turned]
    | pattern i n =>
      rcases c.operands with _ | ⟨v, _ | ⟨w, ws⟩⟩
      · simp
      · cases v with
        | text t => cases ht : checkPattern t <;> simp [Strategy.turned, ht]
        | _ => simp
      · simp
    | _ =>
      rcases c.operands with _ | ⟨v, _ | ⟨w, ws⟩⟩
      · simp
      · cases v <;> simp [Strategy.turned]
      · simp

/-! ### Settling -/

namespace Stage

variable {c : Condition} {q : Predicate Condition}

lemma firstChange_turned {stages : List Stage} (hstages : stages ⊆ all r) (hc : c.Turns dual)
    {n : Nat} {change : Option (Nat × Predicate Condition)}
    (h : firstChange c n stages = .ok change) :
    firstChange (c.turned front dual) n stages =
      .ok (change.map (Prod.map id (Predicate.behind front dual))) := by
  induction stages generalizing n with
  | nil =>
    obtain rfl := Except.ok.inj h
    rfl
  | cons stage rest ih =>
    have hmem : stage ∈ all r := hstages (by simp)
    have hrest := fun {n} => ih (n := n) fun s hs => hstages (List.mem_cons_of_mem stage hs)
    rw [firstChange]
    rcases firstChange_cons h with ⟨p, hs, hne, rfl⟩ | ⟨⟨hs⟩ | ⟨p, hs, hp⟩, hchange⟩
    · rw [turned_of_mem_all hmem hc hs]
      simp [turned_beq_cond, hne]
    · rw [turned_of_mem_all hmem hc hs]
      exact hrest hchange
    · rw [turned_of_mem_all hmem hc hs]
      simp [turned_beq_cond, hp, hrest hchange]

lemma settle_turned {depth start : Nat} (hc : c.Turns dual)
    (h : settle (all r) Condition.check depth start c = .ok q) :
    settle (all r) Condition.check depth start (c.turned front dual) =
      .ok (q.behind front dual) := by
  induction depth generalizing start c q with
  | zero => simp [settle] at h
  | succ depth ih =>
    have hstages := List.drop_subset start (all r)
    rw [settle]
    rcases settle_eq_ok h with ⟨hnone, hcheck, rfl⟩ | ⟨n, p, hchange, hp⟩
    · rw [firstChange_turned hstages hc hnone]
      simp [Condition.check_turned hcheck, Except.map]
    · rw [firstChange_turned hstages hc hchange]
      obtain ⟨stage, hmem, hs, -⟩ := exists_of_firstChange hchange
      refine Predicate.mapM_turned hp fun d hd a ha => ?_
      rw [turned_beq]
      exact ih ((sides_of_mem_all (hstages hmem) hs).turns hc d hd) ha

end Stage

/-- **Settling turns**: behind other associations a condition is settled to the same predicate
behind them, and its negation is settled to the dual one. -/
theorem Registry.settle_turned {c : Condition} {q : Predicate Condition} (hc : c.Turns dual)
    (h : r.settle c = .ok q) : r.settle (c.turned front dual) = .ok (q.behind front dual) :=
  Stage.settle_turned hc h

end EntityQuery
