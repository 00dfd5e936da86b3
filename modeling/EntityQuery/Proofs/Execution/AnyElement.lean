import EntityQuery.Proofs.Execution.Agreement
import EntityQuery.Proofs.Preparation.Behind

/-!
# One element or several

A condition behind a collection opens a scope for every condition that preparation makes of it, so
each of them may be satisfied by an element of its own. For an assertion this is the same as one
element that satisfies the whole; for a negation it is, as long as one condition entails the others.
-/

namespace EntityQuery

open Instance

variable {ι : Type} [Instance ι] {r : Registry} {context : QueryContext}
  {entity target a : String} {d : PropertyDef}

/-! ### Scopes -/

/-- The expression of a condition behind a collection is about some element of it. -/
lemma BooleanExpression.ofCondition_behind (hop : PathSegment) (indexed : hop.indexed = true)
    (c : Condition) : ofCondition (c.turned [hop] false) =
      (ofCondition c).map (BooleanExpression.any ⟨[hop.name]⟩) := by
  have hkind : (c.turned [hop] false).property.kind = c.property.kind := rfl
  unfold ofCondition
  rw [hkind, Condition.turned_operator]
  cases hs : Strategy.require c.operator c.property.kind with
  | error e => simp [Operator.turned, hs, Except.map]
  | ok s =>
    have hparents : (c.turned [hop] false).property.parents = hop :: c.property.parents := rfl
    simp only [Operator.turned, hs, hparents, along, indexed, if_true]
    rfl

lemma Condition.stated_behind (hop : PathSegment) (indexed : hop.indexed = true) (c : Condition)
    (i : ι) : (c.turned [hop] false).stated i =
      (related i hop.name).any fun j => c.stated j := by
  unfold stated
  rw [BooleanExpression.ofCondition_behind hop indexed]
  cases BooleanExpression.ofCondition c with
  | error e => simp [Except.map]
  | ok b => rfl

/-- Behind a collection, every condition that a predicate needs asks for an element of its own. -/
lemma Predicate.holds_behind (hop : PathSegment) (indexed : hop.indexed = true)
    (t : Predicate Condition) (i : ι) : (t.behind [hop] false).holds (Condition.stated i) =
      t.holds fun c => (related i hop.name).any fun j => c.stated j := by
  simp only [holds_turned, Bool.bne_false, Condition.stated_behind hop indexed]

/-! ### Negations that one condition decides -/

/-- One condition decides: every other one only asks for the presence of the value that the first is
about. -/
def Predicate.Led (t : Predicate Condition) : Prop :=
  ∃ c ∈ t.conditions, ∀ d ∈ t.conditions, d = c ∨
    d.operator = .isNotNull ∧ d.property = c.property

/-- What a negation is true of is present. -/
lemma Condition.present_of_stated {c e : Condition} (hc : c.Prepared r entity)
    (he : e.Prepared r entity) (hnegation : c.operator.isNegation = true)
    (hpresence : e.operator = .isNotNull) (hproperty : e.property = c.property) {i : ι}
    (h : c.stated i = true) : e.stated i = true := by
  obtain ⟨m, b, -, hs, -, hb, heval⟩ := exists_matcher (ι := ι) hc
  obtain ⟨m', b', -, hs', -, hb', heval'⟩ := exists_matcher (ι := ι) he
  rw [stated, hb] at h
  rw [stated, hb']
  have hnull : m.accepts .null = false := by
    rw [m.accepts_null, Strategy.asksAbsence_of hs]
    revert hnegation
    cases c.operator <;> decide
  have hstrategy : m'.strategy = .nullness true := by
    rw [hpresence] at hs'
    cases hk : e.property.kind <;> simp [Strategy.of?, hk] at hs' <;> exact hs'.symm
  obtain ⟨o, ho, haccepts⟩ := List.any_eq_true.mp ((heval i).symm.trans h)
  have hvalue : read o c.property.leaf.name ≠ .null := by
    intro hread
    rw [hread, hnull] at haccepts
    cases haccepts
  have hends : e.ends i = c.ends i := by rw [ends, ends, hproperty]
  refine (heval' i).trans (List.any_eq_true.mpr ⟨o, hends ▸ ho, ?_⟩)
  simp [Matcher.accepts, hstrategy, hproperty, isNull_eq_false hvalue]

namespace Predicate

variable {t : Predicate Condition}

/-- If one element satisfies a predicate, then each condition that it needs has an element. -/
lemma holds_of_element (js : List ι) (h : (js.any fun j => t.holds (Condition.stated j)) = true) :
    t.holds (fun c => js.any fun j => c.stated j) = true := by
  obtain ⟨j, hj, htrue⟩ := List.any_eq_true.mp h
  exact t.holds_mono (fun c _ hc => List.any_eq_true.mpr ⟨j, hj, hc⟩) htrue

/-- Alternatives: what satisfies one of the conditions satisfies the predicate. -/
lemma element_of_alternatives (ht : t.Only .or) (js : List ι)
    (h : t.holds (fun c => js.any fun j => c.stated j) = true) :
    (js.any fun j => t.holds (Condition.stated j)) = true := by
  obtain ⟨c, hc, hany⟩ := (ht.holds_iff_any _).mp h
  obtain ⟨j, hj, hstated⟩ := List.any_eq_true.mp hany
  exact List.any_eq_true.mpr ⟨j, hj, (ht.holds_iff_any _).mpr ⟨c, hc, hstated⟩⟩

/-- Requirements that one of them entails: what satisfies this one satisfies the predicate. -/
lemma element_of_led (ht : t.Only .and) (hled : t.Led)
    (hprepared : ∀ c ∈ t.conditions, c.Prepared r target)
    (hnegation : ∀ c ∈ t.conditions, c.operator.isNegation = true) (js : List ι)
    (h : t.holds (fun c => js.any fun j => c.stated j) = true) :
    (js.any fun j => t.holds (Condition.stated j)) = true := by
  obtain ⟨c, hc, hothers⟩ := hled
  obtain ⟨j, hj, hstated⟩ := List.any_eq_true.mp ((ht.holds_iff_all _).mp h c hc)
  refine List.any_eq_true.mpr ⟨j, hj, (ht.holds_iff_all _).mpr fun e he => ?_⟩
  rcases hothers e he with rfl | ⟨hpresence, hproperty⟩
  · exact hstated
  · exact Condition.present_of_stated (hprepared c hc) (hprepared e he) (hnegation c hc) hpresence
      hproperty hstated

end Predicate

/-! ### Queries -/

/-- **Conditions behind a collection.** A condition on a path of the elements of a collection is
prepared, behind the collection, to the same predicate, with every condition in a scope of its own.
So the expression is true of an instance if every condition that the predicate needs is true of some
element. It is true if one element satisfies the predicate, and for assertions, and for negations
that one condition decides, only then. -/
theorem evaluate_behind_collection {c : RawCondition} {p : PreparedQuery}
    (declared : r.property? entity a = some d) (type : d.type = .collection (.entity target))
    (named : a ≠ "") (plain : '.' ∉ a.toList)
    (hp : RawQuery.prepare r context target (.of (.cond c)) = .ok p) :
    ∃ p' t t' b b', RawQuery.prepare r context entity
        (.of (.cond ⟨a ++ "[]." ++ c.property, c.operator, c.operand?⟩)) = .ok p' ∧
      p.predicate = some t ∧ p'.predicate = some t' ∧
      t' = t.behind [d.elements entity] false ∧
      BooleanExpression.ofPredicate t = .ok b ∧ BooleanExpression.ofPredicate t' = .ok b' ∧
      ∀ i : ι, b'.evaluate i = (t.holds fun e => (related i a).any fun j => e.stated j) ∧
        (((related i a).any fun j => b.evaluate j) = true → b'.evaluate i = true) ∧
        (c.operator.isNegation = false ∨ t.Led →
          b'.evaluate i = (related i a).any fun j => b.evaluate j) := by
  obtain ⟨t, rfl, honly, hside, hp'⟩ := RawQuery.prepare_behind declared type named plain hp
  have hprepared : ∀ e ∈ t.conditions, e.Prepared r target := RawQuery.prepared_of_prepare hp rfl
  have hprepared' : ∀ e ∈ (t.behind [d.elements entity] false).conditions, e.Prepared r entity :=
    RawQuery.prepared_of_prepare hp' rfl
  obtain ⟨b, hb, heval⟩ := BooleanExpression.exists_ofPredicate (ι := ι) fun e he => by
    obtain ⟨-, b, -, -, -, hb, -⟩ := Condition.exists_test (hprepared e he)
    exact ⟨b, hb⟩
  obtain ⟨b', hb', heval'⟩ := BooleanExpression.exists_ofPredicate (ι := ι) fun e he => by
    obtain ⟨-, b, -, -, -, hb, -⟩ := Condition.exists_test (hprepared' e he)
    exact ⟨b, hb⟩
  refine ⟨_, t, _, b, b', hp', rfl, rfl, rfl, hb, hb', fun i => ?_⟩
  have hscoped : b'.evaluate i = t.holds fun e => (related i a).any fun j => e.stated j := by
    rw [heval' i, Predicate.holds_behind _ rfl, PropertyDef.elements_name declared]
  have hwhole : ((related i a).any fun j => b.evaluate j) =
      (related i a).any fun j => t.holds (Condition.stated j) := by simp only [heval]
  rw [hscoped, hwhole]
  refine ⟨rfl, t.holds_of_element _, fun hone => ?_⟩
  refine Bool.eq_iff_iff.mpr ⟨fun h => ?_, t.holds_of_element _⟩
  cases hnegation : c.operator.isNegation with
  | false =>
    have honly : t.Only .or := by simpa [Operator.side, hnegation] using honly
    exact Predicate.element_of_alternatives honly _ h
  | true =>
    have honly : t.Only .and := by simpa [Operator.side, hnegation] using honly
    have hnegations : ∀ e ∈ t.conditions, e.operator.isNegation = true := fun e he => by
      simpa [Operator.side, hnegation] using hside e he
    have hled : t.Led := hone.resolve_left (by simp [hnegation])
    exact Predicate.element_of_led honly hled hprepared hnegations _ h

/-! ### Negations that two elements share -/

/-- A company with two representatives. -/
inductive Crew where
  | firm
  | ann
  | joe
  deriving DecidableEq

namespace Crew

/-- The entity type of an instance. -/
def type : Crew → String
  | firm => "Company"
  | ann | joe => "Representative"

instance : Instance Crew where
  valueOf
    | firm, "id" => .text "firm"
    | ann, "id" => .text "ann"
    | joe, "id" => .text "joe"
    | firm, "representatives" =>
      .list [.ref "Representative" (.text "ann"), .ref "Representative" (.text "joe")]
    | ann, "name" => .text "Ann"
    | joe, "name" => .text "Joe"
    | _, _ => .null
  related
    | firm, "representatives" => [ann, joe]
    | _, _ => []

/-- The property of a company that holds its representatives. -/
def representatives : PropertyDef :=
  ⟨"representatives", .collection (.entity "Representative"), true, none⟩

/-- The entity types of the instances. -/
def registry : Registry :=
  ⟨[⟨"Company", "id", [⟨"id", .text, false, none⟩, representatives]⟩,
    ⟨"Representative", "id", [⟨"id", .text, false, none⟩, ⟨"name", .text, true, none⟩]⟩]⟩

lemma property?_representatives :
    registry.property? "Company" "representatives" = some representatives := by
  rfl

lemma types : registry.Types fun e (i : Crew) => e = i.type where
  value := by
    rintro _ name i p rfl h
    obtain ⟨rfl, hp⟩ := Registry.declared_of_property? h
    cases i <;> simp [registry, representatives, type, Registry.entity?] at hp <;>
      rcases hp with rfl | rfl <;>
      first
        | exact .text
        | exact .list (by simpa using ⟨.ref rfl rfl .text, .ref rfl rfl .text⟩)
  single := by
    rintro _ name t i p rfl h htype
    obtain ⟨rfl, hp⟩ := Registry.declared_of_property? h
    cases i <;> simp [registry, representatives, type, Registry.entity?] at hp <;>
      rcases hp with rfl | rfl <;>
      cases htype
  target := by
    rintro _ name t i p rfl h htarget
    obtain ⟨rfl, hp⟩ := Registry.declared_of_property? h
    cases i <;> simp [registry, representatives, type, Registry.entity?] at hp <;>
      rcases hp with rfl | rfl <;>
      simp_all [Instance.related, PropertyType.target?, PropertyType.element, type]

/-- The name of a representative. -/
def name : PropertyPath :=
  ⟨[], ⟨"name", "Representative", .text, true, false⟩⟩

/-- The condition on representatives with a name that is not Ann. -/
def otherThanAnn : RawCondition :=
  ⟨"name", .notIn, some (.list [.null, .string "Ann"])⟩

/-- The condition on representatives whose name has neither Ann nor Joe in it. -/
def neither : RawCondition :=
  ⟨"name", .notContains, some (.list [.string "Ann", .string "Joe"])⟩

lemma operandsOf_otherThanAnn : registry.operandsOf Staff.context name otherThanAnn =
    .ok [.null, .text "Ann"] := by
  simp [Registry.operandsOf, otherThanAnn, Registry.coerceAll, Registry.coerce,
    Registry.convert_text, name, PropertyPath.type, Except.map, Operator.isUnary, Operator.acceptsList]

lemma operandsOf_neither : registry.operandsOf Staff.context name neither =
    .ok [.text "Ann", .text "Joe"] := by
  simp [Registry.operandsOf, neither, Registry.coerceAll, Registry.coerce,
    Registry.convert_text, name, PropertyPath.type, Except.map, Operator.isUnary, Operator.acceptsList]

lemma settle_otherThanAnn : registry.settle ⟨name, .notIn, [.null, .text "Ann"]⟩ =
    .ok (.and [.cond ⟨name, .isNotNull, []⟩, .cond ⟨name, .notIn, [.text "Ann"]⟩]) := by
  rfl

lemma settle_neither : registry.settle ⟨name, .notContains, [.text "Ann", .text "Joe"]⟩ =
    .ok (.and [.cond ⟨name, .notLike, [.text "%Ann%"]⟩,
      .cond ⟨name, .notLike, [.text "%Joe%"]⟩]) := by
  rfl

lemma prepare_otherThanAnn :
    RawQuery.prepare registry Staff.context "Representative" (.of (.cond otherThanAnn)) =
      .ok (.of (.and [.cond ⟨name, .isNotNull, []⟩, .cond ⟨name, .notIn, [.text "Ann"]⟩])) :=
  RawQuery.prepare_cond_eq_ok.mpr
    ⟨_, _, _, _, rfl, rfl, operandsOf_otherThanAnn, settle_otherThanAnn, rfl⟩

lemma prepare_neither :
    RawQuery.prepare registry Staff.context "Representative" (.of (.cond neither)) =
      .ok (.of (.and [.cond ⟨name, .notLike, [.text "%Ann%"]⟩,
        .cond ⟨name, .notLike, [.text "%Joe%"]⟩])) :=
  RawQuery.prepare_cond_eq_ok.mpr ⟨_, _, _, _, rfl, rfl, operandsOf_neither, settle_neither, rfl⟩

end Crew

open Crew in
/-- A list of null and Ann asks for a name, and for one that is not Ann: the firm has a
representative whose name is both. -/
theorem evaluate_behind_representatives :
    ∃ p p' t t' b b', RawQuery.prepare registry Staff.context "Representative"
        (.of (.cond otherThanAnn)) = .ok p ∧
      RawQuery.prepare registry Staff.context "Company"
        (.of (.cond ⟨"representatives" ++ "[]." ++ otherThanAnn.property, otherThanAnn.operator,
          otherThanAnn.operand?⟩)) = .ok p' ∧
      p.predicate = some t ∧ p'.predicate = some t' ∧ t.Led ∧
      BooleanExpression.ofPredicate t = .ok b ∧ BooleanExpression.ofPredicate t' = .ok b' ∧
      b'.evaluate firm = (Instance.related firm "representatives").any fun j => b.evaluate j := by
  obtain ⟨p', t, t', b, b', hp', ht, ht', -, hb, hb', heval⟩ :=
    evaluate_behind_collection (ι := Crew) property?_representatives rfl (by decide) (by decide)
      prepare_otherThanAnn
  have hled : t.Led := by
    cases ht
    exact ⟨⟨name, .notIn, [.text "Ann"]⟩, by simp, by simp⟩
  exact ⟨_, p', t, t', b, b', prepare_otherThanAnn, hp', ht, ht', hled, hb, hb',
    (heval firm).2.2 (.inr hled)⟩

open Crew in
/-- Ann has no Joe in her name, and Joe no Ann in his: the firm has a representative for each
requirement, and none for both. -/
theorem elements_share_requirements :
    ∃ p p' t t' b b', RawQuery.prepare registry Staff.context "Representative"
        (.of (.cond neither)) = .ok p ∧
      RawQuery.prepare registry Staff.context "Company"
        (.of (.cond ⟨"representatives[].name", neither.operator, neither.operand?⟩)) = .ok p' ∧
      p.predicate = some t ∧ p'.predicate = some t' ∧
      BooleanExpression.ofPredicate t = .ok b ∧ BooleanExpression.ofPredicate t' = .ok b' ∧
      registry.Fits "Company" firm ∧ b'.evaluate firm = true ∧
      Instance.related firm "representatives" = [ann, joe] ∧
      b.evaluate ann = false ∧ b.evaluate joe = false := by
  obtain ⟨t, ht, -, -, hp'⟩ := RawQuery.prepare_behind property?_representatives rfl (by decide)
    (by decide) prepare_neither
  cases ht
  exact ⟨_, _, _, _, _, _, prepare_neither, hp', rfl, rfl, rfl, rfl, ⟨_, types, rfl⟩, rfl, rfl, rfl,
    rfl⟩

end EntityQuery
