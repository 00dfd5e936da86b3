import EntityQuery.Proofs.Execution.Executable
import EntityQuery.Proofs.Preparation.Preserved
import EntityQuery.Proofs.Preparation.Turned

/-!
# A negated operator is the complement

The matcher of a negated condition rejects what the matcher of the condition accepts, and of the
values that are present it accepts all others. Preparation turns the negation of a condition into
the dual of what it makes of the condition, so the same holds for whole prepared predicates.
-/

namespace EntityQuery

variable {r : Registry} {context : QueryContext} {entity : String}

/-! ### Matchers -/

namespace Matcher

variable {m : Matcher} {v : Value} {type : PropertyType}

/-- The matcher for the negation. -/
def turned (dual : Bool) (m : Matcher) : Matcher :=
  { m with strategy := m.strategy.turned dual }

lemma make_turned {dual : Bool} {s : Strategy} {vs : List Value} (h : make s vs = .ok m) :
    make (s.turned dual) vs = .ok (m.turned dual) := by
  unfold make at h ⊢
  have hcount : (s.turned dual).operandCount? = s.operandCount? := by cases s <;> rfl
  have hbind : make.bind s vs = .ok m → make.bind (s.turned dual) vs = .ok (m.turned dual) := by
    intro hm
    cases s with
    | pattern i n =>
      obtain ⟨pattern, hp, rfl⟩ := exists_of_map_eq_ok hm
      simp [make.bind, Strategy.turned, hp, Except.map, turned]
    | _ =>
      obtain rfl := Except.ok.inj hm
      rfl
  rw [hcount]
  cases hs : s.operandCount? with
  | none =>
    rw [hs] at h
    exact hbind h
  | some n =>
    simp only [hs] at h
    split at h
    · rename_i hlen
      simpa [hlen] using hbind h
    · cases h

@[simp] lemma turned_strategy (dual : Bool) (m : Matcher) :
    (m.turned dual).strategy = m.strategy.turned dual :=
  rfl

@[simp] lemma turned_operands (dual : Bool) (m : Matcher) :
    (m.turned dual).operands = m.operands :=
  rfl

@[simp] lemma turned_operand (dual : Bool) (m : Matcher) : (m.turned dual).operand = m.operand :=
  rfl

@[simp] lemma turned_pattern? (dual : Bool) (m : Matcher) :
    (m.turned dual).pattern? = m.pattern? :=
  rfl

/-- No value is accepted by a matcher and by its negation. -/
lemma accepts_and_turned (hs : ∀ operator, m.strategy ≠ .ordering operator) (v : Value) :
    (m.accepts v && (m.turned true).accepts v) = false := by
  unfold accepts
  cases hm : m.strategy with
  | ordering operator => exact absurd hm (hs operator)
  | pattern i n => cases v.text? <;> cases hp : m.pattern? <;> simp [Strategy.turned, hm, hp]
  | containment n => cases v <;> simp [Strategy.turned, hm]
  | _ => cases v.isNull <;> simp [Strategy.turned, hm]

/-- A value that is present, and of the type that the strategy is for, is accepted by one of the
two. -/
lemma accepts_turned {operator : Operator} (hs : ∀ o, m.strategy ≠ .ordering o)
    (hstrategy : Strategy.of? operator type.kind = some m.strategy) (hm : m.Ready)
    (hv : v.Fits r type) (hpresent : v.isNull = false) :
    (m.turned true).accepts v = !m.accepts v := by
  have hnull : v ≠ .null := by
    rintro rfl
    cases hpresent
  unfold accepts
  cases hms : m.strategy with
  | ordering o => exact absurd hms (hs o)
  | pattern i n =>
    rw [hms] at hstrategy
    obtain ⟨pieces, hpieces⟩ := hm.pattern i n hms
    obtain ⟨s, rfl⟩ := (hv.text_or_null (Strategy.kind_eq_text hstrategy)).resolve_left hnull
    simp [Strategy.turned, hms, hpieces, Value.text?]
  | containment n =>
    rw [hms] at hstrategy
    have hkind := (Strategy.kind_eq_collection_iff hstrategy).mpr rfl
    obtain ⟨items, rfl⟩ := (hv.list_or_null hkind).resolve_left hnull
    simp [Strategy.turned, hms]
  | _ => simp [Strategy.turned, hms, hpresent]

end Matcher

/-! ### Conditions -/

namespace Condition

variable {c : Condition} {v : Value}

/-- The negation of a condition. -/
abbrev negated (c : Condition) : Condition :=
  c.turned [] true

lemma ne_ordering_of_turns (hc : c.Turns true) {kind : PropertyKind} {s : Strategy}
    (hs : Strategy.of? c.operator kind = some s) (o : Operator) : s ≠ .ordering o := by
  rintro rfl
  have hop := Strategy.operator_of_eq_some hs
  rw [Strategy.operator] at hop
  have hnegate := hc rfl
  subst hop
  revert hs hnegate
  cases c.operator <;> cases kind <;> simp [Strategy.of?, Operator.negate?]

/-- A prepared condition and its negation exclude each other, and one of them accepts a value that
is present. -/
lemma Prepared.acceptsValue_negated (hc : c.Prepared r entity) (hturns : c.Turns true) (v : Value) :
    (c.acceptsValue v && c.negated.acceptsValue v) = false ∧
      (v.Fits r c.property.type → v.isNull = false →
        c.negated.acceptsValue v = !c.acceptsValue v) := by
  obtain ⟨m, -, hm, hready, -⟩ := hc.exists_ready
  obtain ⟨m', -, hm', hstrategy, -⟩ := exists_test hc
  obtain rfl := Except.ok.inj (hm.symm.trans hm')
  have hs := ne_ordering_of_turns hturns hstrategy
  have hmake : Matcher.make m.strategy c.operands = .ok m := by
    simpa [matcher, Strategy.require, hstrategy] using hm
  have hnegated : c.negated.matcher = .ok (m.turned true) := by
    simp [matcher, Strategy.require, Strategy.of?_turned, hstrategy, Matcher.make_turned hmake]
  simp only [acceptsValue, hm, hnegated]
  exact ⟨Matcher.accepts_and_turned hs v, Matcher.accepts_turned hs hstrategy hready⟩

end Condition

/-! ### Predicates -/

/-- If each condition excludes its negation, so does the predicate its dual; and if one of the two
holds for each condition, then so for the predicate. -/
lemma Predicate.holds_dual (test : Condition → Bool) (p : Predicate Condition)
    (excludes : ∀ c ∈ p.conditions, (test c && test c.negated) = false) :
    (p.holds test && (p.behind [] true).holds test) = false ∧
      ((∀ c ∈ p.conditions, test c.negated = !test c) →
        (p.behind [] true).holds test = !p.holds test) := by
  have hdual : (p.behind [] true).holds test = !p.holds fun c => !test c.negated := by
    rw [behind, holds_turned]
    simp
  constructor
  · cases hp : p.holds test with
    | false => rfl
    | true =>
      have hmono := p.holds_mono (t := fun c => !test c.negated)
        (fun c hc h => by simpa [h] using excludes c hc) hp
      rw [hdual, hmono]
      rfl
  · intro hone
    rw [hdual, p.holds_congr fun c hc => ?_]
    simp [hone c hc]

/-- What a condition on a path of single values says about an instance. -/
def Condition.decides {ι : Type} [Instance ι] (i : ι) (c : Condition) : Bool :=
  c.acceptsValue (PropertyRef.valueAt i c.property.names)

/-- Either way of running conditions on paths of single values comes to what they decide. -/
lemma Predicate.exists_decided {ι : Type} [Instance ι] {t : Predicate Condition}
    (ht : ∀ c ∈ t.conditions, c.Prepared r entity)
    (hsingle : ∀ c ∈ t.conditions, c.property.isMultiValued = false) :
    ∃ f b, Filter.compile t = .ok f ∧ BooleanExpression.ofPredicate t = .ok b ∧
      ∀ i : ι, r.Fits entity i → f.accepts i = t.holds (Condition.decides i) ∧
        b.evaluate i = t.holds (Condition.decides i) := by
  obtain ⟨f, hf, haccepts⟩ := Filter.exists_compile (ι := ι) fun c hc => by
    obtain ⟨m, -, hm, -⟩ := (ht c hc).exists_ready
    exact ⟨m, hm⟩
  obtain ⟨b, hb, heval⟩ := BooleanExpression.exists_ofPredicate (ι := ι) fun c hc => by
    obtain ⟨-, b, -, -, hb, -⟩ := (ht c hc).exists_ready
    exact ⟨b, hb⟩
  refine ⟨f, b, hf, hb, fun i hi => ?_⟩
  have hdecided := fun c hc =>
    Condition.found_eq_acceptsValue (ht c hc) rfl (hsingle c hc) hi
  rw [haccepts, heval]
  exact ⟨t.holds_congr fun c hc => (hdecided c hc).1, t.holds_congr fun c hc => (hdecided c hc).2⟩

/-! ### Preparation -/

/-- An operator and its negation take the same operands. -/
lemma Registry.operandsOf_negated {path : PropertyPath} {c : RawCondition} {operator : Operator}
    {vs : List Value} (hop : c.operator.negate? = some operator)
    (h : r.operandsOf context path c = .ok vs) :
    r.operandsOf context path ⟨c.property, operator, c.operand?⟩ = .ok vs := by
  have hunary : operator.isUnary = c.operator.isUnary := by
    cases hc : c.operator <;> simp [hc, Operator.negate?] at hop <;> subst hop <;> rfl
  have hlist : operator.acceptsList = c.operator.acceptsList := by
    cases hc : c.operator <;> simp [hc, Operator.negate?] at hop <;> subst hop <;> rfl
  unfold operandsOf at h ⊢
  simp only [hunary, hlist]
  cases ho : c.operand? with
  | none => cases hu : c.operator.isUnary <;> simp_all
  | some o =>
    cases hu : c.operator.isUnary with
    | true => simp [ho, hu] at h
    | false => cases o <;> cases ha : c.operator.acceptsList <;> simp_all

/-- **Preparing a negation** yields the dual of what preparing the condition yields. -/
lemma Registry.prepareCondition_negated {e : EntityDef} {c : RawCondition} {operator : Operator}
    {t : Predicate Condition} (hop : c.operator.negate? = some operator)
    (h : r.prepareCondition context e c = .ok t) :
    r.prepareCondition context e ⟨c.property, operator, c.operand?⟩ = .ok (t.behind [] true) ∧
      ∀ d ∈ t.conditions, d.Turns true := by
  obtain ⟨path, vs, hpath, hvs, hsettle⟩ := exists_of_prepareCondition h
  have hturns : Condition.Turns true ⟨path, c.operator, vs⟩ := fun _ => by simp [hop]
  have hnegated : Condition.negated ⟨path, c.operator, vs⟩ = ⟨path, operator, vs⟩ := by
    simp [Condition.turned, Operator.turned, hop, PropertyPath.behind]
  refine ⟨?_, (sides_of_settle hsettle).turns hturns⟩
  simp [prepareCondition, hpath, operandsOf_negated hop hvs, ← hnegated,
    settle_turned hturns hsettle]

lemma RawQuery.prepare_negated {c : RawCondition} {operator : Operator} {p : PreparedQuery}
    (hop : c.operator.negate? = some operator)
    (hp : RawQuery.prepare r context entity (.of (.cond c)) = .ok p) :
    ∃ t, p = .of t ∧ RawQuery.prepare r context entity
      (.of (.cond ⟨c.property, operator, c.operand?⟩)) = .ok (.of (t.behind [] true)) ∧
      ∀ d ∈ t.conditions, d.Turns true := by
  obtain ⟨e, t, he, hmap, rfl⟩ := prepare_of_eq_ok.mp hp
  rw [Predicate.mapM] at hmap
  obtain ⟨hnegated, hturns⟩ := Registry.prepareCondition_negated hop hmap
  exact ⟨t, rfl, prepare_of_eq_ok.mpr ⟨e, _, he, by rw [Predicate.mapM, hnegated], rfl⟩, hturns⟩

/-- **A negated operator is the complement.** Let a condition with an operator that has a negation
be prepared, to conditions on paths of single values. Then the same condition with the negation is
prepared to the dual predicate, in either way of running them no instance satisfies both, and an
instance on which all properties that they mention are present satisfies exactly one. -/
theorem complement_of_negated {ι : Type} [Instance ι] {c : RawCondition} {operator : Operator}
    {p : PreparedQuery} (hop : c.operator.negate? = some operator)
    (hp : RawQuery.prepare r context entity (.of (.cond c)) = .ok p)
    (hsingle : ∀ t ∈ p.predicate, ∀ d ∈ t.conditions, d.property.isMultiValued = false) :
    ∃ p' t t' f f' b b', RawQuery.prepare r context entity
        (.of (.cond ⟨c.property, operator, c.operand?⟩)) = .ok p' ∧
      p.predicate = some t ∧ p'.predicate = some t' ∧
      Filter.compile t = .ok f ∧ Filter.compile t' = .ok f' ∧
      BooleanExpression.ofPredicate t = .ok b ∧ BooleanExpression.ofPredicate t' = .ok b' ∧
      t'.conditions.map Condition.property = t.conditions.map Condition.property ∧
      ∀ i : ι, r.Fits entity i →
        (f.accepts i && f'.accepts i) = false ∧ (b.evaluate i && b'.evaluate i) = false ∧
        ((∀ d ∈ t.conditions, PropertyRef.valueAt i d.property.names ≠ .null) →
          f'.accepts i = (!f.accepts i) ∧ b'.evaluate i = !b.evaluate i) := by
  obtain ⟨t, rfl, hp', hturns⟩ := RawQuery.prepare_negated hop hp
  have hprepared : ∀ d ∈ t.conditions, d.Prepared r entity := RawQuery.prepared_of_prepare hp rfl
  have hprepared' : ∀ d ∈ (t.behind [] true).conditions, d.Prepared r entity :=
    RawQuery.prepared_of_prepare hp' rfl
  have hproperties : (t.behind [] true).conditions.map Condition.property =
      t.conditions.map Condition.property := by
    rw [Predicate.conditions_turned, List.map_map]
    rfl
  have hsingle' : ∀ d ∈ (t.behind [] true).conditions, d.property.isMultiValued = false := by
    intro d hd
    have hmem : d.property ∈ t.conditions.map Condition.property :=
      hproperties ▸ List.mem_map_of_mem hd
    obtain ⟨c, hc, hcd⟩ := List.mem_map.mp hmem
    exact hcd ▸ hsingle t rfl c hc
  obtain ⟨f, b, hf, hb, hdecided⟩ := Predicate.exists_decided (ι := ι) hprepared (hsingle t rfl)
  obtain ⟨f', b', hf', hb', hdecided'⟩ := Predicate.exists_decided (ι := ι) hprepared' hsingle'
  refine ⟨_, t, _, f, f', b, b', hp', rfl, rfl, hf, hf', hb, hb', hproperties, fun i hi => ?_⟩
  have hvalue := fun d hd =>
    (hprepared d hd).acceptsValue_negated (hturns d hd) (PropertyRef.valueAt i d.property.names)
  obtain ⟨hboth, hone⟩ := t.holds_dual (Condition.decides i) fun d hd => (hvalue d hd).1
  rw [(hdecided i hi).1, (hdecided i hi).2, (hdecided' i hi).1, (hdecided' i hi).2]
  refine ⟨hboth, hboth, fun hpresent => ?_⟩
  have hdual := hone fun d hd => (hvalue d hd).2
    (hi.valueAt (hprepared d hd).admitted (hsingle t rfl d hd))
    (Condition.isNull_eq_false (hpresent d hd))
  exact ⟨hdual, hdual⟩

open Staff in
/-- Representatives whose boss has no name or one with a double n in it, and the others: nobody is
among both, and Joe, whose boss has a name, is among one of them. -/
theorem complement_of_negated_representatives :
    ∃ p p' t t' f f' b b', RawQuery.prepare (registry (some .ignoreCase)) Staff.context
        "Representative" (.of (.cond bossWithDoubleN)) = .ok p ∧
      RawQuery.prepare (registry (some .ignoreCase)) Staff.context "Representative"
        (.of (.cond ⟨bossWithDoubleN.property, .notContains, bossWithDoubleN.operand?⟩)) = .ok p' ∧
      p.predicate = some t ∧ p'.predicate = some t' ∧
      Filter.compile t = .ok f ∧ Filter.compile t' = .ok f' ∧
      BooleanExpression.ofPredicate t = .ok b ∧ BooleanExpression.ofPredicate t' = .ok b' ∧
      (∀ i ∈ [john, joe], (f.accepts i && f'.accepts i) = false ∧
        (b.evaluate i && b'.evaluate i) = false) ∧
      f'.accepts joe = (!f.accepts joe) ∧ b'.evaluate joe = !b.evaluate joe := by
  have hfits : ∀ i ∈ [john, joe], (registry (some .ignoreCase)).Fits "Representative" i := by
    simp only [List.mem_cons, List.not_mem_nil, or_false]
    rintro i (rfl | rfl) <;> exact ⟨_, types, rfl⟩
  have hmentioned : ∀ d ∈ Predicate.conditions (C := Condition)
      (.anyOf [.cond ⟨nameOfBoss, .isNull, []⟩, .cond ⟨nameOfBoss, .ilike, [.text "%NN%"]⟩]),
      d.property = nameOfBoss := by
    simp
  obtain ⟨p', t, t', f, f', b, b', hp', ht, ht', hf, hf', hb, hb', -, hdecided⟩ :=
    complement_of_negated (ι := Staff) (c := bossWithDoubleN) rfl prepare_bossWithDoubleN
      fun t ht d hd => by
        cases ht
        rw [hmentioned d hd]
        rfl
  refine ⟨_, p', t, t', f, f', b, b', prepare_bossWithDoubleN, hp', ht, ht', hf, hf', hb, hb',
    fun i hi => ?_, ?_⟩
  · obtain ⟨haccepts, hevaluates, -⟩ := hdecided i (hfits i hi)
    exact ⟨haccepts, hevaluates⟩
  · obtain ⟨-, -, hone⟩ := hdecided joe (hfits joe (by simp))
    refine hone fun d hd => ?_
    cases ht
    rw [hmentioned d hd]
    simp [nameOfBoss, PropertyPath.names, PropertyPath.segments, PropertyRef.valueAt,
      Instance.related, Instance.valueOf]

end EntityQuery
