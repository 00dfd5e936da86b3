import EntityQuery.Proofs.Execution.Complement
import EntityQuery.Proofs.Preparation.Combined
import EntityQuery.Proofs.Preparation.Spread

/-!
# Membership in a list and the comparisons it stands for

A value is in a list if it equals one of its elements, and it is not if it is present and differs
from all of them. Prepared queries say the same wherever an equality remains an equality. The
comparisons say more in two places: the empty text stands for absence as well, and a property that
disregards case is compared by patterns, while a list is searched as it is written.
-/

namespace EntityQuery

variable {r : Registry} {context : QueryContext} {entity : String}

/-! ### What conditions and their negations accept -/

namespace Strategy

variable {kind : PropertyKind} {s : Strategy}

lemma of?_isIn (h : of? .isIn kind = some s) : s = .membership false := by
  cases kind <;> simp [of?] at h <;> subst h <;> rfl

lemma of?_eq (h : of? .eq kind = some s) : s = .equality false := by
  cases kind <;> simp [of?] at h <;> subst h <;> rfl

lemma of?_isNull (h : of? .isNull kind = some s) : s = .nullness false := by
  cases kind <;> simp [of?] at h <;> subst h <;> rfl

lemma of?_ilike (h : of? .ilike kind = some s) : kind = .text ∧ s = .pattern true false := by
  cases kind <;> simp [of?] at h
  exact ⟨rfl, h.symm⟩

end Strategy

namespace Condition

variable {c : Condition} {v x : Value} (dual : Bool)

/-- A prepared condition, turned or not, is tested by one matcher, turned or not. -/
lemma Prepared.exists_turned (hc : c.Prepared r entity) :
    ∃ m : Matcher, Strategy.of? c.operator c.property.kind = some m.strategy ∧
      m.operands = c.operands ∧
      (∀ i n t, m.strategy = .pattern i n → c.operands = [.text t] →
        ∃ pieces, Pattern.pieces? t.toList = some pieces ∧ m.pattern? = some ⟨pieces, i⟩) ∧
      ∀ dual v, (c.turned [] dual).acceptsValue v = (m.turned dual).accepts v := by
  obtain ⟨s, hs⟩ := exists_strategy_of_check hc.checked
  have htakes := takes_of_check hs hc.unary hc.checked
  obtain ⟨m, hm, rfl, hops, hpattern⟩ := Matcher.make_of_takes htakes
  refine ⟨m, hs, hops, hpattern, fun dual v => ?_⟩
  have hmatcher : (c.turned [] dual).matcher = .ok (m.turned dual) := by
    simp [matcher, Strategy.require, Strategy.of?_turned, hs, Matcher.make_turned hm]
  rw [acceptsValue, hmatcher]

lemma Prepared.accepts_isIn (hc : c.Prepared r entity) (hop : c.operator = .isIn) :
    (c.turned [] dual).acceptsValue v = (!v.isNull && (c.operands.any v.sameAs != dual)) := by
  obtain ⟨m, hs, hops, -, haccepts⟩ := hc.exists_turned
  have hstrategy := Strategy.of?_isIn (hop ▸ hs)
  simp [haccepts, Matcher.accepts, Strategy.turned, hstrategy, hops]

lemma Prepared.accepts_eq (hc : c.Prepared r entity) (hop : c.operator = .eq)
    (hx : c.operands = [x]) :
    (c.turned [] dual).acceptsValue v = (!v.isNull && (v.sameAs x != dual)) := by
  obtain ⟨m, hs, hops, -, haccepts⟩ := hc.exists_turned
  have hstrategy := Strategy.of?_eq (hop ▸ hs)
  simp [haccepts, Matcher.accepts, Strategy.turned, hstrategy, Matcher.operand, hops, hx]

lemma Prepared.accepts_isNull (hc : c.Prepared r entity) (hop : c.operator = .isNull) :
    (c.turned [] dual).acceptsValue v = (v.isNull != dual) := by
  obtain ⟨m, hs, -, -, haccepts⟩ := hc.exists_turned
  have hstrategy := Strategy.of?_isNull (hop ▸ hs)
  simp [haccepts, Matcher.accepts, Strategy.turned, hstrategy]

/-- A text that a value equals is spelled by its own pattern, whatever the case. -/
lemma Prepared.accepts_ilike {s : String} (hc : c.Prepared r entity) (hop : c.operator = .ilike)
    (hs : c.operands = [.text (escapeLike s)]) (hv : v.Fits r c.property.type) :
    (c.turned [] dual).acceptsValue v = (!v.isNull && (v.equals true (.text s) != dual)) := by
  obtain ⟨m, hstrategy, hops, hpattern, haccepts⟩ := hc.exists_turned
  obtain ⟨hkind, hstrategy⟩ := Strategy.of?_ilike (hop ▸ hstrategy)
  obtain ⟨pieces, hpieces, hm⟩ := hpattern true false _ hstrategy hs
  have hturned : (m.turned dual).strategy = .pattern true dual := by
    simp [Strategy.turned, hstrategy]
  have htext := hv.text_or_null hkind
  rw [haccepts, accepts_pattern hturned hm hpieces htext, Translator.equals_text hv (.inl hkind) s]
  rcases htext with rfl | ⟨t, rfl⟩ <;> rfl

end Condition

/-- Values that are the same are equal with the case disregarded. -/
lemma Value.equals_of_sameAs {v x : Value} (h : v.sameAs x = true) : v.equals true x = true := by
  unfold equals
  split
  · rename_i s t
    rw [text_sameAs_text, beq_iff_eq] at h
    simp [h, sameText]
  · exact h

/-- The negations of alternatives hold together. -/
lemma Predicate.Only.holds_behind {p : Predicate Condition} (h : p.Only .or)
    (test : Condition → Bool) : (p.behind [] true).holds test = true ↔
      ∀ d ∈ p.conditions, test d.negated = true := by
  have hfalse := h.holds_iff_any fun d => !test d.negated
  rw [behind, holds_turned]
  simp only [Bool.bne_true, Bool.not_eq_true', ← Bool.not_eq_true, hfalse]
  simp

/-! ### A list and its elements -/

/-- A membership in a list that is settled, and the equalities with the elements of the list that
are settled beside it. -/
structure Comparisons (r : Registry) (entity : String) (path : PropertyPath) (vs : List Value)
    (t u : Predicate Condition) : Prop where
  some : vs ≠ []
  present : ∀ x ∈ vs, x.isNull = false
  membership : r.settle ⟨path, .isIn, vs⟩ = .ok t
  stems : ∀ d ∈ u.conditions, ∃ x ∈ vs, ∃ a, r.settle ⟨path, .eq, [x]⟩ = .ok a ∧ d ∈ a.conditions
  covers : ∀ x ∈ vs, ∃ a, r.settle ⟨path, .eq, [x]⟩ = .ok a ∧ a.conditions ⊆ u.conditions
  only : u.Only .or
  checked : ∀ d ∈ t.conditions ++ u.conditions, d.Prepared r entity

namespace Comparisons

variable {path : PropertyPath} {vs : List Value} {t u : Predicate Condition} {d : Condition}
  {x : Value}

lemma isIn (h : Comparisons r entity path vs t u) (hd : d ∈ t.conditions) :
    d.operator = .isIn ∧ d.operands = vs ∧ d.Prepared r entity := by
  obtain ⟨hop, hvs⟩ := Registry.isIn_of_settle h.present h.membership d hd
  exact ⟨hop, hvs, h.checked d (List.mem_append_left _ hd)⟩

/-- Beside whatever remains of the equalities, the membership remains. -/
lemma isIn_mem (h : Comparisons r entity path vs t u) (hd : d ∈ u.conditions) :
    ⟨d.property, .isIn, vs⟩ ∈ t.conditions := by
  obtain ⟨x, -, a, ha, hda⟩ := h.stems d hd
  exact Registry.isIn_mem_of_mem h.present h.membership ha hda

/-- Beside the membership, every equality remains, or the pattern that it becomes. -/
lemma eq_mem (h : Comparisons r entity path vs t u) (hd : d ∈ t.conditions) (hx : x ∈ vs) :
    ⟨d.property, .eq, [x]⟩ ∈ u.conditions ∨ ∃ s, x = .text s ∧
      ⟨d.property, .ilike, [.text (escapeLike s)]⟩ ∈ u.conditions := by
  obtain ⟨a, ha, hsub⟩ := h.covers x hx
  rcases Registry.eq_mem_of_mem (h.present x hx) h.membership ha hd with hmem | ⟨s, hs, hmem⟩
  · exact .inl (hsub hmem)
  · exact .inr ⟨s, hs, hsub hmem⟩

/-- What remains of the equalities. -/
lemma cases_of_mem (h : Comparisons r entity path vs t u) (hd : d ∈ u.conditions) :
    (d.operator = .eq ∧ ∃ x ∈ vs, d.operands = [x]) ∨ (d.operator = .isNull ∧ .text "" ∈ vs) ∨
      (d.operator = .ilike ∧ r.IgnoresCase d.property ∧
        ∃ s, .text s ∈ vs ∧ d.operands = [.text (escapeLike s)]) := by
  obtain ⟨x, hx, a, ha, hda⟩ := h.stems d hd
  cases Registry.stemsFrom_of_settle (h.present x hx) ha d hda with
  | same hop hvs => exact .inl ⟨hop, x, hx, hvs⟩
  | pattern hcase hop hvs htext => exact .inr (.inr ⟨hop, hcase, _, htext ▸ hx, hvs⟩)
  | absence hop hvs hblank =>
    refine .inr (.inl ⟨hop.resolve_right fun hempty => ?_, hblank ▸ hx⟩)
    -- only a collection may be empty, and none is searched for in a list
    obtain ⟨s, hs⟩ := Condition.exists_strategy_of_check
      (h.checked d (List.mem_append_right _ hd)).checked
    obtain ⟨s', hs'⟩ := Condition.exists_strategy_of_check
      (h.checked _ (List.mem_append_left _ (h.isIn_mem hd))).checked
    rw [hempty] at hs
    cases hk : d.property.kind <;> simp [hk, Strategy.of?] at hs hs'

lemma operand_of_eq (h : Comparisons r entity path vs t u) (hd : d ∈ u.conditions)
    (hop : d.operator = .eq) : ∃ x ∈ vs, d.operands = [x] := by
  rcases h.cases_of_mem hd with ⟨-, hx⟩ | ⟨hop', -⟩ | ⟨hop', -⟩
  · exact hx
  · cases hop.symm.trans hop'
  · cases hop.symm.trans hop'

/-! ### Truth -/

variable {ι : Type} [Instance ι] {i : ι} (dual : Bool)

/-- The membership, or its negation, is decided by the elements of the list. -/
lemma decides_isIn (h : Comparisons r entity path vs t u) (hd : d ∈ t.conditions) :
    (d.turned [] dual).decides i =
      (!(PropertyRef.valueAt i d.property.names).isNull &&
        (vs.any (PropertyRef.valueAt i d.property.names).sameAs != dual)) := by
  obtain ⟨hop, rfl, hprepared⟩ := h.isIn hd
  exact hprepared.accepts_isIn dual hop

/-- An equality that remains, or its negation, is decided by its element. -/
lemma decides_eq (h : Comparisons r entity path vs t u) (hd : d ∈ u.conditions)
    (hop : d.operator = .eq) (hx : d.operands = [x]) :
    (d.turned [] dual).decides i =
      (!(PropertyRef.valueAt i d.property.names).isNull &&
        ((PropertyRef.valueAt i d.property.names).sameAs x != dual)) :=
  (h.checked d (List.mem_append_right _ hd)).accepts_eq dual hop hx

/-- A pattern in place of an equality, or its negation, is decided by its text in any case. -/
lemma decides_ilike {s : String} (h : Comparisons r entity path vs t u)
    (hsingle : ∀ d ∈ t.conditions, d.property.isMultiValued = false) (hi : r.Fits entity i)
    (hd : d ∈ u.conditions) (hop : d.operator = .ilike)
    (hs : d.operands = [.text (escapeLike s)]) : (d.turned [] dual).decides i =
      (!(PropertyRef.valueAt i d.property.names).isNull &&
        ((PropertyRef.valueAt i d.property.names).equals true (.text s) != dual)) := by
  have hprepared := h.checked d (List.mem_append_right _ hd)
  have hproperty := hsingle _ (h.isIn_mem hd)
  exact hprepared.accepts_ilike dual hop hs (hi.valueAt hprepared.admitted hproperty)

/-- **Membership asserted.** One of the equalities holds if the value is in the list, or if one of
the conditions holds that are no equalities any more. -/
lemma holds_eq (h : Comparisons r entity path vs t u) (hi : r.Fits entity i)
    (hsingle : ∀ d ∈ t.conditions, d.property.isMultiValued = false) :
    u.holds (Condition.decides i) = (t.holds (Condition.decides i) ||
      (u.conditions.filter fun d => d.operator != .eq).any (Condition.decides i)) := by
  have hmember : t.Only .or := (Registry.sides_of_settle h.membership).only
  rw [Bool.eq_iff_iff, Bool.or_eq_true, h.only.holds_iff_any, hmember.holds_iff_any,
    List.any_eq_true]
  constructor
  · rintro ⟨d, hd, hdecides⟩
    by_cases hop : d.operator = .eq
    · obtain ⟨x, hx, hvs⟩ := h.operand_of_eq hd hop
      have hequal := (h.decides_eq (i := i) false hd hop hvs).symm.trans hdecides
      simp only [Bool.bne_false, Bool.and_eq_true] at hequal
      refine .inl ⟨_, h.isIn_mem hd, (h.decides_isIn false (h.isIn_mem hd)).trans ?_⟩
      simp only [Bool.bne_false, Bool.and_eq_true, List.any_eq_true]
      exact ⟨hequal.1, x, hx, hequal.2⟩
    · exact .inr ⟨d, List.mem_filter.mpr ⟨hd, by simpa using hop⟩, hdecides⟩
  · rintro (⟨d, hd, hdecides⟩ | ⟨d, hd, hdecides⟩)
    · have hmember := (h.decides_isIn (i := i) false hd).symm.trans hdecides
      simp only [Bool.bne_false, Bool.and_eq_true, List.any_eq_true] at hmember
      obtain ⟨hpresent, x, hx, hsame⟩ := hmember
      rcases h.eq_mem hd hx with hmem | ⟨s, rfl, hmem⟩
      · refine ⟨_, hmem, (h.decides_eq false hmem rfl rfl).trans ?_⟩
        simp only [Bool.bne_false, Bool.and_eq_true]
        exact ⟨hpresent, hsame⟩
      · refine ⟨_, hmem, (h.decides_ilike false hsingle hi hmem rfl rfl).trans ?_⟩
        simp only [Bool.bne_false, Bool.and_eq_true]
        exact ⟨hpresent, Value.equals_of_sameAs hsame⟩
    · exact ⟨d, List.mem_of_mem_filter hd, hdecides⟩

/-- **Membership denied.** All inequalities hold if the value is present and not in the list, and if
all those conditions hold that deny a pattern. -/
lemma holds_ne (h : Comparisons r entity path vs t u) (hi : r.Fits entity i)
    (hsingle : ∀ d ∈ t.conditions, d.property.isMultiValued = false) :
    (u.behind [] true).holds (Condition.decides i) =
      ((t.behind [] true).holds (Condition.decides i) &&
        ((u.behind [] true).conditions.filter fun d => d.operator == .notIlike).all
          (Condition.decides i)) := by
  have hmember : t.Only .or := (Registry.sides_of_settle h.membership).only
  rw [Bool.eq_iff_iff, Bool.and_eq_true, h.only.holds_behind, hmember.holds_behind,
    List.all_eq_true]
  constructor
  · intro hall
    refine ⟨fun d hd => ?_, fun d hd => ?_⟩
    · -- the value is present and differs from every element
      have hdiffers : ∀ x ∈ vs, (PropertyRef.valueAt i d.property.names).isNull = false ∧
          (PropertyRef.valueAt i d.property.names).sameAs x = false := by
        intro x hx
        rcases h.eq_mem hd hx with hmem | ⟨s, rfl, hmem⟩
        · simpa using (h.decides_eq true hmem rfl rfl).symm.trans (hall _ hmem)
        · have hunlike :=
            (h.decides_ilike true hsingle hi hmem rfl rfl).symm.trans (hall _ hmem)
          simp only [Bool.bne_true, Bool.and_eq_true, Bool.not_eq_true'] at hunlike
          refine ⟨hunlike.1, Bool.eq_false_iff.mpr fun hsame => ?_⟩
          rw [Value.equals_of_sameAs hsame] at hunlike
          cases hunlike.2
      obtain ⟨x, hx⟩ := List.exists_mem_of_ne_nil vs h.some
      refine (h.decides_isIn true hd).trans ?_
      simpa [(hdiffers x hx).1] using fun x hx => (hdiffers x hx).2
    · rw [Predicate.conditions_turned] at hd
      obtain ⟨c, hc, rfl⟩ := List.mem_map.mp (List.mem_of_mem_filter hd)
      exact hall c hc
  · rintro ⟨hdiffers, hpatterns⟩ d hd
    have hvalue := (h.decides_isIn true (h.isIn_mem hd)).symm.trans
      (hdiffers _ (h.isIn_mem hd))
    simp only [Bool.bne_true, Bool.and_eq_true, Bool.not_eq_true', List.any_eq_false] at hvalue
    rcases h.cases_of_mem hd with ⟨hop, x, hx, hvs⟩ | ⟨hop, -⟩ | ⟨hop, -⟩
    · refine (h.decides_eq true hd hop hvs).trans ?_
      simpa [hvalue.1] using hvalue.2 x hx
    · have hprepared := h.checked d (List.mem_append_right _ hd)
      refine (hprepared.accepts_isNull true hop).trans ?_
      exact congrArg (· != true) hvalue.1
    · refine hpatterns _ (List.mem_filter.mpr ⟨?_, ?_⟩)
      · rw [Predicate.conditions_turned]
        exact List.mem_map_of_mem hd
      · simp [hop, Operator.turned, Operator.negate?]

end Comparisons

/-! ### Queries -/

/-- The comparisons of a path with each of several operands. -/
def comparisons (path : String) (operator : Operator) (xs : List Operand) :
    List (Predicate RawCondition) :=
  xs.map fun x => .cond ⟨path, operator, some x⟩

namespace PreparedQuery

variable {ι : Type} [Instance ι]

/-- The conditions of a prepared query. -/
def conditions (q : PreparedQuery) : List Condition :=
  (q.predicate.map Predicate.conditions).getD []

/-- Either way of running a prepared query selects an instance, or neither does. -/
def Selects (q : PreparedQuery) (i : ι) (selected : Bool) : Prop :=
  q.accepts i = .ok selected ∧ q.evaluates i = .ok selected

/-- On paths of single values the truth of the predicate is what selects an instance. -/
lemma selects_of_prepare {q : RawQuery} {t : Predicate Condition} {i : ι}
    (h : q.prepare r context entity = .ok (.of t))
    (hsingle : ∀ d ∈ t.conditions, d.property.isMultiValued = false) (hi : r.Fits entity i) :
    Selects (.of t) i (t.holds (Condition.decides i)) := by
  obtain ⟨haccepts, hevaluates⟩ := accepts_and_evaluates_of_prepare h i
  have hdecided := fun d hd => Condition.found_eq_acceptsValue
    (RawQuery.prepared_of_prepare h rfl d hd) rfl (hsingle d hd) hi
  refine ⟨haccepts.trans (congrArg Except.ok ?_), hevaluates.trans (congrArg Except.ok ?_)⟩
  · exact t.holds_congr fun d hd => (hdecided d hd).1
  · exact t.holds_congr fun d hd => (hdecided d hd).2

end PreparedQuery

namespace RawQuery

variable {raw : Predicate RawCondition} {p : PreparedQuery} {path : String} {xs : List Operand}
  {u : Predicate Condition}

/-- The comparisons that are denied are prepared to the dual of those that are asserted. -/
lemma prepare_comparisons_negated
    (h : prepare r context entity (.of (.anyOf (comparisons path .eq xs))) = .ok (.of u)) :
    prepare r context entity (.of (.allOf (comparisons path .ne xs))) =
      .ok (.of (u.behind [] true)) := by
  obtain ⟨e, u', he, hmap, hu⟩ := prepare_of_eq_ok.mp h
  obtain rfl : u = u' := Option.some.inj (congrArg Query.predicate hu)
  let denied (c : RawCondition) : RawCondition := ⟨c.property, .ne, c.operand?⟩
  have hdual : Predicate.allOf (comparisons path .ne xs) =
      (Predicate.anyOf (comparisons path .eq xs)).turned true denied := by
    rw [Predicate.anyOf, ← Predicate.join_turned, comparisons, comparisons, List.map_map]
    refine congrArg Predicate.allOf (List.map_congr_left fun x _ => ?_)
    rw [Function.comp_apply, Predicate.turned_cond]
  rw [hdual]
  refine prepare_of_eq_ok.mpr ⟨e, _, he, Predicate.mapM_turned hmap fun c hc a ha => ?_, rfl⟩
  have hop : c.operator = .eq := by
    simp only [comparisons, Predicate.conditions_anyOf, List.flatMap_map] at hc
    obtain ⟨x, -, hx⟩ := List.mem_flatMap.mp hc
    rw [Predicate.conditions_cond, List.mem_singleton] at hx
    rw [hx]
  exact (Registry.prepareCondition_negated (by rw [hop]; rfl) ha).1

end RawQuery

/-- The operands of a condition with a list, and of one with a single operand. -/
lemma Registry.exists_of_operandsOf_eq {path : PropertyPath} {property : String} {x : Operand}
    {vs : List Value} (h : r.operandsOf context path ⟨property, .eq, some x⟩ = .ok vs) :
    ∃ v, r.coerce context path.text path.type x = .ok v ∧ vs = [v] := by
  have hlist : ∀ items, x ≠ .list items := by
    rintro items rfl
    simp [operandsOf, Operator.isUnary, Operator.acceptsList] at h
  rw [operandsOf_single rfl hlist] at h
  obtain ⟨v, hv, rfl⟩ := exists_of_map_eq_ok h
  exact ⟨v, hv, rfl⟩

/-- What preparing a membership and the equalities beside it comes to. -/
lemma exists_comparisons {path : String} {xs : List Operand} {member either : PreparedQuery}
    (nonempty : xs ≠ []) (present : ∀ x ∈ xs, x ≠ .null ∧ x ≠ .value .null)
    (hmember : RawQuery.prepare r context entity
      (.of (.cond ⟨path, .isIn, some (.list xs)⟩)) = .ok member)
    (heither : RawQuery.prepare r context entity
      (.of (.anyOf (comparisons path .eq xs))) = .ok either) :
    ∃ q vs t u, r.resolve entity path = .ok q ∧
      r.operandsOf context q.path ⟨path, .isIn, some (.list xs)⟩ = .ok vs ∧
      member = .of t ∧ either = .of u ∧ Comparisons r entity q.path vs t u := by
  obtain ⟨e, l, vs, t, he, hpath, hvs, hsettle, rfl⟩ := RawQuery.prepare_cond_eq_ok.mp hmember
  obtain ⟨e', u, he', hmap, rfl⟩ := RawQuery.prepare_of_eq_ok.mp heither
  obtain rfl := Option.some.inj (he.symm.trans he')
  obtain ⟨q, hq, rfl⟩ := Registry.exists_resolved_of_pathOf hpath
  have hall := (Registry.operandsOf_list rfl path).symm.trans hvs
  obtain ⟨hlength, hsources⟩ := Registry.coerceAll_eq_ok hall
  -- each equality is prepared with the element that its operand became in the list
  have hconditions : ∀ c ∈ (Predicate.anyOf (comparisons path .eq xs)).conditions, ∃ x ∈ xs,
      c = ⟨path, .eq, some x⟩ := by
    intro c hc
    simp only [comparisons, Predicate.conditions_anyOf, List.flatMap_map] at hc
    obtain ⟨x, hx, hcx⟩ := List.mem_flatMap.mp hc
    exact ⟨x, hx, by simpa using hcx⟩
  have hprepared : ∀ x ∈ xs, ∀ a, r.prepareCondition context e ⟨path, .eq, some x⟩ = .ok a →
      ∃ v ∈ vs, r.coerce context q.path.text q.path.type x = .ok v ∧
        r.settle ⟨q.path, .eq, [v]⟩ = .ok a := by
    intro x hx a ha
    obtain ⟨l, ws, hl, hws, ha⟩ := Registry.exists_of_prepareCondition ha
    obtain rfl := Except.ok.inj (hpath.symm.trans hl)
    obtain ⟨v, hv, rfl⟩ := Registry.exists_of_operandsOf_eq hws
    obtain ⟨v', hmem, hv'⟩ := Registry.exists_mem_of_coerceAll hall hx
    obtain rfl := Except.ok.inj (hv.symm.trans hv')
    exact ⟨v, hmem, hv, ha⟩
  refine ⟨q, vs, t, u, Registry.entity?_name he ▸ hq, hvs, rfl, rfl, ?_, ?_, hsettle, ?_, ?_, ?_, ?_⟩
  · rintro rfl
    exact nonempty (List.length_eq_zero_iff.mp hlength.symm)
  · intro v hv
    obtain ⟨x, hx, hcoerce⟩ := hsources v hv
    exact Registry.present_of_coerce (present x hx).1 (present x hx).2 hcoerce
  · intro d hd
    obtain ⟨c, hc, a, ha, hda⟩ := (Predicate.mem_conditions_mapM hmap).mp hd
    obtain ⟨x, hx, rfl⟩ := hconditions c hc
    obtain ⟨v, hv, -, hsettle⟩ := hprepared x hx a ha
    exact ⟨v, hv, a, hsettle, hda⟩
  · intro v hv
    obtain ⟨x, hx, hcoerce⟩ := hsources v hv
    have hc : (⟨path, .eq, some x⟩ : RawCondition) ∈
        (Predicate.anyOf (comparisons path .eq xs)).conditions := by
      simpa [comparisons] using hx
    obtain ⟨a, ha⟩ := Predicate.exists_mapM_iff.mp ⟨u, hmap⟩ _ hc
    obtain ⟨v', -, hcoerce', hsettle⟩ := hprepared x hx a ha
    obtain rfl := Except.ok.inj (hcoerce.symm.trans hcoerce')
    exact ⟨a, hsettle, fun d hd => (Predicate.mem_conditions_mapM hmap).mpr ⟨_, hc, a, ha, hd⟩⟩
  · refine Predicate.only_mapM (Predicate.only_join fun p hp => ?_) hmap fun c hc a ha => ?_
    · obtain ⟨x, -, rfl⟩ := List.mem_map.mp hp
      exact .cond _
    · obtain ⟨x, hx, rfl⟩ := hconditions c hc
      obtain ⟨v, -, -, hsettle⟩ := hprepared x hx a ha
      exact (Registry.sides_of_settle hsettle).only
  · intro d hd
    rcases List.mem_append.mp hd with hd | hd
    · exact RawQuery.prepared_of_prepare hmember rfl d hd
    · exact RawQuery.prepared_of_prepare heither rfl d hd

/-- **Membership and comparisons.** Let a path be searched for in a list of operands that are not
null, and compared with each of them. The value is in the list, or not in it, where one of the
equalities holds, or all inequalities, except for what the comparisons became on the way: a test for
absence beside the empty text, and patterns for properties that disregard case. One of the equalities
also holds where such a condition does, and the inequalities also ask for all denied patterns. -/
theorem membership_eq_comparisons {ι : Type} [Instance ι] {path : String} {xs : List Operand}
    {member either : PreparedQuery} (nonempty : xs ≠ [])
    (present : ∀ x ∈ xs, x ≠ .null ∧ x ≠ .value .null)
    (hmember : RawQuery.prepare r context entity
      (.of (.cond ⟨path, .isIn, some (.list xs)⟩)) = .ok member)
    (heither : RawQuery.prepare r context entity
      (.of (.anyOf (comparisons path .eq xs))) = .ok either)
    (hsingle : ∀ d ∈ member.conditions, d.property.isMultiValued = false) :
    ∃ q vs others neither, r.resolve entity path = .ok q ∧
      r.operandsOf context q.path ⟨path, .isIn, some (.list xs)⟩ = .ok vs ∧
      RawQuery.prepare r context entity
        (.of (.cond ⟨path, .notIn, some (.list xs)⟩)) = .ok others ∧
      RawQuery.prepare r context entity
        (.of (.allOf (comparisons path .ne xs))) = .ok neither ∧
      (∀ d ∈ either.conditions, d.operator = .eq ∨ d.operator = .isNull ∧ .text "" ∈ vs ∨
        d.operator = .ilike ∧ r.IgnoresCase d.property) ∧
      (∀ d ∈ neither.conditions, d.operator = .ne ∨ d.operator = .isNotNull ∧ .text "" ∈ vs ∨
        d.operator = .notIlike ∧ r.IgnoresCase d.property) ∧
      ∀ i : ι, r.Fits entity i → ∃ inList notInList,
        member.Selects i inList ∧ others.Selects i notInList ∧
        either.Selects i (inList ||
          (either.conditions.filter fun d => d.operator != .eq).any (Condition.decides i)) ∧
        neither.Selects i (notInList &&
          (neither.conditions.filter fun d => d.operator == .notIlike).all
            (Condition.decides i)) := by
  obtain ⟨q, vs, t, u, hq, hvs, rfl, rfl, h⟩ :=
    exists_comparisons nonempty present hmember heither
  have hop : Operator.isIn.negate? = some .notIn := rfl
  obtain ⟨t', ht', hothers, -⟩ := RawQuery.prepare_negated hop hmember
  obtain rfl : t = t' := Option.some.inj (congrArg Query.predicate ht')
  have hneither := RawQuery.prepare_comparisons_negated heither
  have hsingle : ∀ d ∈ t.conditions, d.property.isMultiValued = false := hsingle
  have hsingleEither : ∀ d ∈ u.conditions, d.property.isMultiValued = false := by
    intro d hd
    have hmem := h.isIn_mem hd
    exact hsingle ⟨d.property, .isIn, vs⟩ hmem
  have hbehind : ∀ {p : Predicate Condition},
      (∀ d ∈ p.conditions, d.property.isMultiValued = false) →
      ∀ d ∈ (p.behind [] true).conditions, d.property.isMultiValued = false := by
    intro p hp d hd
    rw [Predicate.conditions_turned] at hd
    obtain ⟨c, hc, rfl⟩ := List.mem_map.mp hd
    exact hp c hc
  refine ⟨q, vs, _, _, hq, hvs, hothers, hneither, fun d hd => ?_, fun d hd => ?_, fun i hi => ?_⟩
  · rcases h.cases_of_mem hd with ⟨hop, -⟩ | hblank | ⟨hop, hcase, -⟩
    · exact .inl hop
    · exact .inr (.inl hblank)
    · exact .inr (.inr ⟨hop, hcase⟩)
  · have hd : d ∈ (u.behind [] true).conditions := hd
    rw [Predicate.conditions_turned] at hd
    obtain ⟨c, hc, rfl⟩ := List.mem_map.mp hd
    rcases h.cases_of_mem hc with ⟨hop, -⟩ | ⟨hop, hblank⟩ | ⟨hop, hcase, -⟩
    · exact .inl (by rw [Condition.turned_operator, hop]; rfl)
    · exact .inr (.inl ⟨by rw [Condition.turned_operator, hop]; rfl, hblank⟩)
    · exact .inr (.inr ⟨by rw [Condition.turned_operator, hop]; rfl, hcase⟩)
  · have heq := PreparedQuery.selects_of_prepare heither hsingleEither hi
    have hne := PreparedQuery.selects_of_prepare hneither (hbehind hsingleEither) hi
    rw [h.holds_eq hi hsingle] at heq
    rw [h.holds_ne hi hsingle] at hne
    exact ⟨_, _, PreparedQuery.selects_of_prepare hmember hsingle hi,
      PreparedQuery.selects_of_prepare hothers (hbehind hsingle) hi, heq, hne⟩

namespace Staff

/-- The names that bosses are searched for: one in capitals, and no name at all. -/
def names : List Operand :=
  [.string "ANN", .string ""]

lemma prepare_nameInList : RawQuery.prepare (registry (some .ignoreCase)) Staff.context
    "Representative" (.of (.cond ⟨"boss.name", .isIn, some (.list names)⟩)) =
      .ok (.of (.cond ⟨nameOfBoss, .isIn, [.text "ANN", .text ""]⟩)) := by
  cbv

lemma prepare_nameIsOne : RawQuery.prepare (registry (some .ignoreCase)) Staff.context
    "Representative" (.of (.anyOf (comparisons "boss.name" .eq names))) =
      .ok (.of (.or [.cond ⟨nameOfBoss, .ilike, [.text "ANN"]⟩, .cond ⟨nameOfBoss, .isNull, []⟩,
        .cond ⟨nameOfBoss, .ilike, [.text ""]⟩])) := by
  cbv

lemma fits_representatives {i : Staff} (hi : i ∈ [john, joe]) :
    (registry (some .ignoreCase)).Fits "Representative" i := by
  refine ⟨_, types, ?_⟩
  rcases List.mem_pair.mp hi with rfl | rfl <;> rfl

end Staff

open Staff in
/-- Neither boss has one of the names, as they are written: one is called Ann, the other is not
there. Both are equal to one of them, by a pattern and by an absence. -/
theorem membership_eq_comparisons_bosses :
    ∃ member either others neither,
      RawQuery.prepare (registry (some .ignoreCase)) Staff.context "Representative"
        (.of (.cond ⟨"boss.name", .isIn, some (.list names)⟩)) = .ok member ∧
      RawQuery.prepare (registry (some .ignoreCase)) Staff.context "Representative"
        (.of (.anyOf (comparisons "boss.name" .eq names))) = .ok either ∧
      RawQuery.prepare (registry (some .ignoreCase)) Staff.context "Representative"
        (.of (.cond ⟨"boss.name", .notIn, some (.list names)⟩)) = .ok others ∧
      RawQuery.prepare (registry (some .ignoreCase)) Staff.context "Representative"
        (.of (.allOf (comparisons "boss.name" .ne names))) = .ok neither ∧
      ∀ i ∈ [john, joe], member.Selects i false ∧ either.Selects i true := by
  have hsingle : ∀ d ∈ PreparedQuery.conditions
      (.of (.cond ⟨nameOfBoss, .isIn, [.text "ANN", .text ""]⟩)),
      d.property.isMultiValued = false := by
    intro d hd
    obtain rfl := List.mem_singleton.mp hd
    rfl
  obtain ⟨q, vs, others, neither, -, -, hothers, hneither, -, -, hselects⟩ :=
    membership_eq_comparisons (ι := Staff) (by simp [names]) (by simp [names])
      prepare_nameInList prepare_nameIsOne hsingle
  refine ⟨_, _, others, neither, prepare_nameInList, prepare_nameIsOne, hothers, hneither,
    fun i hi => ?_⟩
  obtain ⟨inList, notInList, hmember, -, heither, -⟩ := hselects i (fits_representatives hi)
  have hmissing : PreparedQuery.accepts i
      (.of (.cond ⟨nameOfBoss, .isIn, [.text "ANN", .text ""]⟩)) = .ok false := by
    rcases List.mem_pair.mp hi with rfl | rfl <;> rfl
  obtain rfl := Except.ok.inj (hmember.1.symm.trans hmissing)
  refine ⟨hmember, ?_⟩
  convert heither using 1
  rcases List.mem_pair.mp hi with rfl | rfl <;> rfl

open Staff in
/-- Joe's boss is called Ann, which is no element of the list with ANN in capitals but equals it. -/
theorem exists_comparison_not_membership :
    ∃ member either, RawQuery.prepare (registry (some .ignoreCase)) Staff.context "Representative"
        (.of (.cond ⟨"boss.name", .isIn, some (.list names)⟩)) = .ok member ∧
      RawQuery.prepare (registry (some .ignoreCase)) Staff.context "Representative"
        (.of (.anyOf (comparisons "boss.name" .eq names))) = .ok either ∧
      (∀ x ∈ names, x ≠ .null ∧ x ≠ .value .null) ∧
      (∀ d ∈ member.conditions ++ either.conditions, d.property.isMultiValued = false) ∧
      (registry (some .ignoreCase)).Fits "Representative" joe ∧
      member.Selects joe false ∧ either.Selects joe true := by
  refine ⟨_, _, prepare_nameInList, prepare_nameIsOne, by simp [names], ?_,
    fits_representatives (by simp), ⟨?_, ?_⟩, ⟨?_, ?_⟩⟩
  · intro d hd
    have hproperty : d.property = nameOfBoss := by
      revert d
      simp [PreparedQuery.conditions, Query.of]
    rw [hproperty]
    rfl
  all_goals rfl

end EntityQuery
