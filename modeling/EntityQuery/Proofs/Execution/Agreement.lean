import EntityQuery.Execution.Memory
import EntityQuery.Proofs.Execution.Decided
import EntityQuery.Proofs.Sorting.Permutation

/-!
# Agreement of the executors in memory

A prepared query can be run over a list of instances or as an expression. Both select the same
instances, with one exception: where a multi-valued path goes on through a single-valued association
that is missing, the expression reads null there and the list reads nothing. A test for absence is
the only one that can tell the difference, so this is also the only way to disagree.
-/

namespace EntityQuery

open Instance

variable {ι : Type} [Instance ι] {r : Registry} {entity : String}

/-! ### One condition -/

/-- A test for absence at the end of a path to many values on which, behind the last collection, a
single-valued association of the instance is missing. -/
def Condition.gapped (i : ι) (c : Condition) : Bool :=
  (c.operator == .isNull || c.operator == .isEmpty) && c.property.isMultiValued &&
    (c.ends i).any Option.isNone

lemma Strategy.asksAbsence_of {operator : Operator} {kind : PropertyKind} {s : Strategy}
    (h : Strategy.of? operator kind = some s) :
    decide (s = .nullness false ∨ s = .emptiness false) =
      (operator == .isNull || operator == .isEmpty) := by
  cases operator <;> cases kind <;> simp [Strategy.of?] at h <;> subst h <;> decide

lemma any_eq_reduceOption_any {α : Type} (f : Option α → Bool) (os : List (Option α)) :
    os.any f = (os.reduceOption.any (fun a => f (some a)) || (f none && os.any Option.isNone)) := by
  induction os with
  | nil => simp
  | cons o os ih =>
    cases o <;> cases h : f none <;> simp [ih, h, Bool.or_assoc]

/-- An expression says what a list of instances shows, and of a gap that it is an absence. -/
theorem Condition.stated_eq {c : Condition} {i : ι} (hc : c.Prepared r entity)
    (hi : r.Fits entity i) : c.stated i = (c.found i || c.gapped i) := by
  obtain ⟨m, b, hm, hs, -, hb, heval⟩ := exists_matcher (ι := ι) hc
  have habsence := Strategy.asksAbsence_of hs
  rw [stated, hb, found_eq hm, valuesAt_eq hi hc.admitted, gapped]
  simp only [heval]
  cases hmulti : c.property.isMultiValued with
  | true =>
    rw [any_eq_reduceOption_any, if_pos rfl, List.any_map, ← habsence, Bool.and_true,
      ← m.accepts_null]
    rfl
  | false =>
    rw [if_neg (by decide), List.any_map, Bool.and_false, Bool.false_and, Bool.or_false]
    rfl

/-! ### Predicates -/

namespace Filter

lemma exists_compileAll {ps : List (Predicate Condition)}
    (hps : ∀ p ∈ ps, ∃ f, compile p = .ok f ∧
      ∀ i : ι, f.accepts i = p.holds (Condition.found i)) :
    ∃ fs, compileAll ps = .ok fs ∧
      ∀ i : ι, acceptsAll i fs = ps.all (Predicate.holds (Condition.found i)) ∧
        acceptsAny i fs = ps.any (Predicate.holds (Condition.found i)) := by
  induction ps with
  | nil => exact ⟨[], rfl, fun i => ⟨rfl, rfl⟩⟩
  | cons p ps ih =>
    obtain ⟨f, hf, haccepts⟩ := hps p (by simp)
    obtain ⟨fs, hfs, hall⟩ := ih fun p' hp' => hps p' (by simp [hp'])
    refine ⟨f :: fs, by simp [compileAll, hf, hfs, Except.map], fun i => ?_⟩
    rw [acceptsAll, acceptsAny, haccepts, (hall i).1, (hall i).2, List.all_cons, List.any_cons]
    exact ⟨rfl, rfl⟩

/-- A predicate whose conditions have matchers becomes a filter. -/
theorem exists_compile {p : Predicate Condition}
    (hp : ∀ c ∈ p.conditions, ∃ m, c.matcher = .ok m) :
    ∃ f, compile p = .ok f ∧ ∀ i : ι, f.accepts i = p.holds (Condition.found i) := by
  induction p using Predicate.induct with
  | cond c =>
    obtain ⟨m, hm⟩ := hp c (by simp)
    refine ⟨.test c.property m, by simp [compile, hm], fun i => ?_⟩
    rw [accepts, Predicate.holds_cond, Condition.found_eq hm]
  | and ps ih =>
    obtain ⟨fs, hfs, hall⟩ := exists_compileAll fun p h =>
      ih p h fun c hc => hp c (by simpa using ⟨p, h, hc⟩)
    refine ⟨.all fs, by simp [compile, hfs, Except.map], fun i => ?_⟩
    rw [accepts, (hall i).1, Predicate.holds_and]
  | or ps ih =>
    obtain ⟨fs, hfs, hall⟩ := exists_compileAll fun p h =>
      ih p h fun c hc => hp c (by simpa using ⟨p, h, hc⟩)
    refine ⟨.any fs, by simp [compile, hfs, Except.map], fun i => ?_⟩
    rw [accepts, (hall i).2, Predicate.holds_or]

end Filter

namespace BooleanExpression

lemma exists_ofPredicates {ps : List (Predicate Condition)}
    (hps : ∀ p ∈ ps, ∃ b, ofPredicate p = .ok b ∧
      ∀ i : ι, b.evaluate i = p.holds (Condition.stated i)) :
    ∃ bs, ofPredicates ps = .ok bs ∧
      ∀ i : ι, evaluateAll bs i = ps.all (Predicate.holds (Condition.stated i)) ∧
        evaluateAny bs i = ps.any (Predicate.holds (Condition.stated i)) := by
  induction ps with
  | nil => exact ⟨[], rfl, fun i => ⟨rfl, rfl⟩⟩
  | cons p ps ih =>
    obtain ⟨b, hb, heval⟩ := hps p (by simp)
    obtain ⟨bs, hbs, hall⟩ := ih fun p' hp' => hps p' (by simp [hp'])
    refine ⟨b :: bs, by simp [ofPredicates, hb, hbs, Except.map], fun i => ?_⟩
    rw [evaluateAll, evaluateAny, heval, (hall i).1, (hall i).2, List.all_cons, List.any_cons]
    exact ⟨rfl, rfl⟩

/-- A predicate whose conditions have expressions becomes one. -/
theorem exists_ofPredicate {p : Predicate Condition}
    (hp : ∀ c ∈ p.conditions, ∃ b, ofCondition c = .ok b) :
    ∃ b, ofPredicate p = .ok b ∧ ∀ i : ι, b.evaluate i = p.holds (Condition.stated i) := by
  induction p using Predicate.induct with
  | cond c =>
    obtain ⟨b, hb⟩ := hp c (by simp)
    refine ⟨b, by rw [ofPredicate, hb], fun i => ?_⟩
    rw [Predicate.holds_cond, Condition.stated, hb]
  | and ps ih =>
    obtain ⟨bs, hbs, hall⟩ := exists_ofPredicates fun p h =>
      ih p h fun c hc => hp c (by simpa using ⟨p, h, hc⟩)
    refine ⟨.and bs, by simp [ofPredicate, hbs, Except.map], fun i => ?_⟩
    rw [evaluate, (hall i).1, Predicate.holds_and]
  | or ps ih =>
    obtain ⟨bs, hbs, hall⟩ := exists_ofPredicates fun p h =>
      ih p h fun c hc => hp c (by simpa using ⟨p, h, hc⟩)
    refine ⟨.or bs, by simp [ofPredicate, hbs, Except.map], fun i => ?_⟩
    rw [evaluate, (hall i).2, Predicate.holds_or]

end BooleanExpression

/-! ### Queries -/

lemma Collection.sort_perm (orders : List (Order PropertyPath)) (items : List ι) :
    (sort orders items).Perm items := by
  unfold sort
  split
  · exact .refl _
  · split
    · rename_i sorted hsorted
      simpa using Permute.rearrange?_perm hsorted
    · exact .refl _

lemma Memory.findMatching_perm (items : List ι) (orders : List OrderSpecifier) :
    (findMatching items none orders).Perm items :=
  Sorting.sort_perm _ .eight _

lemma filter_perm_iff {α : Type} {xs : List α} {p q : α → Bool}
    (h : ∀ x ∈ xs, p x = true → q x = true) :
    (xs.filter p).Perm (xs.filter q) ↔ ∀ x ∈ xs, (q x && !p x) = false := by
  have hsub : xs.filter p = (xs.filter q).filter p := by
    rw [List.filter_filter]
    refine List.filter_congr fun x hx => ?_
    cases hp : p x with
    | true => simp [h x hx hp]
    | false => simp
  constructor
  · intro hperm x hx
    have hlen := hperm.length_eq
    rw [hsub, List.length_filter_eq_length_iff] at hlen
    cases hq : q x with
    | false => rfl
    | true => simp [hlen x (List.mem_filter.mpr ⟨hx, hq⟩)]
  · intro heq
    rw [hsub, List.filter_eq_self.mpr]
    intro x hx
    obtain ⟨hx, hq⟩ := List.mem_filter.mp hx
    simpa [hq] using heq x hx

/-- The instances of a list, found by expressions. -/
def Memory.expressions (items : List ι) : PredicateRepository ι :=
  ⟨fun b orders => .ok (findMatching items b orders)⟩

/-- Whether a query accepts what a test says about its conditions. -/
def PreparedQuery.holds (test : Condition → Bool) (p : PreparedQuery) : Bool :=
  p.predicate.all (Predicate.holds test)

namespace Executor

variable {p : PreparedQuery}

/-- A list of instances is searched for those that satisfy the conditions, and these are sorted. -/
lemma findAll_ofCollection (items : List ι)
    (hp : ∀ t ∈ p.predicate, ∀ c ∈ t.conditions, ∃ m, c.matcher = .ok m) :
    (ofCollection items).findAll p =
      .ok (Collection.sort p.orders (items.filter fun i => p.holds (Condition.found i))) := by
  obtain ⟨_ | t, orders⟩ := p
  · simp [PreparedQuery.holds, ofCollection, slicing, Collection.findAll]
  · obtain ⟨f, hf, haccepts⟩ := Filter.exists_compile (ι := ι) (hp t rfl)
    simp [PreparedQuery.holds, ofCollection, slicing, Collection.findAll, hf, haccepts]

lemma exists_findAll_ofCollection (items : List ι)
    (hp : ∀ t ∈ p.predicate, ∀ c ∈ t.conditions, ∃ m, c.matcher = .ok m) :
    ∃ xs, (ofCollection items).findAll p = .ok xs ∧
      xs.Perm (items.filter fun i => p.holds (Condition.found i)) :=
  ⟨_, findAll_ofCollection items hp, Collection.sort_perm _ _⟩

/-- Expressions find the instances of which the conditions are stated, sorted. -/
lemma findAll_ofPredicates (items : List ι)
    (hp : ∀ t ∈ p.predicate, ∀ c ∈ t.conditions, ∃ b, BooleanExpression.ofCondition c = .ok b) :
    (ofPredicates (Memory.expressions items)).findAll p =
      .ok (Memory.findMatching (items.filter fun i => p.holds (Condition.stated i)) none
        (p.orders.map .ofOrder)) := by
  obtain ⟨_ | t, orders⟩ := p
  · have hall : (items.filter fun i => PreparedQuery.holds (Condition.stated i) ⟨none, orders⟩) =
        items := by simp [PreparedQuery.holds]
    rw [hall]
    rfl
  · obtain ⟨b, hb, heval⟩ := BooleanExpression.exists_ofPredicate (ι := ι) (hp t rfl)
    have hmatching : Memory.findMatching items (some b) (orders.map .ofOrder) =
        Memory.findMatching (items.filter fun i => PreparedQuery.holds (Condition.stated i)
          ⟨some t, orders⟩) none (orders.map .ofOrder) := by
      simp [Memory.findMatching, PreparedQuery.holds, heval]
    rw [← hmatching]
    simp only [ofPredicates, slicing, PreparedQuery.toExpression, hb, evaluated]
    rfl

lemma exists_findAll_ofPredicates (items : List ι)
    (hp : ∀ t ∈ p.predicate, ∀ c ∈ t.conditions, ∃ b, BooleanExpression.ofCondition c = .ok b) :
    ∃ ys, (ofPredicates (Memory.expressions items)).findAll p = .ok ys ∧
      ys.Perm (items.filter fun i => p.holds (Condition.stated i)) :=
  ⟨_, findAll_ofPredicates items hp, Memory.findMatching_perm _ _⟩

end Executor

/-- Whether a gap decides about an instance: the query accepts it only if what is missing at the end
of a path counts as absent. -/
def PreparedQuery.overlooks (i : ι) (p : PreparedQuery) : Bool :=
  p.holds (fun c => c.found i || c.gapped i) && !p.holds (Condition.found i)

lemma PreparedQuery.holds_found_imp {p : PreparedQuery} (i : ι)
    (h : p.holds (Condition.found i) = true) :
    p.holds (fun c => c.found i || c.gapped i) = true := by
  obtain ⟨_ | t, orders⟩ := p
  · rfl
  · exact t.holds_mono (fun c _ hc => by simp [hc]) h

lemma PreparedQuery.overlooks_eq_false {p : PreparedQuery} {i : ι}
    (h : ∀ t ∈ p.predicate, ∀ c ∈ t.conditions, c.gapped i = false) : p.overlooks i = false := by
  obtain ⟨_ | t, orders⟩ := p
  · rfl
  · have hcongr : t.holds (fun c => c.found i || c.gapped i) = t.holds (Condition.found i) :=
      t.holds_congr fun c hc => by simp [h t rfl c hc]
    simp [overlooks, holds, hcongr]

/-- **Agreement in memory.** A prepared query runs over a list of instances and as an expression.
The list selects nothing that the expression does not select, and both select the same instances
exactly if none is overlooked, as it is where no condition of the query has a gap. -/
theorem executors_agree_iff {context : QueryContext} {q : RawQuery} {p : PreparedQuery}
    (hp : q.prepare r context entity = .ok p) {items : List ι}
    (hitems : ∀ i ∈ items, r.Fits entity i) :
    ∃ xs ys, (Executor.ofCollection items).findAll p = .ok xs ∧
      (Executor.ofPredicates (Memory.expressions items)).findAll p = .ok ys ∧ xs ⊆ ys ∧
      (xs.Perm ys ↔ ∀ i ∈ items, p.overlooks i = false) ∧
      ((∀ i ∈ items, ∀ t ∈ p.predicate, ∀ c ∈ t.conditions, c.gapped i = false) →
        xs.Perm ys) := by
  have hprepared : ∀ t ∈ p.predicate, ∀ c ∈ t.conditions, c.Prepared r entity :=
    fun t ht => RawQuery.prepared_of_prepare hp ht
  obtain ⟨xs, hxs, hxperm⟩ := Executor.exists_findAll_ofCollection items fun t ht c hc => by
    obtain ⟨m, -, hm, -⟩ := Condition.exists_matcher (ι := ι) (hprepared t ht c hc)
    exact ⟨m, hm⟩
  obtain ⟨ys, hys, hyperm⟩ := Executor.exists_findAll_ofPredicates items fun t ht c hc => by
    obtain ⟨-, b, -, -, -, hb, -⟩ := Condition.exists_matcher (ι := ι) (hprepared t ht c hc)
    exact ⟨b, hb⟩
  -- an expression says of an instance what is found, and of a gap that it is an absence
  have hstated : items.filter (fun i => p.holds (Condition.stated i)) =
      items.filter fun i => p.holds fun c => c.found i || c.gapped i := by
    refine List.filter_congr fun i hi => ?_
    cases ht : p.predicate with
    | none => simp [PreparedQuery.holds, ht]
    | some t =>
      simp only [PreparedQuery.holds, ht, Option.all_some]
      exact t.holds_congr fun c hc => Condition.stated_eq (hprepared t ht c hc) (hitems i hi)
  rw [hstated] at hyperm
  have hiff : xs.Perm ys ↔ ∀ i ∈ items, p.overlooks i = false := by
    rw [hxperm.congr_left, hyperm.congr_right]
    exact filter_perm_iff fun i _ => PreparedQuery.holds_found_imp i
  refine ⟨xs, ys, hxs, hys, ?_, hiff, fun h => hiff.mpr fun i hi =>
    PreparedQuery.overlooks_eq_false (h i hi)⟩
  intro i hi
  obtain ⟨hi, hfound⟩ := List.mem_filter.mp (hxperm.mem_iff.mp hi)
  exact hyperm.mem_iff.mpr (List.mem_filter.mpr ⟨hi, PreparedQuery.holds_found_imp i hfound⟩)

/-! ### A gap that decides -/

/-- Two companies with one representative each, of whom only the second has a boss. -/
inductive Staff where
  | one
  | two
  | john
  | joe
  | ann
  deriving DecidableEq

namespace Staff

/-- The entity type of an instance. -/
def type : Staff → String
  | one | two => "Company"
  | john | joe => "Representative"
  | ann => "Person"

instance : Instance Staff where
  valueOf
    | one, "id" => .text "one"
    | two, "id" => .text "two"
    | john, "id" => .text "john"
    | joe, "id" => .text "joe"
    | ann, "id" => .text "ann"
    | one, "representatives" => .list [.ref "Representative" (.text "john")]
    | two, "representatives" => .list [.ref "Representative" (.text "joe")]
    | joe, "boss" => .ref "Person" (.text "ann")
    | ann, "name" => .text "Ann"
    | _, _ => .null
  related
    | one, "representatives" => [john]
    | two, "representatives" => [joe]
    | joe, "boss" => [ann]
    | _, _ => []

/-- The entity types of the instances. The names of people may have a translator. -/
def registry (translator? : Option Translator) : Registry :=
  ⟨[⟨"Company", "id", [⟨"id", .text, false, none⟩,
      ⟨"representatives", .collection (.entity "Representative"), true, none⟩]⟩,
    ⟨"Representative", "id", [⟨"id", .text, false, none⟩, ⟨"boss", .entity "Person", true, none⟩]⟩,
    ⟨"Person", "id", [⟨"id", .text, false, none⟩, ⟨"name", .text, true, translator?⟩]⟩]⟩

/-- The query for companies with a representative whose boss has no name. -/
def namelessBoss : RawQuery :=
  .of (.cond ⟨"representatives[].boss.name", .isNull, none⟩)

/-- The path from a company to the names of its representatives' bosses. -/
def bossName : PropertyPath :=
  ⟨[⟨"representatives", "Company", .collection (.entity "Representative"), true, true⟩,
    ⟨"boss", "Representative", .entity "Person", true, false⟩],
    ⟨"name", "Person", .text, true, false⟩⟩

/-- A context without a user. -/
def context : QueryContext :=
  ⟨.startOf default, none⟩

lemma prepare_namelessBoss : namelessBoss.prepare (registry none) context "Company" =
    .ok (.of (.cond ⟨bossName, .isNull, []⟩)) := by
  rfl

variable {translator? : Option Translator}

lemma types : (registry translator?).Types fun e (i : Staff) => e = i.type where
  value := by
    rintro _ name i p rfl h
    obtain ⟨rfl, hp⟩ := Registry.declared_of_property? h
    cases i <;> simp [registry, type, Registry.entity?] at hp <;> rcases hp with rfl | rfl <;>
      first
        | exact .null
        | exact .text
        | exact .ref rfl rfl .text
        | exact .list (by simpa using .ref rfl rfl .text)
  single := by
    rintro _ name t i p rfl h -
    obtain ⟨rfl, hp⟩ := Registry.declared_of_property? h
    cases i <;> simp [registry, type, Registry.entity?] at hp <;> rcases hp with rfl | rfl <;>
      simp [Instance.related]
  target := by
    rintro _ name t i p rfl h htarget
    obtain ⟨rfl, hp⟩ := Registry.declared_of_property? h
    cases i <;> simp [registry, type, Registry.entity?] at hp <;> rcases hp with rfl | rfl <;>
      simp_all [Instance.related, PropertyType.target?, PropertyType.element, type]

lemma fits_companies : ∀ i ∈ [one, two], (registry none).Fits "Company" i := by
  simp only [List.mem_cons, List.not_mem_nil, or_false]
  rintro i (rfl | rfl) <;> exact ⟨_, types, rfl⟩

end Staff

open Staff in
/-- The companies with a representative whose boss has no name, in either way: the expression
selects one that the list overlooks. -/
theorem executors_agree_iff_companies :
    ∃ p, namelessBoss.prepare (registry none) context "Company" = .ok p ∧
      (∀ i ∈ [one, two], (registry none).Fits "Company" i) ∧
      ∃ xs ys, (Executor.ofCollection [one, two]).findAll p = .ok xs ∧
        (Executor.ofPredicates (Memory.expressions [one, two])).findAll p = .ok ys ∧
        xs ⊆ ys ∧ ¬ xs.Perm ys := by
  refine ⟨_, prepare_namelessBoss, fits_companies, ?_⟩
  obtain ⟨xs, ys, hxs, hys, hsub, hiff, -⟩ :=
    executors_agree_iff prepare_namelessBoss fits_companies
  refine ⟨xs, ys, hxs, hys, hsub, fun hperm => ?_⟩
  have hone := hiff.mp hperm one (by simp)
  exact absurd hone (by decide)

open Staff in
/-- The list overlooks the company whose representative has no boss. -/
theorem executors_disagree :
    ∃ p, namelessBoss.prepare (registry none) context "Company" = .ok p ∧
      (∀ i ∈ [one, two], (registry none).Fits "Company" i) ∧
      (Executor.ofCollection [one, two]).findAll p = .ok [] ∧
      (Executor.ofPredicates (Memory.expressions [one, two])).findAll p = .ok [one] :=
  ⟨_, prepare_namelessBoss, fits_companies, rfl, rfl⟩

end EntityQuery
