import EntityQuery.Proofs.Preparation.Equal
import EntityQuery.Proofs.Preparation.Frozen
import EntityQuery.Proofs.Preparation.Nested

/-!
# Conditions settle before the bound

Rules change the conditions on a property a few times at most, and expansions lead from property to
property. Every condition has a budget of changes, which depends on its operator and on how many
expansions can still follow each other: whatever a change yields has a smaller budget. Only copies
that are not equal to their condition are not covered, as they are never recognized. So a registry
without long chains of expansions settles all conditions within the bound, if their operands are
equal to themselves.
-/

namespace EntityQuery

variable {r : Registry}

/-! ### Chains of expansions -/

/-- The property at the end of a path: the entity type that declares it, and its name. -/
def PropertyPath.key (p : PropertyPath) : String × String :=
  (p.leaf.owner, p.leaf.name)

namespace Registry

/-- A property is expanded into another, that is, into anything but what its own name says. -/
inductive Lists (r : Registry) : String × String → String × String → Prop where
  | intro {entity name listed : String} {p : PropertyDef} {names : List String} {q : Resolved}
      (declared : r.property? entity name = some p)
      (expanded : p.translator? = some (.expand names)) (mem : listed ∈ names)
      (other : listed ≠ name) (resolved : r.resolve entity listed = .ok q) :
      Lists r (entity, name) q.path.key

/-- No chain of properties, each listed by the one before, has more than `n` links. -/
def ChainsWithin (r : Registry) (n : Nat) : Prop :=
  ∀ keys : List (String × String), keys.IsChain r.Lists → keys.length ≤ n + 1

/-- No more than `n` links lead on from a property. -/
def Within (r : Registry) : Nat → String × String → Prop
  | 0, key => ∀ next, ¬ r.Lists key next
  | n + 1, key => ∀ next, r.Lists key next → r.Within n next

lemma ChainsWithin.within {n : Nat} (h : r.ChainsWithin n) (key : String × String) :
    r.Within n key := by
  have hkey : ∀ keys, (key :: keys).IsChain r.Lists → keys.length ≤ n :=
    fun keys hkeys => by simpa using h _ hkeys
  clear h
  induction n generalizing key with
  | zero =>
    intro next hnext
    simpa using hkey [next] (.cons_cons hnext (.singleton _))
  | succ n ih =>
    intro next hnext
    refine ih next fun keys hkeys => ?_
    simpa using hkey (next :: keys) (.cons_cons hnext hkeys)

end Registry

namespace Condition

variable {c d : Condition}

/-- The property of a condition is found by its name where it is declared. -/
structure Findable (r : Registry) (c : Condition) : Prop where
  admitted : ∃ entity, r.Admits entity c.property
  legible : c.property.Legible

lemma Findable.of_yields (h : c.Findable r) (hd : c.Yields r d) : d.Findable r := by
  refine ⟨?_, legible_of_yields hd h.legible⟩
  obtain ⟨entity, admitted⟩ := h.admitted
  cases hd with
  | follows hd => exact ⟨entity, hd.property ▸ admitted⟩
  | expands hd =>
    obtain ⟨name, hpath⟩ := hd.exists_sibling
    exact ⟨entity, Registry.admits_sibling admitted hpath⟩

/-- The sibling that has the property's own name is the property. -/
lemma Findable.sibling_own (h : c.Findable r) {path : PropertyPath}
    (hpath : r.sibling c c.property.leaf.name = .ok path) : path = c.property := by
  obtain ⟨entity, admitted⟩ := h.admitted
  have hleaf : r.Admits c.property.leaf.owner ⟨[], c.property.leaf⟩ :=
    ⟨.here, admitted.leaf, admitted.unindexed⟩
  have hlegible : PropertyPath.Legible ⟨[], c.property.leaf⟩ := by
    intro s hs
    exact h.legible s (List.mem_append_right _ hs)
  obtain ⟨definition, hresolve⟩ := hleaf.resolve_text hlegible
  obtain ⟨q, hq, rfl⟩ := Registry.exists_of_sibling hpath
  cases hresolve.symm.trans hq
  simp

/-- A sibling that has another name is one that the property lists. -/
lemma Expands.lists (h : c.Expands r d) :
    (∃ name, r.sibling c name = .ok d.property ∧ name = c.property.leaf.name) ∨
      r.Lists c.property.key d.property.key := by
  obtain ⟨p, names, name, hp, ht, hname, hpath⟩ := h.declared
  by_cases hown : name = c.property.leaf.name
  · exact .inl ⟨name, hpath, hown⟩
  · obtain ⟨q, hq, hd⟩ := Registry.exists_of_sibling hpath
    have hkey : d.property.key = q.path.key := by rw [hd]; rfl
    exact .inr (hkey ▸ .intro hp ht hname hown hq)

/-! ### Changes that are left -/

/-- How many changes may nest before the translator is left alone with a condition that stays the
same, apart from those that follow expansions. -/
def lag (c : Condition) : Nat :=
  match c.operator with
  | .contains | .notContains => if c.hasSingle then 3 else 4
  | .eq | .ne => 3
  | .isIn | .notIn => if c.operands.any Value.isNull then 3 else 1
  | .like | .notLike => 2
  | .isNull | .isNotNull | .isEmpty | .isNotEmpty => if (Rule.absence c).isSome then 2 else 1
  | _ => 1

lemma lag_pos (c : Condition) : 0 < c.lag := by
  unfold lag
  split <;> (try split) <;> decide

lemma lag_le_four (c : Condition) : c.lag ≤ 4 := by
  unfold lag
  split <;> (try split) <;> decide

lemma lag_le_of_isUnary (h : c.operator.isUnary = true) : c.lag ≤ 2 := by
  unfold lag
  cases hop : c.operator <;> simp_all [Operator.isUnary] <;> split <;> decide

lemma lag_of_equality (h : c.operator = .eq ∨ c.operator = .ne) : c.lag = 3 := by
  unfold lag
  rcases h with hop | hop <;> rw [hop]

/-- On another property, an absence may be spelled the other way. -/
lemma lag_le_of_expands (h : c.Expands r d) : d.lag ≤ c.lag + 1 := by
  by_cases hunary : c.operator.isUnary = true
  · have hd := lag_le_of_isUnary (c := d) (by rwa [h.operator])
    have hc := c.lag_pos
    omega
  · have hsame : d.lag = c.lag := by
      unfold lag hasSingle
      rw [h.operator, h.operands]
      cases hop : c.operator <;> simp_all [Operator.isUnary]
    omega

end Condition

namespace Rule

variable {c d : Condition} {p : Predicate Condition}

lemma lag_of_absence (h : absence c = some p) (hd : d ∈ p.conditions) : d.lag < c.lag := by
  have hc : c.lag = 2 := by
    have hsome : (absence c).isSome = true := by simp [h]
    unfold absence at h
    unfold Condition.lag
    split at h <;> simp_all
  have hdone : absence d = none ∧ d.operator.isUnary = true := by
    unfold absence at h
    split at h <;> simp only [Option.some.injEq, reduceCtorEq] at h <;> subst h <;>
      simp only [Predicate.conditions_cond, List.mem_singleton] at hd <;> subst hd <;>
      simp_all [absence, Condition.replace, Operator.isUnary]
  have hd : d.lag = 1 := by
    unfold Condition.lag
    cases hop : d.operator <;> simp_all [Operator.isUnary]
  omega

lemma lag_of_nullComparison (h : nullComparison c = some p) (hd : d ∈ p.conditions) :
    d.lag < c.lag := by
  have hunary : c.lag = 3 ∧ d.operator.isUnary = true := by
    unfold nullComparison at h
    split at h <;> simp only [Option.some.injEq, reduceCtorEq] at h <;> subst h <;>
      simp only [Predicate.conditions_cond, List.mem_singleton] at hd <;> subst hd <;>
      simp_all [Condition.lag, Condition.replace, Operator.isUnary]
  have hle := Condition.lag_le_of_isUnary hunary.2
  omega

lemma lag_of_nullInList (h : nullInList c = some p) (hd : d ∈ p.conditions) : d.lag < c.lag := by
  simp only [nullInList] at h
  split at h
  · rename_i hcond
    obtain ⟨hlist, hnull⟩ := Bool.and_eq_true_iff.mp hcond
    have hc : c.lag = 3 := by
      unfold Condition.lag
      cases hop : c.operator <;> simp_all [Operator.takesList]
    have hsplit : d.operator.isUnary = true ∨
        d = c.replace c.operator (c.operands.filter fun v => !v.isNull) := by
      split at h <;> simp only [Option.some.injEq] at h <;> subst h <;>
        split at hd <;> simp at hd <;> rcases hd with rfl | rfl <;>
        simp [Condition.replace, Operator.isUnary]
    rcases hsplit with hunary | rfl
    · have hle := Condition.lag_le_of_isUnary hunary
      omega
    · have hd : (c.replace c.operator (c.operands.filter fun v => !v.isNull)).lag = 1 := by
        have hrest : (c.operands.filter fun v => !v.isNull).any Value.isNull = false := by
          simp [List.any_filter]
        unfold Condition.lag Condition.replace
        cases hop : c.operator <;> simp_all [Operator.takesList]
      omega
  · cases h

lemma lag_of_containsList (h : containsList c = some p) (hd : d ∈ p.conditions) :
    d.lag < c.lag := by
  have hmany : c.hasSingle = false := by
    rw [containsList_eq] at h
    cases hs : c.hasSingle <;> simp_all
  obtain ⟨hjoin, -⟩ := operands_of_containsList h
  have hpart : (c.operator = .contains ∨ c.operator = .notContains) ∧
      ∃ v ∈ c.operands, d = part c v := by
    rcases hjoin with ⟨hop, rfl⟩ | ⟨hop, rfl⟩ <;> simp at hd <;> obtain ⟨v, hv, rfl⟩ := hd
    · exact ⟨.inl hop, v, hv, rfl⟩
    · exact ⟨.inr hop, v, hv, rfl⟩
  obtain ⟨hop, v, -, rfl⟩ := hpart
  have hc : c.lag = 4 := by
    unfold Condition.lag
    rcases hop with hop | hop <;> simp [hop, hmany]
  have hd : (part c v).lag ≤ 3 := by
    cases hv : v.isNull with
    | true =>
      have hunary : (part c v).operator.isUnary = true := by
        unfold part
        rcases hop with hop | hop <;> simp [hv, hop, Condition.replace, Operator.isUnary]
      have hle := Condition.lag_le_of_isUnary hunary
      omega
    | false =>
      unfold part Condition.lag
      rcases hop with hop | hop <;> simp [hv, hop, Condition.replace, Condition.hasSingle]
  omega

lemma lag_of_textContains (h : textContains c = some p) (hd : d ∈ p.conditions) :
    d.lag < c.lag := by
  have hlags : d.lag = 2 ∧ 3 ≤ c.lag := by
    unfold textContains at h
    split at h <;> simp only [Option.some.injEq, reduceCtorEq] at h <;> subst h <;>
      simp only [Predicate.conditions_cond, List.mem_singleton] at hd <;> subst hd <;>
      rename_i hop _ <;> refine ⟨rfl, ?_⟩ <;> simp only [Condition.lag, hop] <;> split <;> decide
  omega

lemma lag_of_emptyText (h : emptyText c = some p) (hd : d ∈ p.conditions) :
    d.lag < c.lag ∨ d = c := by
  have hc := Condition.lag_of_equality (repeats_emptyText h).1.operator
  have hcases : d.operator.isUnary = true ∨ d = c := by
    unfold emptyText at h
    split at h <;> simp only [Option.some.injEq, reduceCtorEq] at h <;> subst h <;>
      simp at hd <;> rcases hd with rfl | rfl <;> simp [Condition.replace, Operator.isUnary]
  rcases hcases with hunary | rfl
  · have hle := Condition.lag_le_of_isUnary hunary
    exact .inl (by omega)
  · exact .inr rfl

/-- A rule leaves fewer changes, or repeats its condition. -/
lemma lag_of_mem {f : Rule} (hf : f ∈ all) (h : f c = some p) (hd : d ∈ p.conditions) :
    d.lag < c.lag ∨ d = c := by
  simp only [all, List.mem_cons, List.not_mem_nil, or_false] at hf
  rcases hf with rfl | rfl | rfl | rfl | rfl | rfl
  · exact .inl (lag_of_absence h hd)
  · exact .inl (lag_of_nullComparison h hd)
  · exact .inl (lag_of_nullInList h hd)
  · exact .inl (lag_of_containsList h hd)
  · exact .inl (lag_of_textContains h hd)
  · exact lag_of_emptyText h hd

end Rule

lemma Translator.lag_of_disregardCase (c : Condition) :
    (disregardCase c).lag = 1 ∧ 2 ≤ c.lag ∨ disregardCase c = c := by
  unfold disregardCase
  split
  case h_5 => exact .inr rfl
  all_goals
    rename_i hop _
    refine .inl ⟨rfl, ?_⟩
    simp [Condition.lag, hop]

/-! ### Budgets -/

namespace Stage

variable {c d : Condition} {p : Predicate Condition} {start n budget depth : Nat} {q : PropertyPath}

/-- Where settling a condition goes on, with a bound of the changes that nest from there on. -/
inductive Budgeted (r : Registry) : Nat → Nat → Condition → Prop where
  | whole {c : Condition} (links : Nat) (within : r.Within links c.property.key) :
      Budgeted r (2 * links + c.lag) 0 c
  | past {c : Condition} (links : Nat) (within : r.Within links c.property.key) (blank : c.Blank)
      (equal : (c == c) = true) : Budgeted r (2 * links + 2) 6 c
  | through {c : Condition} : Budgeted r 0 7 c

/-- What is yielded is a copy that is not recognized, or it has a smaller budget. -/
def Spends (r : Registry) (budget start : Nat) (c d : Condition) (next : Nat) : Prop :=
  (start = 0 ∧ d = c ∧ (c == c) = false) ∨ ∃ budget' < budget, Budgeted r budget' next d

/-- A rule spends from the budget. -/
lemma spends_of_change {links : Nat} (within : r.Within links c.property.key)
    (h : Rule.change c 0 Rule.all = some (n, p)) (hd : d ∈ p.conditions) :
    Spends r (2 * links + c.lag) 0 c d (if d == c then n + 1 else 0) := by
  have hproperty := Rule.property_of_change h hd
  cases hdc : d == c with
  | true =>
    obtain ⟨rfl, hblank, rfl⟩ := Rule.eq_of_change h hd hdc
    have hlag := Condition.lag_of_equality hblank.operator
    exact .inr ⟨2 * links + 2, by omega, .past links within hblank hdc⟩
  | false =>
    obtain ⟨i, f, hf, -, hp⟩ := Rule.exists_of_change h
    rcases Rule.lag_of_mem (List.mem_of_getElem? hf) hp hd with hlag | rfl
    · exact .inr ⟨2 * links + d.lag, by omega, .whole links (hproperty ▸ within)⟩
    · exact .inl ⟨rfl, rfl, hdc⟩

/-- Whatever the translator makes of a condition, the budget is enough for it. -/
lemma Budgeted.exists_links (h : Budgeted r budget start c) (hstart : start ≤ 6) :
    ∃ links, r.Within links c.property.key ∧ 2 * links < budget ∧
      (2 ≤ c.lag → 2 * links + 1 < budget) ∧
      ∀ d, c.Expands r d → 2 * links + d.lag ≤ budget + 1 := by
  cases h with
  | whole links within =>
    have hlag := c.lag_pos
    refine ⟨links, within, by omega, fun h => by omega, fun d hd => ?_⟩
    have hd := Condition.lag_le_of_expands hd
    omega
  | past links within blank =>
    refine ⟨links, within, by omega, fun h => by omega, fun d hd => ?_⟩
    have hd : d.lag = 3 := Condition.lag_of_equality (hd.operator ▸ blank.operator)
    omega
  | through => omega

/-- A condition that is not equal to itself starts from the first stage, as no copy of it is
recognized. -/
lemma Budgeted.spends_copy (h : Budgeted r budget start c) (hstart : start ≤ 6) {next : Nat}
    (unequal : (c == c) = false) : Spends r budget start c c next := by
  cases h with
  | whole => exact .inl ⟨rfl, rfl, unequal⟩
  | past _ _ _ equal => cases unequal.symm.trans equal
  | through => omega

/-- The translator spends from the budget, past the rules as well as from the start. -/
lemma Budgeted.spends_of_translator (h : Budgeted r budget start c) (findable : c.Findable r)
    (hstart : start ≤ 6) (hs : translator r c = .ok (some p)) (hne : (p == .cond c) = false)
    (hd : d ∈ p.conditions) : Spends r budget start c d (if d == c then 7 else 0) := by
  obtain ⟨declaration, t, hfound, ht, htranslate⟩ := translator_eq_some hs
  obtain ⟨links, within, hpositive, hcase, hexpansion⟩ := h.exists_links hstart
  rcases Translator.of_mem_translate htranslate hd with
    ⟨rfl, rfl⟩ | ⟨names, rfl, name, hname, path, hpath, hexpanded⟩
  · have hfresh : (Translator.disregardCase c == c) = false := hne
    rw [hfresh]
    rcases Translator.lag_of_disregardCase c with ⟨hlag, hle⟩ | heq
    · have hproperty := (Translator.disregardCase_follows c).property
      exact .inr ⟨2 * links + (Translator.disregardCase c).lag, by have := hcase hle; omega,
        .whole links (hproperty ▸ within)⟩
    · rw [heq] at hfresh ⊢
      exact h.spends_copy hstart hfresh
  · have hexpands : c.Expands r d := by
      rw [hexpanded]
      exact ⟨⟨declaration, names, name, hfound, ht, hname, hpath⟩, rfl, rfl⟩
    cases hdc : d == c with
    | true => exact .inr ⟨0, by omega, .through⟩
    | false =>
      rcases hexpands.lists with ⟨own, hown, rfl⟩ | hlists
      · -- the property's own name stands for the property
        have hsame : d = c := by
          rw [hexpanded]
          obtain rfl : path = c.property := by
            rw [hexpanded] at hown
            exact findable.sibling_own hown
          rfl
        subst hsame
        exact h.spends_copy hstart hdc
      · cases links with
        | zero => exact absurd hlists (within _)
        | succ links =>
          have hle := hexpansion d hexpands
          exact .inr ⟨2 * links + d.lag, by omega, .whole links (within _ hlists)⟩

/-- **One change** spends from the budget. -/
theorem Budgeted.spends (h : Budgeted r budget start c) (findable : c.Findable r)
    (hchange : firstChange c start ((all r).drop start) = .ok (some (n, p)))
    (hd : d ∈ p.conditions) : Spends r budget start c d (if d == c then n + 1 else 0) := by
  have htranslator : start ≤ 6 → firstChange c 6 [translator r] = .ok (some (n, p)) →
      Spends r budget start c d (if d == c then n + 1 else 0) := by
    intro hstart hchange
    rcases firstChange_cons hchange with ⟨q, hs, hne, hq⟩ | ⟨-, hnone⟩
    · cases hq
      exact h.spends_of_translator findable hstart hs hne hd
    · cases hnone
  cases h with
  | whole links within =>
    rw [List.drop_zero, firstChange_all] at hchange
    cases hrule : Rule.change c 0 Rule.all with
    | none => exact htranslator (by decide) (by simpa [hrule] using hchange)
    | some change =>
      obtain ⟨m, q⟩ := change
      rw [hrule] at hchange
      cases hchange
      exact spends_of_change within hrule hd
  | past => exact htranslator (by decide) hchange
  | through => cases hchange

/-- The stages for the conditions of a registry and the check do not report the bound. -/
lemma silent (r : Registry) : Silent (all r) Condition.check where
  stages stage hstage c q h := by
    obtain ⟨refused, he⟩ := exists_of_mem_all_eq_error hstage h
    cases he
  check c q h := by
    rcases error_of_check h with he | ⟨fault, he⟩ <;> cases he

/-- **Within its budget a condition settles**, or a copy recurs that is not recognized. -/
theorem Budgeted.recurs_of_unsettled (h : Budgeted r budget start c) (findable : c.Findable r)
    (hdepth : budget < depth)
    (hsettle : settle (all r) Condition.check depth start c = .error (.unsettled q)) :
    Recurs (all r) start c := by
  induction depth generalizing budget start c with
  | zero => omega
  | succ depth ih =>
    obtain ⟨n, p, before, d, after, hchange, hyields, -, hd⟩ :=
      (silent r).exists_of_unsettled hsettle
    have hmem : d ∈ p.conditions := by simp [hyields]
    rcases h.spends findable hchange hmem with ⟨rfl, rfl, unequal⟩ | ⟨budget', hless, hbudget⟩
    · exact .here hchange hmem unequal
    · obtain ⟨stage, hstage, hs, -⟩ := exists_of_firstChange hchange
      have hfindable := findable.of_yields
        (yields_of_mem_all (List.mem_of_mem_drop hstage) hs hmem)
      exact .onward hchange hmem (ih hbudget hfindable (by omega) hd)

end Stage

/-! ### Operands that are equal to themselves -/

namespace Condition

variable {c d : Condition}

/-- Every operand is equal to itself. -/
def SelfEqual (c : Condition) : Prop :=
  ∀ v ∈ c.operands, (v == v) = true

lemma SelfEqual.beq_self (h : c.SelfEqual) : (c == c) = true :=
  beq_eq_true_iff.mpr ⟨rfl, rfl, rfl, List.forall₂_same.mpr h⟩

/-- A stage passes operands on, or makes a text of a text. -/
lemma SelfEqual.of_yields (h : c.SelfEqual) (hd : c.Yields r d) : d.SelfEqual := by
  unfold SelfEqual
  cases hd with
  | follows hd =>
    have hpasses := hd.operands
    generalize d.operands = vs at hpasses ⊢
    cases hpasses with
    | part hsubset => exact fun v hv => h v (hsubset hv)
    | text _ t => simp [BEq.beq, Value.beq]
  | expands hd =>
    rw [hd.operands]
    exact h

end Condition

namespace Registry

/-- **Conditions settle within the bound** if no more than twenty expansions follow each other. It
is only reported where changes come to a condition whose copy is not equal to it, which does not
settle at all, and there is none if every operand is equal to itself. Whatever the stages are, no
more changes nest than the bound allows, and it is only reported where as many do. -/
theorem settles_within_bound (r : Registry) :
    (r.ChainsWithin 20 → ∀ e path property operator operands, r.pathOf e path = .ok property →
      (∀ q, r.settle ⟨property, operator, operands⟩ = .error (.unsettled q) →
        Stage.Recurs (Stage.all r) 0 ⟨property, operator, operands⟩) ∧
      (Stage.Recurs (Stage.all r) 0 ⟨property, operator, operands⟩ →
        ∀ t, r.settle ⟨property, operator, operands⟩ ≠ .ok t) ∧
      ((∀ v ∈ operands, (v == v) = true) →
        ∀ q, r.settle ⟨property, operator, operands⟩ ≠ .error (.unsettled q))) ∧
    ∀ stages check c,
      (∀ cs, Stage.Nests stages check (maxRuleDepth + 1) 0 c cs →
        cs.length ≤ maxRuleDepth + 1) ∧
      (Stage.Silent stages check → ∀ q,
        Stage.settle stages check (maxRuleDepth + 1) 0 c = .error (.unsettled q) →
        ∃ cs, Stage.Nests stages check (maxRuleDepth + 1) 0 c cs ∧
          cs.length = maxRuleDepth + 1) := by
  refine ⟨fun chains e path property operator operands hpath => ?_, fun stages check c =>
    ⟨fun cs hcs => hcs.length_le, fun silent q => silent.exists_nests_of_unsettled⟩⟩
  have hrecurs : ∀ q, r.settle ⟨property, operator, operands⟩ = .error (.unsettled q) →
      Stage.Recurs (Stage.all r) 0 ⟨property, operator, operands⟩ := by
    intro q hsettle
    have findable : Condition.Findable r ⟨property, operator, operands⟩ :=
      ⟨⟨e.name, admits_of_pathOf hpath⟩, legible_of_pathOf hpath⟩
    have hlag := Condition.lag_le_four ⟨property, operator, operands⟩
    refine (Stage.Budgeted.whole 20 (chains.within _)).recurs_of_unsettled findable ?_ hsettle
    simp only [maxRuleDepth]
    omega
  refine ⟨hrecurs, fun h t ht => h.not_settles ⟨t, ht⟩, fun hequal q hsettle => ?_⟩
  obtain ⟨d, hd, unequal⟩ := (hrecurs q hsettle).exists_unequal
    (fun stage hstage c p hc hs d hd => Condition.SelfEqual.of_yields hc
      (Stage.yields_of_mem_all hstage hs hd)) hequal
  cases unequal.symm.trans hd.beq_self

/-- Where expansions end with properties that are not expanded, chains have one link at most. -/
lemma chainsWithin_of_final (final : ∀ key next last, r.Lists key next → ¬ r.Lists next last)
    {n : Nat} (hn : 1 ≤ n) : r.ChainsWithin n := by
  intro keys hkeys
  match keys, hkeys with
  | [], _ => simp
  | [_], _ => simp
  | [_, _], _ => simpa using hn
  | _ :: _ :: _ :: _, .cons_cons h (.cons_cons h' _) => exact absurd h' (final _ _ _ h)

end Registry

namespace Search

/-- Persons have a name and further names, and are searched by all of them. -/
def registry : Registry :=
  ⟨[⟨"Person", "id", [⟨"id", .text, false, none⟩, ⟨"name", .text, true, some .ignoreCase⟩,
      ⟨"aliases", .collection .text, true, none⟩,
      ⟨"search", .text, true, some (.expand ["search", "name", "aliases"])⟩]⟩]⟩

/-- The entity type of persons. -/
def person : EntityDef :=
  registry.entities.head (by decide)

/-- The property that stands for all names. -/
def search : PropertyPath :=
  ⟨[], ⟨"search", "Person", .text, true, false⟩⟩

/-- Only the search property lists others, and these list none. -/
lemma eq_of_lists {key next : String × String} (h : registry.Lists key next) :
    key = ("Person", "search") ∧ next ≠ key := by
  cases h with
  | @intro entity _ listed p _ q declared expanded mem other resolved =>
    obtain ⟨rfl, hp⟩ := Registry.declared_of_property? declared
    obtain rfl : entity = "Person" := by
      obtain ⟨d, hd, -⟩ := Option.bind_eq_some_iff.mp declared
      obtain rfl : d = person := List.mem_singleton.mp (List.mem_of_find?_eq_some hd)
      exact (Registry.entity?_name hd).symm
    simp [registry, Registry.entity?] at hp
    rcases hp with rfl | rfl | rfl | rfl <;> simp at expanded
    subst expanded
    have hname : registry.resolve "Person" "name" =
        .ok ⟨⟨[], ⟨"name", "Person", .text, true, false⟩⟩, _⟩ := rfl
    have haliases : registry.resolve "Person" "aliases" =
        .ok ⟨⟨[], ⟨"aliases", "Person", .collection .text, true, false⟩⟩, _⟩ := rfl
    simp at mem other
    rcases mem with rfl | rfl | rfl
    · exact absurd rfl other
    · cases hname.symm.trans resolved
      simp [PropertyPath.key]
    · cases haliases.symm.trans resolved
      simp [PropertyPath.key]

end Search

open Search in
/-- Searching for the empty text takes several changes inside each other, but fewer than the
bound. -/
theorem settles_within_bound_search :
    registry.ChainsWithin 20 ∧ registry.pathOf person "search" = .ok search ∧
      (∀ q, registry.settle ⟨search, .eq, [.text ""]⟩ ≠ .error (.unsettled q)) ∧
      ∀ cs, Stage.Nests (Stage.all registry) Condition.check (maxRuleDepth + 1) 0
        ⟨search, .eq, [.text ""]⟩ cs → cs.length ≤ maxRuleDepth + 1 := by
  obtain ⟨hchains, hnests⟩ := registry.settles_within_bound
  have chains : registry.ChainsWithin 20 := by
    refine Registry.chainsWithin_of_final (fun key next last h h' => ?_) (by decide)
    obtain ⟨rfl, hne⟩ := eq_of_lists h
    exact hne (eq_of_lists h').1
  have hpath : registry.pathOf person "search" = .ok search := by
    rfl
  obtain ⟨-, -, hsettle⟩ := hchains chains person "search" search .eq [.text ""] hpath
  exact ⟨chains, hpath, hsettle (by simp [BEq.beq, Value.beq]), (hnests _ _ _).1⟩

namespace Scores

/-- Results with a score, which is declared to disregard case. -/
def registry : Registry :=
  ⟨[⟨"Result", "id", [⟨"id", .text, false, none⟩, ⟨"score", .float, true, some .ignoreCase⟩]⟩]⟩

/-- The entity type of results. -/
def result : EntityDef :=
  registry.entities.head (by decide)

/-- The score of a result. -/
def score : PropertyPath :=
  ⟨[], ⟨"score", "Result", .float, true, false⟩⟩

lemma not_lists {key next : String × String} : ¬ registry.Lists key next := by
  rintro ⟨declared, expanded, -, -, -⟩
  obtain ⟨d, hd, hp⟩ := Option.bind_eq_some_iff.mp declared
  obtain rfl : d = result := List.mem_singleton.mp (List.mem_of_find?_eq_some hd)
  have hp := List.mem_of_find?_eq_some hp
  simp [result, registry] at hp
  rcases hp with rfl | rfl <;> cases expanded

end Scores

open Scores in
/-- What is not a number is not equal to itself: a comparison with it is never recognized as
unchanged. -/
theorem exists_unsettled_within_chains :
    registry.ChainsWithin 20 ∧ registry.pathOf result "score" = .ok score ∧
      registry.operandsOf ⟨.startOf default, none⟩ score ⟨"score", .eq, some (.string "NaN")⟩ =
        .ok [.float .nan] ∧
      registry.settle ⟨score, .eq, [.float .nan]⟩ = .error (.unsettled score) := by
  refine ⟨Registry.chainsWithin_of_final (fun _ _ _ h => absurd h not_lists) (by decide),
    ?_, ?_, ?_⟩
  · rfl
  · have hnan : Double.ofText? (Text.trim "NaN") = some .nan := by decide +kernel
    have hconvert : registry.convert ⟨"score", "'NaN'"⟩ .float (.text "NaN") = .ok (.float .nan) :=
      Registry.convert_of_scalar? (by simp [Literal.scalar?, hnan])
    exact congrArg (Except.map _) hconvert
  · rfl

end EntityQuery
