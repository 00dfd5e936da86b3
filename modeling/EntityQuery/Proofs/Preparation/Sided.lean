import EntityQuery.Proofs.Predicate.Turned
import EntityQuery.Proofs.Preparation.Rewritten

/-!
# Assertions and negations

An assertion is prepared to alternatives, of which one has to hold, and a negation to requirements,
all of which have to hold. So preparation never mixes the two junctions: the predicate it makes of a
condition has one kind of junction only, and conditions of the same side only.
-/

namespace EntityQuery

variable {r : Registry}

namespace Predicate

variable {C D : Type} {j : Junction} {p : Predicate C} {ps : List (Predicate C)}

/-- All junctions of a predicate are of one kind. -/
inductive Only (j : Junction) : Predicate C → Prop where
  | cond (c : C) : Only j (.cond c)
  | junction {ps : List (Predicate C)} (all : ∀ p ∈ ps, Only j p) : Only j (junction j ps)

lemma Only.of_junction (h : (Predicate.junction j ps).Only j) : ∀ p ∈ ps, p.Only j := by
  generalize hq : Predicate.junction j ps = q at h
  cases h with
  | cond c => cases j <;> cases hq
  | junction all =>
    cases j <;> cases hq <;> exact all

lemma Only.operandsIn (h : p.Only j) : ∀ q ∈ operandsIn j p, q.Only j := by
  rcases exists_junction_or_apart j p with ⟨inner, rfl⟩ | hp
  · rw [operandsIn_junction]
    exact h.of_junction
  · rw [hp.operandsIn_eq]
    exact List.forall_mem_singleton.mpr h

lemma only_joined (h : ∀ p ∈ ps, p.Only j) : (joined j ps).Only j := by
  match ps with
  | [p] => exact h p (by simp)
  | [] => cases j <;> exact .junction h
  | _ :: _ :: _ => cases j <;> exact .junction h

/-- Joining keeps to the kind of junction. -/
lemma only_join (h : ∀ p ∈ ps, p.Only j) : (join j ps).Only j := by
  refine only_joined fun q hq => ?_
  obtain ⟨p, hp, hq⟩ := List.mem_flatMap.mp hq
  exact (h p hp).operandsIn q hq

/-- Alternatives hold if one of the conditions does, requirements if all of them do. -/
lemma Only.holds_eq (h : p.Only j) (test : C → Bool) : p.holds test =
    if j = .and then p.conditions.all test else p.conditions.any test := by
  induction h with
  | cond c => cases j <;> simp
  | @junction ps _ ih =>
    rw [holds_junction, conditions_junction, List.all_flatMap, List.any_flatMap]
    cases j with
    | and =>
      simp only [if_true] at ih ⊢
      rw [Bool.eq_iff_iff, List.all_eq_true, List.all_eq_true]
      exact forall₂_congr fun q hq => by rw [ih q hq]
    | or =>
      simp only [reduceCtorEq, if_false] at ih ⊢
      rw [Bool.eq_iff_iff, List.any_eq_true, List.any_eq_true]
      exact exists_congr fun q => and_congr_right fun hq => by rw [ih q hq]

lemma Only.holds_iff_all (h : p.Only .and) (test : C → Bool) :
    p.holds test = true ↔ ∀ c ∈ p.conditions, test c = true := by
  rw [h.holds_eq, if_pos rfl, List.all_eq_true]

lemma Only.holds_iff_any (h : p.Only .or) (test : C → Bool) :
    p.holds test = true ↔ ∃ c ∈ p.conditions, test c = true := by
  rw [h.holds_eq, if_neg (by decide), List.any_eq_true]

/-- A predicate holds as all of several parts do, or as one of them does, if its conditions and
those of the parts have the same truth values. -/
lemma Only.holds_eq_of_parts {α : Type} {s : C → Bool} {t : D → Bool} {xs : List α}
    {part : α → Predicate D} (h : p.Only j) (parts : ∀ x ∈ xs, (part x).Only j)
    (forth : ∀ c ∈ p.conditions, ∃ x ∈ xs, ∃ d ∈ (part x).conditions, t d = s c)
    (back : ∀ x ∈ xs, ∀ d ∈ (part x).conditions, ∃ c ∈ p.conditions, t d = s c) :
    p.holds s = if j = .and then xs.all (fun x => (part x).holds t)
      else xs.any fun x => (part x).holds t := by
  rw [Bool.eq_iff_iff]
  cases j with
  | and =>
    rw [if_pos rfl, h.holds_iff_all, List.all_eq_true]
    constructor
    · intro hall x hx
      refine (parts x hx).holds_iff_all t |>.mpr fun d hd => ?_
      obtain ⟨c, hc, hdc⟩ := back x hx d hd
      exact hdc.trans (hall c hc)
    · intro hall c hc
      obtain ⟨x, hx, d, hd, hdc⟩ := forth c hc
      exact hdc.symm.trans (((parts x hx).holds_iff_all t).mp (hall x hx) d hd)
  | or =>
    rw [if_neg (by decide), h.holds_iff_any, List.any_eq_true]
    constructor
    · rintro ⟨c, hc, htrue⟩
      obtain ⟨x, hx, d, hd, hdc⟩ := forth c hc
      exact ⟨x, hx, ((parts x hx).holds_iff_any t).mpr ⟨d, hd, hdc.trans htrue⟩⟩
    · rintro ⟨x, hx, hholds⟩
      obtain ⟨d, hd, htrue⟩ := ((parts x hx).holds_iff_any t).mp hholds
      obtain ⟨c, hc, hdc⟩ := back x hx d hd
      exact ⟨c, hc, hdc.symm.trans htrue⟩

/-- Replacing conditions keeps to the kind of junction. -/
lemma only_mapM {E : Type} {f : C → Except E (Predicate D)} {q : Predicate D} (hp : p.Only j)
    (h : p.mapM f = .ok q) (hf : ∀ c ∈ p.conditions, ∀ a, f c = .ok a → a.Only j) : q.Only j := by
  induction hp generalizing q with
  | cond c =>
    rw [mapM] at h
    exact hf c (by simp) q h
  | @junction ps _ ih =>
    obtain ⟨qs, hqs, rfl⟩ := mapM_junction_eq_ok.mp h
    refine only_join fun q hq => ?_
    obtain ⟨p, hp, hpq⟩ := exists_of_mem_mapAllM hqs hq
    refine ih p hp hpq fun c hc => hf c ?_
    rw [conditions_junction]
    exact List.mem_flatMap.mpr ⟨p, hp, hc⟩

end Predicate

/-- The junction of the parts of a condition: one part of an assertion has to hold, and every part
of a negation. -/
def Operator.side (operator : Operator) : Junction :=
  if operator.isNegation then .and else .or

/-- What is made of a condition keeps to its side. Its conditions have a negation if the condition
has one. -/
structure Condition.Sides (c : Condition) (p : Predicate Condition) : Prop where
  only : p.Only c.operator.side
  side : ∀ d ∈ p.conditions, d.operator.side = c.operator.side
  negatable : c.operator.negate?.isSome = true →
    ∀ d ∈ p.conditions, d.operator.negate?.isSome = true

@[simp] lemma Condition.replace_operator (c : Condition) (operator : Operator) (vs : List Value) :
    (c.replace operator vs).operator = operator :=
  rfl

/-! ### Rules -/

namespace Rule

variable {c : Condition} {p : Predicate Condition}

lemma sides_cond {d : Condition} (side : d.operator.side = c.operator.side)
    (negatable : d.operator.negate?.isSome = true) : c.Sides (.cond d) :=
  ⟨.cond d, by simpa using side, fun _ => by simpa using negatable⟩

lemma sides_join {j : Junction} (ds : List Condition) (hj : c.operator.side = j)
    (hds : ∀ d ∈ ds, d.operator.side = j ∧ d.operator.negate?.isSome = true) :
    c.Sides (.join j (ds.map .cond)) := by
  subst hj
  refine ⟨Predicate.only_join ?_, fun d hd => (hds d ?_).1, fun _ d hd => (hds d ?_).2⟩
  · simpa using fun d _ => .cond d
  all_goals simpa [Predicate.conditions_join] using hd

lemma sides_absence (h : absence c = some p) : c.Sides p := by
  unfold absence at h
  split at h <;> simp only [Option.some.injEq, reduceCtorEq] at h <;> subst h <;> rename_i hop _ <;>
    exact sides_cond (by rw [hop]; rfl) rfl

lemma sides_nullComparison (h : nullComparison c = some p) : c.Sides p := by
  unfold nullComparison at h
  split at h <;> simp only [Option.some.injEq, reduceCtorEq] at h <;> subst h <;> rename_i hop _ <;>
    exact sides_cond (by rw [hop]; rfl) rfl

lemma sides_nullInList (h : nullInList c = some p) : c.Sides p := by
  simp only [nullInList] at h
  split at h
  · rename_i hcond
    have hop : c.operator = .isIn ∨ c.operator = .notIn := by
      revert hcond
      cases c.operator <;> simp [Operator.takesList]
    generalize (c.operands.filter fun v => !v.isNull) = values at h
    rcases hop with hop | hop <;> rw [hop] at h <;> cases values <;>
      simp only [List.isEmpty_nil, List.isEmpty_cons, if_true, Bool.false_eq_true, if_false,
        reduceCtorEq, beq_iff_eq, beq_self_eq_true, Option.some.injEq] at h <;> subst h
    · exact sides_join [c.replace .isNull []] (by rw [hop]; rfl)
        (by simp [Operator.side, Operator.isNegation, Operator.negate?])
    · exact sides_join [c.replace .isNull [], c.replace .isIn _] (by rw [hop]; rfl)
        (by simp [Operator.side, Operator.isNegation, Operator.negate?])
    · exact sides_join [c.replace .isNotNull []] (by rw [hop]; rfl)
        (by simp [Operator.side, Operator.isNegation, Operator.negate?])
    · exact sides_join [c.replace .isNotNull [], c.replace .notIn _] (by rw [hop]; rfl)
        (by simp [Operator.side, Operator.isNegation, Operator.negate?])
  · cases h

lemma sides_containsList (h : containsList c = some p) : c.Sides p := by
  obtain ⟨⟨hop, rfl⟩ | ⟨hop, rfl⟩, -⟩ := operands_of_containsList h
  all_goals
    refine sides_join (c.operands.map (part c)) (by rw [hop]; rfl) fun d hd => ?_
    obtain ⟨v, -, rfl⟩ := List.mem_map.mp hd
    unfold part
    rw [hop]
    cases v.isNull <;> exact ⟨rfl, rfl⟩

lemma sides_textContains (h : textContains c = some p) : c.Sides p := by
  unfold textContains at h
  split at h <;> simp only [Option.some.injEq, reduceCtorEq] at h <;> subst h <;>
    rename_i hop _ <;> exact sides_cond (by rw [hop]; rfl) rfl

lemma sides_emptyText (h : emptyText c = some p) : c.Sides p := by
  unfold emptyText at h
  split at h <;> simp only [Option.some.injEq, reduceCtorEq] at h <;> subst h <;> rename_i hop _
  · exact sides_join [c.replace .isNull [], c] (by rw [hop]; rfl)
      (by simp [hop, Operator.side, Operator.isNegation, Operator.negate?])
  · exact sides_join [c.replace .isNotNull [], c] (by rw [hop]; rfl)
      (by simp [hop, Operator.side, Operator.isNegation, Operator.negate?])

/-- A rule keeps to the side of its condition. -/
lemma sides_of_mem {f : Rule} (hf : f ∈ all) (h : f c = some p) : c.Sides p := by
  simp only [all, List.mem_cons, List.not_mem_nil, or_false] at hf
  rcases hf with rfl | rfl | rfl | rfl | rfl | rfl
  · exact sides_absence h
  · exact sides_nullComparison h
  · exact sides_nullInList h
  · exact sides_containsList h
  · exact sides_textContains h
  · exact sides_emptyText h

end Rule

/-! ### Translators -/

namespace Translator

variable {c : Condition} {p : Predicate Condition}

lemma sides_disregardCase (c : Condition) : c.Sides (.cond (disregardCase c)) := by
  unfold disregardCase
  split
  case h_5 => exact ⟨.cond c, by simp, by simp⟩
  all_goals
    rename_i hop _
    exact Rule.sides_cond (by rw [hop]; rfl) rfl

/-- A translator keeps to the side of its condition. -/
lemma sides_of_translate {t : Translator} (h : t.translate r c = .ok p) : c.Sides p := by
  unfold translate at h
  split at h
  · exact Except.ok.inj h ▸ sides_disregardCase c
  · cases h
  · split at h
    · cases h
    · rename_i ps hps
      have hsiblings := exists_of_mem_siblingConditions hps
      have hjoin : p = .join c.operator.side ps := by
        rw [← Except.ok.inj h, Operator.side]
        split <;> rfl
      have hconditions : ∀ d ∈ p.conditions, d.operator = c.operator := by
        intro d hd
        rw [hjoin, Predicate.conditions_join, List.mem_flatMap] at hd
        obtain ⟨q, hq, hd⟩ := hd
        obtain ⟨name, -, path, -, rfl⟩ := hsiblings q hq
        rw [Predicate.conditions_cond, List.mem_singleton] at hd
        rw [hd]
      refine ⟨?_, fun d hd => by rw [hconditions d hd], fun hc d hd => hconditions d hd ▸ hc⟩
      rw [hjoin]
      refine Predicate.only_join fun q hq => ?_
      obtain ⟨name, -, path, -, rfl⟩ := hsiblings q hq
      exact .cond _

end Translator

/-! ### Settling -/

namespace Stage

variable {c : Condition} {p q : Predicate Condition}

lemma sides_of_mem_all {stage : Stage} (hs : stage ∈ all r) (h : stage c = .ok (some p)) :
    c.Sides p := by
  simp only [all, List.mem_append, List.mem_map, List.mem_singleton] at hs
  rcases hs with ⟨f, hf, rfl⟩ | rfl
  · exact Rule.sides_of_mem hf (Except.ok.inj h)
  · obtain ⟨-, t, -, -, htranslate⟩ := translator_eq_some h
    exact Translator.sides_of_translate htranslate

lemma sides_of_settle {depth start : Nat}
    (h : settle (all r) Condition.check depth start c = .ok q) : c.Sides q := by
  induction depth generalizing start c q with
  | zero => simp [settle] at h
  | succ depth ih =>
    rcases settle_eq_ok h with ⟨-, -, rfl⟩ | ⟨n, p, hchange, hp⟩
    · exact ⟨.cond c, by simp, by simp⟩
    · obtain ⟨stage, hmem, hs, -⟩ := exists_of_firstChange hchange
      have hsides := sides_of_mem_all (List.mem_of_mem_drop hmem) hs
      have hconditions : ∀ d ∈ q.conditions, ∃ b ∈ p.conditions, ∃ a, b.Sides a ∧
          d ∈ a.conditions := by
        intro d hd
        obtain ⟨b, hb, a, ha, hd⟩ := Predicate.exists_of_mem_conditions_mapM hp hd
        exact ⟨b, hb, a, ih ha, hd⟩
      refine ⟨Predicate.only_mapM hsides.only hp fun b hb a ha => ?_, fun d hd => ?_,
        fun hc d hd => ?_⟩
      · rw [← hsides.side b hb]
        exact (ih ha).only
      · obtain ⟨b, hb, a, ha, hd⟩ := hconditions d hd
        rw [ha.side d hd, hsides.side b hb]
      · obtain ⟨b, hb, a, ha, hd⟩ := hconditions d hd
        exact ha.negatable (hsides.negatable hc b hb) d hd

end Stage

/-- **Sides**: an assertion is settled to alternatives that are assertions, a negation to
requirements that are negations. -/
theorem Registry.sides_of_settle {c : Condition} {q : Predicate Condition}
    (h : r.settle c = .ok q) : c.Sides q :=
  Stage.sides_of_settle h

end EntityQuery
