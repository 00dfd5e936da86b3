import EntityQuery.Query
import Mathlib.Data.List.Basic
import Mathlib.Tactic.Common

/-!
# The truth of predicates

A predicate is true or false once a test has decided its conditions. Joining predicates and
replacing conditions by predicates are read here through that truth and through the conditions that
come out, so that no later proof has to look at how junctions are flattened.
-/

namespace EntityQuery

universe u v w

/-- A result that was changed on the way was a result before. -/
lemma exists_of_map_eq_ok {E : Type u} {α : Type v} {β : Type w} {f : α → β} {x : Except E α}
    {b : β} (h : x.map f = .ok b) : ∃ a, x = .ok a ∧ f a = b := by
  cases x with
  | error => cases h
  | ok a => exact ⟨a, rfl, Except.ok.inj h⟩

/-- An error was not changed on the way. -/
lemma eq_error_of_map {E : Type u} {α : Type v} {β : Type w} {f : α → β} {x : Except E α} {e : E}
    (h : x.map f = .error e) : x = .error e := by
  cases x with
  | error e' => exact congrArg Except.error (Except.error.inj h)
  | ok a => cases h

namespace Predicate

variable {C : Type u} {D : Type v} {E : Type w}

mutual

/-- The truth of a predicate whose conditions are decided by a test. -/
def holds (test : C → Bool) : Predicate C → Bool
  | cond c => test c
  | and children => holdsAll test children
  | or children => holdsAny test children

/-- Whether every predicate of a list is true. -/
def holdsAll (test : C → Bool) : List (Predicate C) → Bool
  | [] => true
  | p :: ps => holds test p && holdsAll test ps

/-- Whether some predicate of a list is true. -/
def holdsAny (test : C → Bool) : List (Predicate C) → Bool
  | [] => false
  | p :: ps => holds test p || holdsAny test ps

end

/-- Induction over predicates: a junction is reached from its children. -/
theorem induct {motive : Predicate C → Prop} (cond : ∀ c, motive (cond c))
    (and : ∀ ps, (∀ p ∈ ps, motive p) → motive (and ps))
    (or : ∀ ps, (∀ p ∈ ps, motive p) → motive (or ps)) : ∀ p, motive p
  | .cond c => cond c
  | .and ps => and ps fun p hp =>
      have := List.sizeOf_lt_of_mem hp
      induct cond and or p
  | .or ps => or ps fun p hp =>
      have := List.sizeOf_lt_of_mem hp
      induct cond and or p

/-! ### Junctions -/

lemma holdsAll_eq_all (test : C → Bool) (ps : List (Predicate C)) :
    holdsAll test ps = ps.all (holds test) := by
  induction ps with
  | nil => rfl
  | cons p ps ih => rw [holdsAll, ih, List.all_cons]

lemma holdsAny_eq_any (test : C → Bool) (ps : List (Predicate C)) :
    holdsAny test ps = ps.any (holds test) := by
  induction ps with
  | nil => rfl
  | cons p ps ih => rw [holdsAny, ih, List.any_cons]

@[simp] lemma holds_cond (test : C → Bool) (c : C) : (cond c).holds test = test c := by
  rw [holds]

@[simp] lemma holds_and (test : C → Bool) (ps : List (Predicate C)) :
    (and ps).holds test = ps.all (holds test) := by
  rw [holds, holdsAll_eq_all]

@[simp] lemma holds_or (test : C → Bool) (ps : List (Predicate C)) :
    (or ps).holds test = ps.any (holds test) := by
  rw [holds, holdsAny_eq_any]

lemma conditionsOfAll_eq_flatMap (ps : List (Predicate C)) :
    conditionsOfAll ps = ps.flatMap conditions := by
  induction ps with
  | nil => rfl
  | cons p ps ih => rw [conditionsOfAll, ih, List.flatMap_cons]

@[simp] lemma conditions_cond (c : C) : (cond c).conditions = [c] := by
  rw [conditions]

@[simp] lemma conditions_and (ps : List (Predicate C)) :
    (and ps).conditions = ps.flatMap conditions := by
  rw [conditions, conditionsOfAll_eq_flatMap]

@[simp] lemma conditions_or (ps : List (Predicate C)) :
    (or ps).conditions = ps.flatMap conditions := by
  rw [conditions, conditionsOfAll_eq_flatMap]

/-! ### Joining -/

lemma holds_joined_and (test : C → Bool) (ps : List (Predicate C)) :
    (joined .and ps).holds test = ps.all (holds test) := by
  rcases ps with _ | ⟨p, _ | ⟨q, ps⟩⟩ <;> simp [joined]

lemma holds_joined_or (test : C → Bool) (ps : List (Predicate C)) :
    (joined .or ps).holds test = ps.any (holds test) := by
  rcases ps with _ | ⟨p, _ | ⟨q, ps⟩⟩ <;> simp [joined]

lemma conditions_joined (j : Junction) (ps : List (Predicate C)) :
    (joined j ps).conditions = ps.flatMap conditions := by
  rcases ps with _ | ⟨p, _ | ⟨q, ps⟩⟩ <;> cases j <;> simp [joined]

lemma all_operandsIn_and (test : C → Bool) (p : Predicate C) :
    (operandsIn .and p).all (holds test) = p.holds test := by
  cases p <;> simp [operandsIn]

lemma any_operandsIn_or (test : C → Bool) (p : Predicate C) :
    (operandsIn .or p).any (holds test) = p.holds test := by
  cases p <;> simp [operandsIn]

lemma flatMap_conditions_operandsIn (j : Junction) (p : Predicate C) :
    (operandsIn j p).flatMap conditions = p.conditions := by
  cases p <;> cases j <;> simp [operandsIn]

/-- A conjunction is true where all of its operands are. -/
@[simp] lemma holds_allOf (test : C → Bool) (ps : List (Predicate C)) :
    (allOf ps).holds test = ps.all (holds test) := by
  rw [allOf, join, holds_joined_and]
  induction ps with
  | nil => rfl
  | cons p ps ih => rw [List.flatMap_cons, List.all_append, all_operandsIn_and, ih, List.all_cons]

/-- A disjunction is true where one of its operands is. -/
@[simp] lemma holds_anyOf (test : C → Bool) (ps : List (Predicate C)) :
    (anyOf ps).holds test = ps.any (holds test) := by
  rw [anyOf, join, holds_joined_or]
  induction ps with
  | nil => rfl
  | cons p ps ih => rw [List.flatMap_cons, List.any_append, any_operandsIn_or, ih, List.any_cons]

/-- Joining neither loses nor moves a condition. -/
lemma conditions_join (j : Junction) (ps : List (Predicate C)) :
    (join j ps).conditions = ps.flatMap conditions := by
  rw [join, conditions_joined]
  induction ps with
  | nil => rfl
  | cons p ps ih =>
    rw [List.flatMap_cons, List.flatMap_append, flatMap_conditions_operandsIn, ih,
      List.flatMap_cons]

@[simp] lemma conditions_allOf (ps : List (Predicate C)) :
    (allOf ps).conditions = ps.flatMap conditions :=
  conditions_join .and ps

@[simp] lemma conditions_anyOf (ps : List (Predicate C)) :
    (anyOf ps).conditions = ps.flatMap conditions :=
  conditions_join .or ps

/-! ### Tests that agree -/

/-- Junctions keep an implication between tests. -/
theorem holds_mono {s t : C → Bool} (p : Predicate C)
    (h : ∀ c ∈ p.conditions, s c = true → t c = true) (hs : p.holds s = true) :
    p.holds t = true := by
  induction p using induct with
  | cond c => simpa using h c (by simp) (by simpa using hs)
  | and ps ih =>
    simp only [holds_and, List.all_eq_true] at hs ⊢
    intro p hp
    exact ih p hp (fun c hc => h c (by simpa using ⟨p, hp, hc⟩)) (hs p hp)
  | or ps ih =>
    simp only [holds_or, List.any_eq_true] at hs ⊢
    obtain ⟨p, hp, hs⟩ := hs
    exact ⟨p, hp, ih p hp (fun c hc => h c (by simpa using ⟨p, hp, hc⟩)) hs⟩

/-- Only what a test says about the conditions that occur matters. -/
theorem holds_congr {s t : C → Bool} (p : Predicate C) (h : ∀ c ∈ p.conditions, s c = t c) :
    p.holds s = p.holds t := by
  rw [Bool.eq_iff_iff]
  exact ⟨holds_mono p fun c hc hs => h c hc ▸ hs, holds_mono p fun c hc ht => (h c hc).symm ▸ ht⟩

/-! ### Replacing conditions -/

variable {f : C → Except E (Predicate D)}

lemma mapM_and_eq_ok {ps : List (Predicate C)} {q : Predicate D} :
    (and ps).mapM f = .ok q ↔ ∃ qs, mapAllM f ps = .ok qs ∧ q = allOf qs := by
  rw [mapM]
  cases mapAllM f ps <;> simp [Except.map, eq_comm]

lemma mapM_or_eq_ok {ps : List (Predicate C)} {q : Predicate D} :
    (or ps).mapM f = .ok q ↔ ∃ qs, mapAllM f ps = .ok qs ∧ q = anyOf qs := by
  rw [mapM]
  cases mapAllM f ps <;> simp [Except.map, eq_comm]

lemma mapAllM_cons_eq_ok {p : Predicate C} {ps : List (Predicate C)} {qs : List (Predicate D)} :
    mapAllM f (p :: ps) = .ok qs ↔
      ∃ q rest, p.mapM f = .ok q ∧ mapAllM f ps = .ok rest ∧ qs = q :: rest := by
  rw [mapAllM]
  cases mapM f p <;> cases mapAllM f ps <;> simp [Except.map, eq_comm]

/-- Every result of replacing in a list is the result of one of the predicates. -/
lemma exists_of_mem_mapAllM {ps : List (Predicate C)} {qs : List (Predicate D)}
    (h : mapAllM f ps = .ok qs) {q : Predicate D} (hq : q ∈ qs) : ∃ p ∈ ps, p.mapM f = .ok q := by
  induction ps generalizing qs with
  | nil =>
    rw [mapAllM] at h
    cases h
    simp at hq
  | cons p ps ih =>
    obtain ⟨q', rest, hq', hrest, rfl⟩ := mapAllM_cons_eq_ok.mp h
    rcases List.mem_cons.mp hq with rfl | hq
    · exact ⟨p, by simp, hq'⟩
    · obtain ⟨p', hp', h'⟩ := ih hrest hq
      exact ⟨p', by simp [hp'], h'⟩

/-- Every condition of the result stems from one of the conditions replaced. -/
theorem exists_of_mem_conditions_mapM {p : Predicate C} {q : Predicate D} (h : p.mapM f = .ok q)
    {d : D} (hd : d ∈ q.conditions) :
    ∃ c ∈ p.conditions, ∃ r, f c = .ok r ∧ d ∈ r.conditions := by
  induction p using induct generalizing q with
  | cond c =>
    rw [mapM] at h
    exact ⟨c, by simp, q, h, hd⟩
  | and ps ih =>
    obtain ⟨qs, hqs, rfl⟩ := mapM_and_eq_ok.mp h
    rw [conditions_allOf, List.mem_flatMap] at hd
    obtain ⟨q, hq, hd⟩ := hd
    obtain ⟨p, hp, hpq⟩ := exists_of_mem_mapAllM hqs hq
    obtain ⟨c, hc, r⟩ := ih p hp hpq hd
    exact ⟨c, by simpa using ⟨p, hp, hc⟩, r⟩
  | or ps ih =>
    obtain ⟨qs, hqs, rfl⟩ := mapM_or_eq_ok.mp h
    rw [conditions_anyOf, List.mem_flatMap] at hd
    obtain ⟨q, hq, hd⟩ := hd
    obtain ⟨p, hp, hpq⟩ := exists_of_mem_mapAllM hqs hq
    obtain ⟨c, hc, r⟩ := ih p hp hpq hd
    exact ⟨c, by simpa using ⟨p, hp, hc⟩, r⟩

lemma all_and_any_of_mapAllM {ps : List (Predicate C)} {qs : List (Predicate D)} {s : C → Bool}
    {t : D → Bool} (h : mapAllM f ps = .ok qs)
    (hp : ∀ p ∈ ps, ∀ q, p.mapM f = .ok q → q.holds t = p.holds s) :
    qs.all (holds t) = ps.all (holds s) ∧ qs.any (holds t) = ps.any (holds s) := by
  induction ps generalizing qs with
  | nil =>
    rw [mapAllM] at h
    cases h
    exact ⟨rfl, rfl⟩
  | cons p ps ih =>
    obtain ⟨q, rest, hq, hrest, rfl⟩ := mapAllM_cons_eq_ok.mp h
    obtain ⟨hall, hany⟩ := ih hrest fun p' hp' => hp p' (List.mem_cons_of_mem p hp')
    have hpq := hp p List.mem_cons_self q hq
    exact ⟨by rw [List.all_cons, List.all_cons, hpq, hall],
      by rw [List.any_cons, List.any_cons, hpq, hany]⟩

/-- **Replacement.** If what replaces each condition is true where the condition is, then so is the
result where the predicate is. -/
theorem holds_mapM {p : Predicate C} {q : Predicate D} {s : C → Bool} {t : D → Bool}
    (h : p.mapM f = .ok q)
    (hst : ∀ c ∈ p.conditions, ∀ r, f c = .ok r → r.holds t = s c) :
    q.holds t = p.holds s := by
  induction p using induct generalizing q with
  | cond c =>
    rw [mapM] at h
    rw [hst c (by simp) q h, holds_cond]
  | and ps ih =>
    obtain ⟨qs, hqs, rfl⟩ := mapM_and_eq_ok.mp h
    rw [holds_allOf, holds_and]
    exact (all_and_any_of_mapAllM hqs fun p hp q hpq =>
      ih p hp hpq fun c hc => hst c (by simpa using ⟨p, hp, hc⟩)).1
  | or ps ih =>
    obtain ⟨qs, hqs, rfl⟩ := mapM_or_eq_ok.mp h
    rw [holds_anyOf, holds_or]
    exact (all_and_any_of_mapAllM hqs fun p hp q hpq =>
      ih p hp hpq fun c hc => hst c (by simpa using ⟨p, hp, hc⟩)).2

end Predicate

end EntityQuery
