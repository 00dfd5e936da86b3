import EntityQuery.Proofs.Predicate.Flat

/-!
# Turning predicates

A predicate is turned by a map of its conditions: into the same tree, or into its dual, where
conjunctions and disjunctions have changed places. Joining predicates and replacing conditions by
predicates commute with turning, and the dual is true where the predicate is false.
-/

namespace EntityQuery

/-- The junction, or the other one. -/
def Junction.turned (dual : Bool) (j : Junction) : Junction :=
  match dual, j with
  | false, j => j
  | true, .and => .or
  | true, .or => .and

namespace Predicate

variable {C D : Type} {dual : Bool} {f : C → D} {p : Predicate C} {ps : List (Predicate C)}

mutual

/-- Maps the conditions of a predicate, and turns its junctions into the dual ones. -/
def turned (dual : Bool) (f : C → D) : Predicate C → Predicate D
  | cond c => cond (f c)
  | and children => junction (Junction.turned dual .and) (turnedAll dual f children)
  | or children => junction (Junction.turned dual .or) (turnedAll dual f children)

/-- Turns every predicate of a list. -/
def turnedAll (dual : Bool) (f : C → D) : List (Predicate C) → List (Predicate D)
  | [] => []
  | p :: ps => turned dual f p :: turnedAll dual f ps

end

lemma turnedAll_eq_map (ps : List (Predicate C)) :
    turnedAll dual f ps = ps.map (turned dual f) := by
  induction ps with
  | nil => rfl
  | cons p ps ih => rw [turnedAll, ih, List.map_cons]

@[simp] lemma turned_cond (c : C) : (cond c).turned dual f = cond (f c) := by
  rw [turned]

lemma turned_junction (j : Junction) (ps : List (Predicate C)) :
    (junction j ps).turned dual f = junction (j.turned dual) (ps.map (turned dual f)) := by
  cases j <;> simp only [junction, turned, turnedAll_eq_map]

lemma conditions_turned (p : Predicate C) : (p.turned dual f).conditions = p.conditions.map f := by
  induction p using inductJunction with
  | cond c => simp
  | junction j ps ih =>
    rw [turned_junction, conditions_junction, conditions_junction, List.flatMap_map,
      List.map_flatMap]
    exact List.flatMap_congr ih

lemma turned_id (p : Predicate C) : p.turned false id = p := by
  induction p using inductJunction with
  | cond c => exact turned_cond c
  | junction j ps ih =>
    rw [turned_junction, (List.map_congr_left ih).trans (List.map_id' ps)]
    rfl

/-! ### Joining -/

lemma Apart.turned {j : Junction} (h : Apart j p) : Apart (j.turned dual) (p.turned dual f) := by
  cases dual <;> cases j <;> cases p <;>
    simp_all [Apart, Predicate.turned, Junction.turned, junction]

lemma flat_junction {good : C → Prop} {j : Junction} (many : 2 ≤ ps.length)
    (apart : ∀ p ∈ ps, Apart j p) (all : ∀ p ∈ ps, p.Flat good) : (junction j ps).Flat good := by
  cases j
  · exact .and many apart all
  · exact .or many apart all

lemma Flat.turned {good : C → Prop} (h : p.Flat good) :
    (p.turned dual f).Flat fun _ => True := by
  have hjunction : ∀ {j : Junction} {ps : List (Predicate C)}, 2 ≤ ps.length →
      (∀ p ∈ ps, Apart j p) → (∀ p ∈ ps, (p.turned dual f).Flat fun _ => True) →
      ((junction j ps).turned dual f).Flat fun _ => True := by
    intro j ps many apart all
    rw [turned_junction]
    exact flat_junction (by simpa using many)
      (List.forall_mem_map.mpr fun p hp => (apart p hp).turned) (List.forall_mem_map.mpr all)
  induction h with
  | cond => exact turned_cond (f := f) _ ▸ .cond trivial
  | and many apart _ ih => exact hjunction (j := .and) many apart ih
  | or many apart _ ih => exact hjunction (j := .or) many apart ih

lemma operandsIn_turned (j : Junction) (p : Predicate C) :
    operandsIn (j.turned dual) (p.turned dual f) = (operandsIn j p).map (turned dual f) := by
  rcases exists_junction_or_apart j p with ⟨inner, rfl⟩ | hp
  · rw [turned_junction, operandsIn_junction, operandsIn_junction]
  · rw [hp.turned.operandsIn_eq, hp.operandsIn_eq, List.map_singleton]

lemma joined_eq_junction {j : Junction} (count : ps.length ≠ 1) : joined j ps = junction j ps := by
  match ps, count with
  | [], _ => cases j <;> rfl
  | _ :: _ :: _, _ => cases j <;> rfl

lemma joined_turned (j : Junction) (ps : List (Predicate C)) :
    joined (j.turned dual) (ps.map (turned dual f)) = (joined j ps).turned dual f := by
  by_cases hps : ps.length = 1
  · obtain ⟨p, rfl⟩ := List.length_eq_one_iff.mp hps
    rfl
  · rw [joined_eq_junction hps, joined_eq_junction (by simpa using hps), turned_junction]

/-- Joining turned predicates turns what joining yields. -/
lemma join_turned (j : Junction) (ps : List (Predicate C)) :
    join (j.turned dual) (ps.map (turned dual f)) = (join j ps).turned dual f := by
  rw [join, join, List.flatMap_map, ← joined_turned, List.map_flatMap]
  exact congrArg (joined _) (List.flatMap_congr fun p _ => operandsIn_turned j p)

/-! ### Replacing conditions -/

variable {A B E : Type} {g : C → Except E (Predicate A)} {g' : D → Except E (Predicate B)}
  {h : A → B}

lemma mapM_junction_eq_ok {j : Junction} {q : Predicate A} :
    (junction j ps).mapM g = .ok q ↔ ∃ qs, mapAllM g ps = .ok qs ∧ q = join j qs := by
  cases j
  · exact mapM_and_eq_ok
  · exact mapM_or_eq_ok

/-- Conditions are replaced alike before a predicate is turned and after. -/
theorem mapM_turned {q : Predicate A} (hq : p.mapM g = .ok q)
    (hg : ∀ c ∈ p.conditions, ∀ a, g c = .ok a → g' (f c) = .ok (a.turned dual h)) :
    (p.turned dual f).mapM g' = .ok (q.turned dual h) := by
  induction p using inductJunction generalizing q with
  | cond c =>
    rw [mapM] at hq
    rw [turned_cond, mapM]
    exact hg c (by simp) q hq
  | junction j ps ih =>
    obtain ⟨qs, hqs, rfl⟩ := mapM_junction_eq_ok.mp hq
    rw [turned_junction]
    refine mapM_junction_eq_ok.mpr ⟨qs.map (turned dual h), ?_, (join_turned j qs).symm⟩
    clear hq
    induction ps generalizing qs with
    | nil =>
      rw [mapAllM] at hqs
      cases hqs
      rfl
    | cons p ps ihps =>
      obtain ⟨q, rest, hp, hrest, rfl⟩ := mapAllM_cons_eq_ok.mp hqs
      rw [conditions_junction, List.flatMap_cons] at hg
      have hfirst := ih p (by simp) hp fun c hc => hg c (List.mem_append_left _ hc)
      have hothers := ihps (fun p' hp' => ih p' (by simp [hp']))
        (fun c hc => hg c (List.mem_append_right _ (conditions_junction j ps ▸ hc))) rest hrest
      exact mapAllM_cons_eq_ok.mpr ⟨_, _, hfirst, hothers, rfl⟩

/-! ### Truth -/

lemma holds_junction (test : C → Bool) (j : Junction) (ps : List (Predicate C)) :
    (junction j ps).holds test =
      if j = .and then ps.all (holds test) else ps.any (holds test) := by
  cases j <;> simp [junction]

/-- A predicate is read through the map of its conditions; the dual is true where it is false. -/
theorem holds_turned (test : D → Bool) (p : Predicate C) : (p.turned dual f).holds test =
    ((p.holds fun c => test (f c) != dual) != dual) := by
  induction p using inductJunction with
  | cond c => simp
  | junction j ps ih =>
    have hall : ps.all (fun p => (p.turned dual f).holds test) =
        ps.all fun p => (p.holds fun c => test (f c) != dual) != dual := by
      rw [Bool.eq_iff_iff, List.all_eq_true, List.all_eq_true]
      exact forall₂_congr fun p hp => by rw [ih p hp]
    have hany : ps.any (fun p => (p.turned dual f).holds test) =
        ps.any fun p => (p.holds fun c => test (f c) != dual) != dual := by
      rw [Bool.eq_iff_iff, List.any_eq_true, List.any_eq_true]
      exact exists_congr fun p => and_congr_right fun hp => by rw [ih p hp]
    rw [turned_junction, holds_junction, holds_junction, List.all_map, List.any_map]
    simp only [Function.comp_def, hall, hany]
    cases dual <;> cases j <;> simp [Junction.turned, List.not_all_eq_any_not,
      List.not_any_eq_all_not]

end Predicate

end EntityQuery
