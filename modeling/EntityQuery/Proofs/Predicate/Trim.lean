import EntityQuery.Proofs.Predicate.Turned

/-!
# Trim predicates

A predicate is trim if no junction in it has one child, or a child that is a junction of the same
kind. Junctions may be empty, which is what tells trim predicates from flat ones. Joining predicates
and replacing conditions by trim predicates yield trim ones, and on trim results the two commute: it
makes no difference whether predicates are joined before their conditions are replaced, or after.
-/

namespace EntityQuery.Predicate

variable {C D E : Type} {j : Junction} {p : Predicate C} {ps : List (Predicate C)}

/-- No junction has one child, or a child that is a junction of the same kind. -/
inductive Trim : Predicate C → Prop where
  | cond (c : C) : Trim (.cond c)
  | junction {j : Junction} {ps : List (Predicate C)} (count : ps.length ≠ 1)
      (apart : ∀ p ∈ ps, Apart j p) (all : ∀ p ∈ ps, Trim p) : Trim (junction j ps)

lemma Trim.of_junction (h : (Predicate.junction j ps).Trim) :
    ps.length ≠ 1 ∧ ∀ p ∈ ps, p.Trim ∧ Apart j p := by
  generalize hq : Predicate.junction j ps = q at h
  cases h with
  | cond c => cases j <;> cases hq
  | @junction j' _ count apart all =>
    cases j <;> cases j' <;> cases hq <;> exact ⟨count, fun p hp => ⟨all p hp, apart p hp⟩⟩

/-! ### Joining -/

/-- What a trim predicate brings into a junction is trim and no junction of the same kind. -/
lemma Trim.operandsIn (h : p.Trim) : ∀ q ∈ operandsIn j p, q.Trim ∧ Apart j q := by
  rcases exists_junction_or_apart j p with ⟨inner, rfl⟩ | apart
  · rw [operandsIn_junction]
    exact h.of_junction.2
  · rw [apart.operandsIn_eq]
    exact List.forall_mem_singleton.mpr ⟨h, apart⟩

lemma trim_joined (h : ∀ p ∈ ps, p.Trim ∧ Apart j p) : (joined j ps).Trim := by
  by_cases count : ps.length = 1
  · obtain ⟨p, rfl⟩ := List.length_eq_one_iff.mp count
    exact (h p (by simp)).1
  · rw [joined_eq_junction count]
    exact .junction count (fun p hp => (h p hp).2) fun p hp => (h p hp).1

lemma operandsIn_joined (apart : ∀ p ∈ ps, Apart j p) : operandsIn j (joined j ps) = ps := by
  by_cases count : ps.length = 1
  · obtain ⟨p, rfl⟩ := List.length_eq_one_iff.mp count
    exact (apart p (by simp)).operandsIn_eq
  · rw [joined_eq_junction count, operandsIn_junction]

lemma forall_mem_flatMap_operandsIn (h : ∀ p ∈ ps, p.Trim) :
    ∀ q ∈ ps.flatMap (operandsIn j), q.Trim ∧ Apart j q := by
  intro q hq
  obtain ⟨p, hp, hq⟩ := List.mem_flatMap.mp hq
  exact (h p hp).operandsIn q hq

/-- Junctions of trim predicates are trim. -/
lemma trim_join (h : ∀ p ∈ ps, p.Trim) : (join j ps).Trim :=
  trim_joined (forall_mem_flatMap_operandsIn h)

/-- The operands of a junction are what its parts bring into it. -/
lemma operandsIn_join_of_trim (h : ∀ p ∈ ps, p.Trim) :
    operandsIn j (join j ps) = ps.flatMap (operandsIn j) :=
  operandsIn_joined fun q hq => (forall_mem_flatMap_operandsIn h q hq).2

/-- Nothing is to be done for a junction of one trim predicate. -/
lemma join_singleton_of_trim (h : p.Trim) : join j [p] = p := by
  rw [join, List.flatMap_singleton]
  rcases exists_junction_or_apart j p with ⟨inner, rfl⟩ | apart
  · rw [operandsIn_junction, joined_eq_junction h.of_junction.1]
  · rw [apart.operandsIn_eq]
    rfl

/-! ### Replacing conditions -/

variable {f : C → Except E (Predicate D)} {q : Predicate D} {qs : List (Predicate D)}

/-- Replacing conditions by trim predicates yields a trim one, whatever the predicate was. -/
theorem trim_mapM (h : p.mapM f = .ok q) (hf : ∀ c ∈ p.conditions, ∀ a, f c = .ok a → a.Trim) :
    q.Trim := by
  induction p using inductJunction generalizing q with
  | cond c =>
    rw [mapM] at h
    exact hf c (by simp) q h
  | junction j ps ih =>
    obtain ⟨qs, hqs, rfl⟩ := mapM_junction_eq_ok.mp h
    refine trim_join fun q hq => ?_
    obtain ⟨p, hp, hpq⟩ := exists_of_mem_mapAllM hqs hq
    refine ih p hp hpq fun c hc => hf c ?_
    rw [conditions_junction]
    exact List.mem_flatMap.mpr ⟨p, hp, hc⟩

lemma mapAllM_append_eq_ok {ps' : List (Predicate C)} {qs' : List (Predicate D)}
    (h : mapAllM f ps = .ok qs) (h' : mapAllM f ps' = .ok qs') :
    mapAllM f (ps ++ ps') = .ok (qs ++ qs') := by
  induction ps generalizing qs with
  | nil =>
    rw [mapAllM] at h
    cases h
    exact h'
  | cons p ps ih =>
    obtain ⟨q, rest, hq, hrest, rfl⟩ := mapAllM_cons_eq_ok.mp h
    exact mapAllM_cons_eq_ok.mpr ⟨q, rest ++ qs', hq, ih hrest, rfl⟩

lemma mapAllM_singleton_eq_ok (h : p.mapM f = .ok q) : mapAllM f [p] = .ok [q] :=
  mapAllM_cons_eq_ok.mpr ⟨q, [], h, by rw [mapAllM], rfl⟩

variable (hf : ∀ c a, f c = .ok a → a.Trim)

include hf

lemma trim_of_mem_mapAllM (h : mapAllM f ps = .ok qs) : ∀ q ∈ qs, q.Trim := by
  intro q hq
  obtain ⟨p, -, hpq⟩ := exists_of_mem_mapAllM h hq
  exact trim_mapM hpq fun c _ => hf c

/-- What a predicate brings into a junction is replaced by what its replacement brings into it. -/
lemma exists_mapAllM_operandsIn (j : Junction) (h : p.mapM f = .ok q) :
    ∃ qs, mapAllM f (operandsIn j p) = .ok qs ∧
      qs.flatMap (operandsIn j) = operandsIn j q := by
  rcases exists_junction_or_apart j p with ⟨inner, rfl⟩ | apart
  · obtain ⟨qs, hqs, rfl⟩ := mapM_junction_eq_ok.mp h
    rw [operandsIn_junction]
    exact ⟨qs, hqs, (operandsIn_join_of_trim (trim_of_mem_mapAllM hf hqs)).symm⟩
  · rw [apart.operandsIn_eq]
    exact ⟨[q], mapAllM_singleton_eq_ok h, List.flatMap_singleton _ _⟩

lemma exists_mapAllM_flatMap_operandsIn (j : Junction) (h : mapAllM f ps = .ok qs) :
    ∃ rs, mapAllM f (ps.flatMap (operandsIn j)) = .ok rs ∧
      rs.flatMap (operandsIn j) = qs.flatMap (operandsIn j) := by
  induction ps generalizing qs with
  | nil =>
    rw [mapAllM] at h
    cases h
    exact ⟨[], by rw [List.flatMap_nil, mapAllM], rfl⟩
  | cons p ps ih =>
    obtain ⟨q, rest, hq, hrest, rfl⟩ := mapAllM_cons_eq_ok.mp h
    obtain ⟨front, hfront, hfronts⟩ := exists_mapAllM_operandsIn hf j hq
    obtain ⟨back, hback, hbacks⟩ := ih hrest
    refine ⟨front ++ back, mapAllM_append_eq_ok hfront hback, ?_⟩
    rw [List.flatMap_append, hfronts, hbacks, List.flatMap_cons]

/-- **Joining before and after.** Predicates whose conditions have been replaced are joined to what
replacing yields for the predicates joined. -/
theorem mapM_join (h : mapAllM f ps = .ok qs) : (join j ps).mapM f = .ok (join j qs) := by
  obtain ⟨rs, hrs, hoperands⟩ := exists_mapAllM_flatMap_operandsIn hf j h
  have hjoin : join j qs = join j rs := by rw [join, ← hoperands, join]
  rw [hjoin, join]
  by_cases count : (ps.flatMap (operandsIn j)).length = 1
  · -- the junction is not needed before, and none is made after
    obtain ⟨p, hp⟩ := List.length_eq_one_iff.mp count
    rw [hp] at hrs ⊢
    obtain ⟨q, rest, hq, hrest, rfl⟩ := mapAllM_cons_eq_ok.mp hrs
    rw [mapAllM] at hrest
    cases hrest
    rw [join_singleton_of_trim (trim_mapM hq fun c _ => hf c)]
    exact hq
  · rw [joined_eq_junction count]
    exact mapM_junction_eq_ok.mpr ⟨rs, hrs, rfl⟩

end EntityQuery.Predicate
