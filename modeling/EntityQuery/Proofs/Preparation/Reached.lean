import EntityQuery.Proofs.Predicate.Trim
import EntityQuery.Proofs.Preparation.Rewritten

/-!
# Which conditions settling ends with

Settling a condition succeeds if it succeeds for all conditions that the first change makes of it.
Which conditions remain is read off the changes alone: they are the ones that a chain of changes
ends with, however deep the settling may go. Assertions have to hold in one of them and negations in
all, so the chains are all that the truth of the result depends on.
-/

namespace EntityQuery

variable {r : Registry}

/-! ### Replacing conditions -/

namespace Predicate

variable {C D E : Type} {f : C → Except E (Predicate D)} {p : Predicate C}

/-- Replacing succeeds if every condition can be replaced. -/
lemma exists_mapM_iff : (∃ q, p.mapM f = .ok q) ↔ ∀ c ∈ p.conditions, ∃ a, f c = .ok a := by
  induction p using inductJunction with
  | cond c => simp [mapM]
  | junction j ps ih =>
    have hall : (∃ qs, mapAllM f ps = .ok qs) ↔ ∀ p ∈ ps, ∃ q, p.mapM f = .ok q := by
      clear ih
      induction ps with
      | nil => simp [mapAllM]
      | cons p ps ihps =>
        rw [List.forall_mem_cons, ← ihps]
        constructor
        · rintro ⟨qs, h⟩
          obtain ⟨q, rest, hq, hrest, -⟩ := mapAllM_cons_eq_ok.mp h
          exact ⟨⟨q, hq⟩, ⟨rest, hrest⟩⟩
        · rintro ⟨⟨q, hq⟩, ⟨rest, hrest⟩⟩
          exact ⟨q :: rest, mapAllM_cons_eq_ok.mpr ⟨q, rest, hq, hrest, rfl⟩⟩
    have hjunction : (∃ q, (junction j ps).mapM f = .ok q) ↔ ∃ qs, mapAllM f ps = .ok qs := by
      simp only [mapM_junction_eq_ok]
      constructor
      · rintro ⟨_, qs, h, -⟩
        exact ⟨qs, h⟩
      · rintro ⟨qs, h⟩
        exact ⟨_, qs, h, rfl⟩
    rw [hjunction, hall, conditions_junction]
    simp only [List.mem_flatMap]
    constructor
    · rintro h c ⟨p, hp, hc⟩
      exact (ih p hp).mp (h p hp) c hc
    · exact fun h p hp => (ih p hp).mpr fun c hc => h c ⟨p, hp, hc⟩

lemma exists_mem_mapAllM {ps : List (Predicate C)} {qs : List (Predicate D)}
    (h : mapAllM f ps = .ok qs) (hp : p ∈ ps) : ∃ q ∈ qs, p.mapM f = .ok q := by
  induction ps generalizing qs with
  | nil => simp at hp
  | cons p' ps ih =>
    obtain ⟨q, rest, hq, hrest, rfl⟩ := mapAllM_cons_eq_ok.mp h
    rcases List.mem_cons.mp hp with rfl | hp
    · exact ⟨q, by simp, hq⟩
    · obtain ⟨q', hq', hmap⟩ := ih hrest hp
      exact ⟨q', by simp [hq'], hmap⟩

/-- The conditions of the result are those of what the conditions were replaced by. -/
lemma mem_conditions_mapM {q : Predicate D} (h : p.mapM f = .ok q) {d : D} :
    d ∈ q.conditions ↔ ∃ c ∈ p.conditions, ∃ a, f c = .ok a ∧ d ∈ a.conditions := by
  refine ⟨exists_of_mem_conditions_mapM h, ?_⟩
  rintro ⟨c, hc, a, ha, hd⟩
  induction p using inductJunction generalizing q with
  | cond c' =>
    rw [mapM] at h
    rw [conditions_cond, List.mem_singleton] at hc
    subst hc
    obtain rfl := Except.ok.inj (ha.symm.trans h)
    exact hd
  | junction j ps ih =>
    obtain ⟨qs, hqs, rfl⟩ := mapM_junction_eq_ok.mp h
    rw [conditions_junction, List.mem_flatMap] at hc
    obtain ⟨p, hp, hc⟩ := hc
    obtain ⟨q, hq, hpq⟩ := exists_mem_mapAllM hqs hp
    rw [conditions_join]
    exact List.mem_flatMap.mpr ⟨q, hq, ih p hp hpq hc⟩

end Predicate

/-! ### Chains of changes -/

namespace Stage

variable {stages : List Stage} {check : Condition → Except PrepareError Unit}
  {depth start n : Nat} {c d e : Condition} {p q : Predicate Condition}

/-- Settling a condition succeeds within a depth. -/
def Settles (stages : List Stage) (check : Condition → Except PrepareError Unit)
    (depth start : Nat) (c : Condition) : Prop :=
  ∃ q, settle stages check depth start c = .ok q

/-- A chain of changes, each the first one from some stage on, ends with a condition. -/
inductive Reaches (stages : List Stage) : Nat → Condition → Condition → Prop where
  | stop {start : Nat} {c : Condition} (h : firstChange c start (stages.drop start) = .ok none) :
      Reaches stages start c c
  | onward {start n : Nat} {c d e : Condition} {p : Predicate Condition}
      (h : firstChange c start (stages.drop start) = .ok (some (n, p))) (hd : d ∈ p.conditions)
      (rest : Reaches stages (if d == c then n + 1 else 0) d e) : Reaches stages start c e

lemma settles_succ_of_none (h : firstChange c start (stages.drop start) = .ok none) :
    Settles stages check (depth + 1) start c ↔ check c = .ok () := by
  unfold Settles
  rw [settle, h]
  cases check c <;> simp [Except.map]

lemma settles_succ_of_some (h : firstChange c start (stages.drop start) = .ok (some (n, p))) :
    Settles stages check (depth + 1) start c ↔
      ∀ d ∈ p.conditions, Settles stages check depth (if d == c then n + 1 else 0) d := by
  unfold Settles
  rw [settle, h]
  exact Predicate.exists_mapM_iff

/-- A condition that settles is changed first, or not at all. -/
lemma Settles.exists_change (h : Settles stages check depth start c) :
    ∃ depth' change, depth = depth' + 1 ∧
      firstChange c start (stages.drop start) = .ok change := by
  obtain ⟨q, hq⟩ := h
  cases depth with
  | zero => simp [settle] at hq
  | succ depth =>
    rcases settle_eq_ok hq with ⟨hnone, -⟩ | ⟨n, p, hsome, -⟩
    · exact ⟨depth, none, rfl, hnone⟩
    · exact ⟨depth, some (n, p), rfl, hsome⟩

/-- What settles goes on to settle within a greater depth. -/
lemma Settles.mono (h : Settles stages check depth start c) {depth' : Nat}
    (hle : depth ≤ depth') : Settles stages check depth' start c := by
  induction depth generalizing depth' start c with
  | zero =>
    obtain ⟨_, _, hdepth, -⟩ := h.exists_change
    cases hdepth
  | succ depth ih =>
    obtain ⟨depth', rfl⟩ : ∃ k, depth' = k + 1 := ⟨depth' - 1, by omega⟩
    obtain ⟨_, change, -, hchange⟩ := h.exists_change
    cases change with
    | none => rwa [settles_succ_of_none hchange] at h ⊢
    | some change =>
      rw [settles_succ_of_some hchange] at h ⊢
      exact fun d hd => ih (h d hd) (by omega)

/-- **What remains** are the ends of the chains. -/
theorem mem_settle_iff (h : settle stages check depth start c = .ok q) :
    d ∈ q.conditions ↔ Reaches stages start c d := by
  induction depth generalizing start c q with
  | zero => simp [settle] at h
  | succ depth ih =>
    rcases settle_eq_ok h with ⟨hnone, -, rfl⟩ | ⟨n, p, hchange, hp⟩
    · rw [Predicate.conditions_cond, List.mem_singleton]
      constructor
      · rintro rfl
        exact .stop hnone
      · intro hreach
        cases hreach with
        | stop => rfl
        | onward hsome => cases hnone.symm.trans hsome
    · rw [Predicate.mem_conditions_mapM hp]
      constructor
      · rintro ⟨b, hb, a, ha, hd⟩
        exact .onward hchange hb ((ih ha).mp hd)
      · intro hreach
        cases hreach with
        | stop hnone => cases hnone.symm.trans hchange
        | @onward _ _ _ b _ _ hsome hb rest =>
          cases hchange.symm.trans hsome
          obtain ⟨a, ha⟩ := Predicate.exists_mapM_iff.mp ⟨q, hp⟩ b hb
          exact ⟨b, hb, a, ha, (ih ha).mpr rest⟩

/-- A condition that a change repeats from the first stage on cannot settle. -/
lemma Settles.beq_self (h : Settles stages check depth 0 c)
    (hchange : firstChange c 0 stages = .ok (some (n, p))) (hc : c ∈ p.conditions) :
    (c == c) = true := by
  induction depth with
  | zero =>
    obtain ⟨_, _, hdepth, -⟩ := h.exists_change
    cases hdepth
  | succ depth ih =>
    have hdrop : firstChange c 0 (stages.drop 0) = .ok (some (n, p)) := hchange
    have hrest := (settles_succ_of_some hdrop).mp h c hc
    cases hself : c == c with
    | true => rfl
    | false => exact hself ▸ ih (by simpa [hself] using hrest)

end Stage

end EntityQuery
