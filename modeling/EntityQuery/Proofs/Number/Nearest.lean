import EntityQuery.Number.Double
import Mathlib.Tactic.Common

/-!
# Rounding

Rounding to the nearest double looks at a quotient, not at how it is written: it is the same for
equal quotients, it is exact on doubles, and it is off by less than half of the quotient.
-/

namespace EntityQuery.Double

variable {a b c d k num den units : Nat}

lemma spacing_pos (q : Nat) : 0 < spacing q :=
  Nat.two_pow_pos _

lemma nearest_mul (hk : 0 < k) (num den : Nat) :
    nearest (k * num) (k * den) = nearest num den := by
  have hgap : spacing (num / den) * (k * den) = k * (spacing (num / den) * den) :=
    Nat.mul_left_comm _ _ _
  have hle : ∀ x y, k * x < k * y ↔ x < y := fun x y => Nat.mul_lt_mul_left hk
  have heq : ∀ x y, k * x = k * y ↔ x = y := fun x y => Nat.mul_right_inj (Nat.ne_of_gt hk)
  unfold nearest
  simp only [Nat.mul_div_mul_left _ _ hk, hgap, Nat.mul_mod_mul_left, Nat.mul_left_comm 2 k, hle,
    heq]

/-- Equal quotients are rounded to the same double. -/
lemma nearest_congr (hb : 0 < b) (hd : 0 < d) (h : a * d = c * b) : nearest a b = nearest c d := by
  rw [← nearest_mul hd a b, ← nearest_mul hb c d, Nat.mul_comm d a, h, Nat.mul_comm c b,
    Nat.mul_comm d b]

/-- A double is rounded to itself. -/
lemma nearest_of_representable (h : Representable units) (hk : 0 < k) :
    nearest (units * k) k = units := by
  have hone : nearest units 1 = units := by
    have hrest : units % spacing units = 0 := Nat.mod_eq_zero_of_dvd h.1
    have hlow : units / spacing units * spacing units = units := Nat.div_mul_cancel h.1
    unfold nearest
    simp only [Nat.div_one, Nat.mul_one, hrest, Nat.mul_zero, spacing_pos, true_or, if_true, hlow]
  rw [nearest_congr (d := 1) hk Nat.one_pos (Nat.mul_one _), hone]

/-- Less than half of the least positive double is rounded to zero. -/
lemma nearest_eq_zero (h : 2 * num < den) : nearest num den = 0 := by
  have hquotient : num / den = 0 := Nat.div_eq_of_lt (by omega)
  have hgap : spacing 0 * den = den := Nat.one_mul den
  have hrest : num % den = num := Nat.mod_eq_of_lt (by omega)
  unfold nearest
  simp only [hquotient, hgap, hrest, h, true_or, if_true, Nat.zero_mul]

/-- The doubles around a number are not further apart than half of it, unless they are next to each
other. -/
lemma spacing_le (q : Nat) : spacing q = 1 ∨ 2 * spacing q ≤ q := by
  by_cases hlog : q.log2 ≤ 52
  · have hzero : q.log2 - 52 = 0 := by omega
    left
    rw [spacing, hzero]
  · right
    have hq : q ≠ 0 := by
      rintro rfl
      exact hlog (by decide)
    calc 2 * spacing q = 2 ^ (q.log2 - 52 + 1) := by rw [Nat.pow_succ, Nat.mul_comm]; rfl
      _ ≤ 2 ^ q.log2 := Nat.pow_le_pow_right (by omega) (by omega)
      _ ≤ q := Nat.log2_self_le hq

/-- What a quotient is rounded down to is no more than what it is rounded to. -/
lemma floor_le_nearest (num den : Nat) :
    num / den / spacing (num / den) * spacing (num / den) ≤ nearest num den := by
  have hlow : num / (spacing (num / den) * den) = num / den / spacing (num / den) := by
    rw [Nat.mul_comm, ← Nat.div_div_eq_div_mul]
  unfold nearest
  simp only [hlow]
  split
  · exact Nat.le_refl _
  · exact Nat.mul_le_mul_right _ (Nat.le_succ _)

/-- Rounding keeps half of a quotient. -/
lemma div_le_two_mul_nearest (num den : Nat) : num / den ≤ 2 * nearest num den := by
  have hnearest := floor_le_nearest num den
  generalize num / den = q at *
  have hsplit : q / spacing q * spacing q + q % spacing q = q := Nat.div_add_mod' q _
  have hrest : q % spacing q < spacing q := Nat.mod_lt _ (spacing_pos q)
  have hgap := spacing_le q
  omega

/-! ### Doubles as bounds -/

/-- A double that is no larger than a number is a multiple of a smaller spacing. -/
lemma spacing_dvd_of_le {q : Nat} (h : Representable units) (hq : q ≤ units) :
    spacing q ∣ units := by
  refine Nat.dvd_trans (Nat.pow_dvd_pow 2 ?_) h.1
  have hlog : q.log2 ≤ units.log2 := by
    rcases Nat.eq_zero_or_pos q with rfl | hpos
    · exact Nat.zero_le _
    · rw [Nat.le_log2 (by omega)]
      exact Nat.le_trans (Nat.log2_self_le (by omega)) hq
  omega

/-- Rounding does not go below a double that a quotient is not below. -/
lemma le_nearest (h : Representable units) (hden : 0 < den) (hle : units * den ≤ num) :
    units ≤ nearest num den := by
  have hquotient : units ≤ num / den := (Nat.le_div_iff_mul_le hden).mpr hle
  refine Nat.le_trans ?_ (floor_le_nearest num den)
  generalize num / den = q at hquotient ⊢
  -- multiples of the spacing below the quotient are below what it is rounded down to
  have hmultiple : ∀ m, spacing q ∣ m → m ≤ q → m ≤ q / spacing q * spacing q := by
    rintro m ⟨k, rfl⟩ hm
    rw [Nat.mul_comm]
    refine Nat.mul_le_mul_right _ ((Nat.le_div_iff_mul_le (spacing_pos q)).mpr ?_)
    rwa [Nat.mul_comm]
  rcases Nat.eq_zero_or_pos q with rfl | hpos
  · omega
  by_cases hsmall : units < 2 ^ q.log2
  · refine Nat.le_trans (Nat.le_of_lt hsmall) (hmultiple _ ?_ (Nat.log2_self_le (by omega)))
    exact Nat.pow_dvd_pow 2 (Nat.sub_le ..)
  · refine hmultiple units ?_ hquotient
    refine Nat.dvd_trans (Nat.pow_dvd_pow 2 ?_) h.1
    have hlog : q.log2 ≤ units.log2 := by
      rw [Nat.le_log2 (by have := Nat.two_pow_pos q.log2; omega)]
      omega
    omega

/-- Rounding does not go above a double that a quotient is not above. -/
lemma nearest_le (h : Representable units) (hden : 0 < den) (hle : num ≤ units * den) :
    nearest num den ≤ units := by
  have hquotient : num / den ≤ units := Nat.div_le_of_le_mul (by rwa [Nat.mul_comm])
  obtain ⟨k, hk⟩ := spacing_dvd_of_le h hquotient
  have hgap := Nat.mul_pos (spacing_pos (num / den)) hden
  unfold nearest
  simp only []
  generalize spacing (num / den) = gap at hk hgap ⊢
  subst hk
  have hbound : num ≤ k * (gap * den) := by
    rwa [← Nat.mul_assoc, Nat.mul_comm k gap]
  have hsplit : num / (gap * den) * (gap * den) + num % (gap * den) = num := Nat.div_add_mod' _ _
  rw [Nat.mul_comm gap k]
  split
  · refine Nat.mul_le_mul_right _ ?_
    exact Nat.div_le_of_le_mul (by rwa [Nat.mul_comm])
  · -- the quotient is above what it is rounded down to, so the double is too
    refine Nat.mul_le_mul_right _ (Nat.div_lt_of_lt_mul (Nat.lt_of_le_of_ne ?_ ?_))
    · rwa [Nat.mul_comm]
    · rintro rfl
      simp_all

end EntityQuery.Double
