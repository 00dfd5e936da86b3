import EntityQuery.Proofs.Number.ReadBack

/-!
# Doubles written without an exponent

The plain text of a double is a decimal with a point, or a whole number without one. A whole number
is an integer where it fits in 64 bits, and the double nearest to that integer is the number that
was written. It fits just if the double is below `2 ^ 63`.
-/

namespace EntityQuery

namespace Double

variable {tie : DecimalTie} {units : Nat}

/-- How many least positive doubles are `2 ^ 63`, the first number beyond 64 bits. -/
def integerLimit : Nat :=
  Nat.pow 2 63 * one

lemma representable_integerLimit : Representable integerLimit := by
  decide +kernel

/-- A number whose plain text is read as an equal number. Minus infinity has a sign before a word, a
whole number beyond 64 bits has the text of an integer that is out of range, and not a number equals
nothing. -/
def Legible : Double → Prop
  | .nan => False
  | .infinite negative => negative = false
  | .finite _ units _ => units < integerLimit

instance (d : Double) : Decidable d.Legible :=
  match d with
  | .nan => .isFalse id
  | .infinite negative => inferInstanceAs (Decidable (negative = false))
  | .finite _ units _ => inferInstanceAs (Decidable (units < integerLimit))

/-! ### Equal numbers -/

lemma beq_iff {a b : Double} : (a == b) = true ↔ ∃ x, a.place? = some x ∧ b.place? = some x := by
  change (a.compare? b == some .eq) = true ↔ _
  unfold compare?
  cases a.place? with
  | none => simp
  | some x =>
    cases b.place? with
    | none => simp
    | some y => simpa using eq_comm

/-- The integer that is rounded to a double equals it; zero has one sign only. -/
lemma ofInt_beq (negative : Bool) {n : Nat} (h : Representable units) (hnearest : nearest (n * one) 1 = units) :
    (ofInt (if negative then -n else n) == .finite negative units h) = true := by
  have habs : (if negative then -(n : Int) else n).natAbs = n := by
    cases negative <;> simp
  rw [ofInt, habs, round_eq_finite _ h hnearest, beq_iff]
  refine ⟨_, rfl, ?_⟩
  rcases Nat.eq_zero_or_pos n with rfl | hpos
  · have hzero : units = 0 := by
      rw [← hnearest, Nat.zero_mul]
      exact nearest_eq_zero (by decide)
    simp [place?, hzero]
  · have hsign : decide ((if negative then -(n : Int) else n) < 0) = negative := by
      cases negative <;> simp
      omega
    rw [hsign]
    rfl

/-! ### Whole numbers -/

/-- The number that the shortest decimal of a double is, if it is whole. -/
def whole (tie : DecimalTie) (units : Nat) : Nat :=
  (shortest tie units).digits * Nat.pow 10 (shortest tie units).exponent.toNat

lemma nearest_whole (h : Representable units) (hwhole : 0 ≤ (shortest tie units).exponent) :
    nearest (whole tie units * one) 1 = units := by
  obtain ⟨-, hnearest⟩ := shortest_spec h tie
  refine (nearest_congr Nat.one_pos pow_five_pos ?_).trans hnearest
  have hadd : ((shortest tie units).exponent + 1074).toNat =
      (shortest tie units).exponent.toNat + 1074 := by omega
  rw [whole, Nat.mul_one, Nat.mul_assoc, one_mul_pow_five, Nat.mul_assoc, pow_ten_add, hadd]

/-- **Range**: the whole number written for a double is below `2 ^ 63` if the double is, and above
it if the double is not. -/
lemma whole_range (h : Representable units) (hwhole : 0 ≤ (shortest .upper units).exponent) :
    (units < integerLimit → whole .upper units < Nat.pow 2 63) ∧
      (integerLimit ≤ units → Nat.pow 2 63 < whole .upper units) := by
  have hnearest := nearest_whole h hwhole
  constructor
  · intro hlt
    by_contra hle
    have hone : integerLimit * 1 ≤ whole .upper units * one := by
      rw [Nat.mul_one integerLimit, integerLimit]
      exact Nat.mul_le_mul_right one (Nat.le_of_not_lt hle)
    have hbound := le_nearest representable_integerLimit Nat.one_pos hone
    rw [hnearest] at hbound
    exact Nat.not_le_of_lt hlt hbound
  · intro hle
    by_contra hge
    have hone : whole .upper units * one ≤ integerLimit * 1 := by
      rw [Nat.mul_one integerLimit, integerLimit]
      exact Nat.mul_le_mul_right one (Nat.le_of_not_lt hge)
    have hbound := nearest_le representable_integerLimit Nat.one_pos hone
    rw [hnearest] at hbound
    -- the shortest decimal of the limit itself is above it
    have hlimit : Nat.pow 2 63 < whole .upper integerLimit := by decide +kernel
    rw [Nat.le_antisymm hbound hle] at hge
    exact hge hlimit

/-! ### Large numbers are whole -/

lemma le_strip_exponent {k n : Nat} (exponent : Int) (hn : n ≠ 0) (h : Nat.pow 10 k ∣ n) :
    exponent + k ≤ (Decimal.strip n exponent).exponent := by
  induction k generalizing n exponent with
  | zero =>
    obtain ⟨hle, -, -⟩ := strip_spec exponent hn
    simpa using hle
  | succ k ih =>
    obtain ⟨m, rfl⟩ := h
    have hsucc : Nat.pow 10 (k + 1) * m = Nat.pow 10 k * m * 10 := by
      change Nat.pow 10 k * 10 * m = _
      rw [Nat.mul_right_comm]
    rw [hsucc] at hn ⊢
    rw [Decimal.strip, if_neg hn, if_pos (Nat.mul_mod_left _ _), Nat.mul_div_cancel _ (by decide)]
    have hle := ih (exponent + 1) (by omega) (Nat.dvd_mul_right _ m)
    omega

/-- A decimal with a number of digits is a multiple of the step between such decimals. -/
lemma step_dvd_of_withDigits? {exact count places : Nat}
    (h : withDigits? tie units exact count = some places) :
    Nat.pow 10 (Text.digitCount exact - count) ∣ places := by
  unfold withDigits? at h
  simp only [] at h
  generalize Nat.pow 10 (Text.digitCount exact - count) = step at h ⊢
  have hlow : step ∣ exact / step * step := Nat.dvd_mul_left _ _
  have hhigh : step ∣ exact / step * step + step := Nat.dvd_add hlow (Nat.dvd_refl _)
  split at h
  · rename_i hexact
    cases h
    rwa [hexact] at hlow
  · split at h
    · cases h
      split
      · exact hlow
      · exact hhigh
    · cases h
      exact hlow
    · cases h
      exact hhigh
    · cases h

/-- A double from `2 ^ 63` up is a whole number, and so is its shortest decimal, which has at most
17 digits before its zeros. -/
lemma whole_of_large (h : Representable units) (large : integerLimit ≤ units) :
    0 ≤ (shortest tie units).exponent := by
  have hunits : units ≠ 0 := by
    have hpos : 0 < integerLimit := by decide +kernel
    omega
  have hone : one ∣ units := by
    refine Nat.dvd_trans ?_ (spacing_dvd_of_le h large)
    have hspacing : one ∣ spacing integerLimit := by decide +kernel
    exact hspacing
  have hcount : 1093 ≤ Text.digitCount (units * Nat.pow 5 1074) := by
    have hpow : Nat.pow 10 1092 ≤ integerLimit * Nat.pow 5 1074 := by decide +kernel
    have hle := Nat.le_trans hpow (Nat.mul_le_mul_right (Nat.pow 5 1074) large)
    have hlt := Nat.lt_of_le_of_lt hle (Text.lt_pow_digitCount _)
    exact (Nat.pow_lt_pow_iff_right (by decide : 1 < 10)).mp hlt
  obtain ⟨places, hplaces, hdvd⟩ : ∃ places, shortest tie units = .strip places (-1074) ∧
      Nat.pow 10 1074 ∣ places := by
    refine ⟨_, rfl, ?_⟩
    cases hfound : (List.range' 1 17).findSome?
        (withDigits? tie units (units * Nat.pow 5 1074)) with
    | none =>
      rw [Option.getD_none, ← one_mul_pow_five]
      exact Nat.mul_dvd_mul_right hone _
    | some places =>
      obtain ⟨count, hmem, hstep⟩ := List.exists_of_findSome?_eq_some hfound
      have hle : count ≤ 17 := by
        have := List.mem_range'_1.mp hmem
        omega
      exact Nat.dvd_trans (Nat.pow_dvd_pow 10 (by omega)) (step_dvd_of_withDigits? hstep)
  have hne : places ≠ 0 := by
    rintro rfl
    obtain ⟨-, hnearest⟩ := shortest_spec h tie
    have hstrip : Decimal.strip 0 (-1074) = ⟨0, 0⟩ := by rw [Decimal.strip, if_pos rfl]
    have hzero : nearest 0 (Nat.pow 5 1074) = 0 := nearest_eq_zero pow_five_pos
    rw [hplaces, hstrip] at hnearest
    simp only [Nat.zero_mul] at hnearest
    exact hunits (hnearest.symm.trans hzero)
  rw [hplaces]
  exact le_strip_exponent (-1074) hne hdvd

/-! ### Plain text -/

lemma positionalText_whole {d : Decimal} (h : 0 ≤ d.exponent) :
    (DoubleLayout.positionalText false d).toList =
      Text.numeral (d.digits * Nat.pow 10 d.exponent.toNat) := by
  by_cases hdigits : d.digits = 0
  · simp [DoubleLayout.positionalText, h, hdigits]
  · rw [Text.numeral_mul_pow hdigits]
    simp [DoubleLayout.positionalText, h, hdigits]

/-- **Plain text**: after its sign, a double is written as a whole number, or as a decimal with a
point that is read as this double. -/
theorem exists_plainText (negative : Bool) (h : Representable units) :
    (0 ≤ (shortest .upper units).exponent ∧
      (plainText (.finite negative units h)).toList =
        Text.signChars negative ++ Text.numeral (whole .upper units)) ∨
    (units < integerLimit ∧ ∃ w : WrittenDecimal, w.Proper ∧
      w.value negative = .finite negative units h ∧
      (plainText (.finite negative units h)).toList = Text.signChars negative ++ w.chars) := by
  have htext : (plainText (.finite negative units h)).toList = Text.signChars negative ++
      (DoubleLayout.positionalText false (shortest .upper units)).toList := by
    have hsign : plainText (.finite negative units h) = (if negative then "-" else "") ++
        (if (shortest .upper units).digits = 0 ∨
          DoubleLayout.plain.positional (shortest .upper units).leading then
          DoubleLayout.positionalText false (shortest .upper units)
        else DoubleLayout.scientificText DoubleLayout.plain.exponentText
          (shortest .upper units)) := rfl
    have hpositional : (shortest .upper units).digits = 0 ∨
        DoubleLayout.plain.positional (shortest .upper units).leading := .inr rfl
    rw [hsign, if_pos hpositional, String.toList_append]
    cases negative <;> rfl
  rw [htext]
  by_cases hwhole : 0 ≤ (shortest .upper units).exponent
  · exact .inl ⟨hwhole, by rw [positionalText_whole hwhole]; rfl⟩
  · obtain ⟨hexponent, hnearest⟩ := shortest_spec h .upper
    obtain ⟨w, hproper, hchars, hdenotes⟩ := DoubleLayout.exists_fraction hwhole false
    refine .inr ⟨?_, w, hproper, hdenotes.value_eq h hexponent rfl hnearest negative, ?_⟩
    · exact Nat.lt_of_not_le fun hlarge => hwhole (whole_of_large h hlarge)
    · rw [hchars]

/-- The whole number written for a double fits in 64 bits if the double is legible, and is the
integer that equals it. -/
lemma fitInt64?_whole (negative : Bool) (h : Representable units)
    (hwhole : 0 ≤ (shortest .upper units).exponent) :
    match Text.fitInt64?
      (if negative then -(whole .upper units : Nat) else (whole .upper units : Nat)) with
    | some i => units < integerLimit ∧ (ofInt i.toInt == .finite negative units h) = true
    | none => ¬ units < integerLimit := by
  obtain ⟨hsmall, hlarge⟩ := whole_range h hwhole
  have hequal := ofInt_beq negative h (nearest_whole h hwhole)
  have hfit := Text.fitInt64?_signed negative (whole .upper units)
  split
  · rename_i i hsome
    rw [hsome] at hfit
    exact ⟨Nat.lt_of_not_le fun hle => Nat.not_lt.mpr hfit.2 (hlarge hle), hfit.1 ▸ hequal⟩
  · rename_i hnone
    rw [hnone] at hfit
    exact fun hlt => Nat.not_le.mpr (hsmall hlt) hfit

end Double

end EntityQuery
