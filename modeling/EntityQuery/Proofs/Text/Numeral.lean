import EntityQuery.Text.Numeral
import Mathlib.Data.List.Induction
import Mathlib.Tactic.Common

/-!
# Numerals

A numeral is made of digits, denotes the number it was written for, and is as long as its digit
count says.
-/

namespace EntityQuery.Text

variable {n : Nat} {cs ds : List Char}

/-! ### Digits -/

lemma isDigit_digitChar {d : Nat} (h : d < 10) : (digitChar d).isDigit = true := by
  have hall : ∀ d < 10, (digitChar d).isDigit = true := by decide
  exact hall d h

lemma digitValue_digitChar {d : Nat} (h : d < 10) : digitValue (digitChar d) = d := by
  have hall : ∀ d < 10, digitValue (digitChar d) = d := by decide
  exact hall d h

lemma digitsValue_append (cs ds : List Char) :
    digitsValue (cs ++ ds) = digitsValue cs * Nat.pow 10 ds.length + digitsValue ds := by
  induction ds using List.reverseRecOn with
  | nil => simp [digitsValue]
  | append_singleton ds d ih =>
    have hstep : ∀ es, digitsValue (es ++ [d]) = 10 * digitsValue es + digitValue d := by
      intro es
      simp [digitsValue]
    have hpow : Nat.pow 10 (ds ++ [d]).length = 10 * Nat.pow 10 ds.length := by
      rw [List.length_append, Nat.mul_comm]
      rfl
    rw [← List.append_assoc, hstep, hstep, ih, hpow, Nat.mul_add, Nat.mul_left_comm, Nat.add_assoc]

lemma digitsValue_replicate_zero (k : Nat) : digitsValue (List.replicate k '0') = 0 := by
  induction k with
  | zero => rfl
  | succ k ih =>
    rw [List.replicate_succ', digitsValue_append, ih]
    rfl

/-! ### Numerals -/

lemma numeral_ne_nil (n : Nat) : numeral n ≠ [] := by
  rw [numeral]
  split <;> simp

lemma isDigit_of_mem_numeral {c : Char} (h : c ∈ numeral n) : c.isDigit = true := by
  fun_induction numeral n with
  | case1 n hn =>
    obtain rfl := List.mem_singleton.mp h
    exact isDigit_digitChar hn
  | case2 n hn ih =>
    rcases List.mem_append.mp h with h | h
    · exact ih h
    · obtain rfl := List.mem_singleton.mp h
      exact isDigit_digitChar (Nat.mod_lt _ (by decide))

lemma digitsValue_numeral (n : Nat) : digitsValue (numeral n) = n := by
  fun_induction numeral n with
  | case1 n hn => simp [digitsValue, digitValue_digitChar hn]
  | case2 n hn ih =>
    have hlast : digitsValue [digitChar (n % 10)] = n % 10 := by
      simp [digitsValue, digitValue_digitChar (Nat.mod_lt n (by decide : 0 < 10))]
    have hpow : Nat.pow 10 [digitChar (n % 10)].length = 10 := rfl
    rw [digitsValue_append, ih, hlast, hpow]
    omega

lemma length_numeral (n : Nat) : (numeral n).length = digitCount n := by
  fun_induction numeral n with
  | case1 n hn => rw [digitCount, if_pos hn, List.length_singleton]
  | case2 n hn ih => rw [digitCount, if_neg hn, List.length_append, ih, List.length_singleton]

lemma lt_pow_digitCount (n : Nat) : n < Nat.pow 10 (digitCount n) := by
  fun_induction digitCount n with
  | case1 n hn => exact hn
  | case2 n hn ih =>
    have hpow : Nat.pow 10 (digitCount (n / 10) + 1) = Nat.pow 10 (digitCount (n / 10)) * 10 := rfl
    omega

lemma pow_le_of_digitCount (hn : n ≠ 0) : Nat.pow 10 (digitCount n - 1) ≤ n := by
  fun_induction digitCount n with
  | case1 n h => exact Nat.pos_of_ne_zero hn
  | case2 n h ih =>
    have hle := ih (by omega)
    have hpos : 0 < digitCount (n / 10) := by
      rw [digitCount]
      split <;> omega
    obtain ⟨k, hk⟩ : ∃ k, digitCount (n / 10) = k + 1 := ⟨_, (Nat.succ_pred (by omega)).symm⟩
    have hpow : Nat.pow 10 (k + 1) = Nat.pow 10 k * 10 := rfl
    rw [hk] at hle ⊢
    simp only [Nat.add_sub_cancel] at hle ⊢
    omega

lemma digitCount_le_of_lt_pow {width : Nat} (hwidth : 0 < width) (hn : n < Nat.pow 10 width) :
    digitCount n ≤ width := by
  rcases Nat.eq_zero_or_pos n with rfl | hpos
  · rw [digitCount, if_pos (by decide)]
    exact hwidth
  · have hle := pow_le_of_digitCount (Nat.ne_of_gt hpos)
    have hlt : digitCount n - 1 < width :=
      (Nat.pow_lt_pow_iff_right (by decide : 1 < 10)).mp (Nat.lt_of_le_of_lt hle hn)
    omega

/-- A number times a power of ten has zeros behind its digits. -/
lemma numeral_mul_pow (hn : n ≠ 0) (k : Nat) :
    numeral (n * Nat.pow 10 k) = numeral n ++ List.replicate k '0' := by
  induction k with
  | zero => simp
  | succ k ih =>
    have hpow : n * Nat.pow 10 (k + 1) = n * Nat.pow 10 k * 10 := (Nat.mul_assoc ..).symm
    have hpos : 0 < n * Nat.pow 10 k :=
      Nat.mul_pos (Nat.pos_of_ne_zero hn) (Nat.pow_pos (by decide))
    generalize n * Nat.pow 10 k = m at ih hpow hpos
    have hdiv : m * 10 / 10 = m := Nat.mul_div_cancel m (by decide)
    have hmod : m * 10 % 10 = 0 := Nat.mul_mod_left m 10
    rw [hpow, numeral, if_neg (by omega), hdiv, hmod, ih, List.append_assoc, List.replicate_succ']
    rfl

/-! ### Padded numerals -/

variable {width : Nat}

lemma isDigit_of_mem_padded {c : Char} (h : c ∈ padded width n) : c.isDigit = true := by
  rcases List.mem_append.mp h with h | h
  · rw [List.eq_of_mem_replicate h]
    rfl
  · exact isDigit_of_mem_numeral h

lemma padded_ne_nil (width n : Nat) : padded width n ≠ [] := by
  simp [padded, numeral_ne_nil]

lemma digitsValue_padded (width n : Nat) : digitsValue (padded width n) = n := by
  rw [padded, digitsValue_append, digitsValue_replicate_zero, Nat.zero_mul, Nat.zero_add,
    digitsValue_numeral]

lemma length_padded (hwidth : 0 < width) (hn : n < Nat.pow 10 width) :
    (padded width n).length = width := by
  have hle := digitCount_le_of_lt_pow hwidth hn
  rw [padded, List.length_append, List.length_replicate, length_numeral]
  omega

/-! ### Reading -/

lemma readNat?_numeral (n : Nat) : readNat? (numeral n) = some n := by
  have hall : (numeral n).all Char.isDigit = true :=
    List.all_eq_true.mpr fun c hc => isDigit_of_mem_numeral hc
  rw [readNat?, if_pos ⟨numeral_ne_nil n, hall⟩, digitsValue_numeral]

/-- The characters of a sign. -/
def signChars (negative : Bool) : List Char :=
  if negative then ['-'] else []

lemma splitSign_of_isDigit (h : ∀ c ∈ cs.head?, c.isDigit = true) : splitSign cs = (false, cs) := by
  unfold splitSign
  split <;> simp_all

/-- The numeral of an integer, read with its sign. -/
lemma splitSign_integerText (i : Int) :
    splitSign (integerText i).toList = (decide (i < 0), numeral i.natAbs) := by
  by_cases hi : i < 0
  · simp [integerText, hi, splitSign]
  · have hhead : ∀ c ∈ (numeral i.natAbs).head?, c.isDigit = true :=
      fun c hc => isDigit_of_mem_numeral (List.mem_of_head? hc)
    simp [integerText, hi, splitSign_of_isDigit hhead]

lemma fitInt64?_toInt (i : Int64) : fitInt64? i.toInt = some i := by
  rw [fitInt64?, if_pos ⟨i.minValue_le_toInt, i.toInt_le⟩, Int64.ofInt_toInt]

lemma fitInt64?_eq_some {i : Int} {j : Int64} (h : fitInt64? i = some j) :
    j.toInt = i ∧ -9223372036854775808 ≤ i ∧ i ≤ 9223372036854775807 := by
  rw [fitInt64?] at h
  split at h
  · rename_i hrange
    obtain rfl := Option.some.inj h
    exact ⟨Int64.toInt_ofInt_of_le hrange.1 (Int.lt_add_one_of_le hrange.2), hrange⟩
  · cases h

lemma fitInt64?_ne_none {i : Int} (hmin : -9223372036854775808 ≤ i)
    (hmax : i ≤ 9223372036854775807) : fitInt64? i ≠ none := by
  rw [fitInt64?, if_pos ⟨hmin, hmax⟩]
  exact Option.some_ne_none _

/-- A number with a sign fits in 64 bits up to `2 ^ 63`; that number itself needs the sign. -/
lemma fitInt64?_signed (negative : Bool) (n : Nat) :
    match fitInt64? (if negative then -(n : Int) else n) with
    | some i => i.toInt = (if negative then -(n : Int) else n) ∧ n ≤ Nat.pow 2 63
    | none => Nat.pow 2 63 ≤ n := by
  have hpow : Nat.pow 2 63 = 9223372036854775808 := rfl
  rw [hpow]
  split
  · rename_i i hfit
    obtain ⟨hvalue, hmin, hmax⟩ := fitInt64?_eq_some hfit
    refine ⟨hvalue, ?_⟩
    cases negative <;> simp at hmin hmax <;> omega
  · rename_i hfit
    by_contra hlt
    refine fitInt64?_ne_none ?_ ?_ hfit <;> cases negative <;> simp <;> omega

/-- **Integers** are read back from their numerals. -/
lemma readInt64?_integerText (i : Int64) : readInt64? (integerText i.toInt).toList = some i := by
  have habs : (if i.toInt < 0 then -(i.toInt.natAbs : Int) else i.toInt.natAbs) = i.toInt := by
    split <;> omega
  simp only [readInt64?, splitSign_integerText, readNat?_numeral, Option.bind_some,
    decide_eq_true_eq, habs, fitInt64?_toInt]

end EntityQuery.Text
