import EntityQuery.Text.Numeral

/-!
Floating point numbers of 64 bits, held exactly.

Every finite double is a whole multiple of the least positive one, `2 ^ -1074`; the multiple has at
most 53 significant bits. Reading, converting and scaling therefore are exact arithmetic followed
by one rounding to the nearest double, a tie going to the even neighbour.
-/

namespace EntityQuery

/-- The distance between the doubles around a multiple of the least positive double. -/
def Double.spacing (units : Nat) : Nat :=
  Nat.pow 2 (units.log2 - 52)

/-- The first multiple of the least positive double that is too large for a double. -/
def Double.limit : Nat :=
  Nat.pow 2 2098

/-- A multiple of the least positive double that is a double itself. -/
def Double.Representable (units : Nat) : Prop :=
  Double.spacing units ∣ units ∧ units < Double.limit

instance (units : Nat) : Decidable (Double.Representable units) :=
  inferInstanceAs (Decidable (_ ∧ _))

/-- A double: not a number, an infinity, or a signed multiple of `2 ^ -1074`. -/
inductive Double where
  | nan
  | infinite (negative : Bool)
  | finite (negative : Bool) (units : Nat) (representable : Double.Representable units)
  deriving DecidableEq

namespace Double

theorem limit_pos : 0 < limit := by
  unfold limit
  generalize 2098 = k
  exact Nat.two_pow_pos k

/-- Positive zero. -/
def zero : Double :=
  .finite false 0 ⟨Nat.dvd_zero _, limit_pos⟩

instance : Inhabited Double := ⟨zero⟩

/-- The multiple nearest to a quotient, among those with 53 significant bits; a tie goes to the
neighbour whose last bit is clear. -/
def nearest (num den : Nat) : Nat :=
  let gap := spacing (num / den)
  let low := num / (gap * den)
  let rest := num % (gap * den)
  if 2 * rest < gap * den ∨ (2 * rest = gap * den ∧ low % 2 = 0) then low * gap
  else (low + 1) * gap

theorem spacing_dvd_mul_two_pow {m : Nat} (k : Nat) (h : m ≤ Nat.pow 2 53) :
    spacing (m * Nat.pow 2 k) ∣ m * Nat.pow 2 k := by
  change m ≤ 2 ^ 53 at h
  change 2 ^ ((m * 2 ^ k).log2 - 52) ∣ m * 2 ^ k
  rcases Nat.eq_zero_or_pos m with rfl | hm
  · simp
  rcases Nat.lt_or_eq_of_le h with h | rfl
  · refine Nat.dvd_trans (Nat.pow_dvd_pow 2 ?_) (Nat.dvd_mul_left _ _)
    have hpos : m * 2 ^ k ≠ 0 := Nat.mul_ne_zero (by omega) (Nat.ne_of_gt (Nat.two_pow_pos k))
    have : (m * 2 ^ k).log2 < 53 + k := by
      rw [Nat.log2_lt hpos, Nat.pow_add]
      exact Nat.mul_lt_mul_of_pos_right h (Nat.two_pow_pos k)
    omega
  · rw [← Nat.pow_add]
    refine Nat.pow_dvd_pow 2 ?_
    rw [Nat.log2_two_pow]
    omega

theorem div_spacing_lt (q : Nat) : q / spacing q < Nat.pow 2 53 := by
  change q / 2 ^ (q.log2 - 52) < 2 ^ 53
  rcases Nat.eq_zero_or_pos q with rfl | hq
  · simp
  rw [Nat.div_lt_iff_lt_mul (Nat.two_pow_pos _), ← Nat.pow_add]
  have : q < 2 ^ (q.log2 + 1) := Nat.lt_log2_self
  exact Nat.lt_of_lt_of_le this (Nat.pow_le_pow_right (by omega) (by omega))

/-- Rounding lands on a multiple of the spacing there. -/
theorem spacing_dvd_nearest (num den : Nat) : spacing (nearest num den) ∣ nearest num den := by
  have h : num / (spacing (num / den) * den) < Nat.pow 2 53 := by
    rw [Nat.mul_comm, ← Nat.div_div_eq_div_mul]
    exact div_spacing_lt _
  unfold nearest
  dsimp only
  split
  · exact spacing_dvd_mul_two_pow _ (by omega)
  · exact spacing_dvd_mul_two_pow _ (by omega)

/-- The double nearest to a signed quotient of multiples of the least positive double. -/
def round (negative : Bool) (num den : Nat) : Double :=
  if h : nearest num den < limit then
    .finite negative (nearest num den) ⟨spacing_dvd_nearest num den, h⟩
  else
    .infinite negative

/-- How many least positive doubles make one. -/
def one : Nat :=
  Nat.pow 2 1074

/-- The double nearest to an integer. -/
def ofInt (i : Int) : Double :=
  round (i < 0) (i.natAbs * one) 1

/-- The double nearest to `digits * 10 ^ exponent`. -/
def ofDecimal (negative : Bool) (digits : Nat) (exponent : Int) : Double :=
  let magnitude := Text.digitCount digits + exponent
  if digits = 0 ∨ magnitude < -330 then round negative 0 1
  else if magnitude > 310 then .infinite negative
  else if exponent ≥ 0 then round negative (digits * Nat.pow 10 exponent.toNat * one) 1
  else round negative (digits * one) (Nat.pow 10 (-exponent).toNat)

/-- The product, rounded once. -/
def mul : Double → Double → Double
  | .finite s a _, .finite t b _ => round (s != t) (a * b) one
  | .finite s a _, .infinite t | .infinite t, .finite s a _ =>
    if a = 0 then .nan else .infinite (s != t)
  | .infinite s, .infinite t => .infinite (s != t)
  | _, _ => .nan

/-- The quotient, rounded once. -/
def div : Double → Double → Double
  | .finite s a _, .finite t b _ =>
    if b = 0 then (if a = 0 then .nan else .infinite (s != t)) else round (s != t) (a * one) b
  | .finite s _ _, .infinite t => round (s != t) 0 1
  | .infinite s, .finite t _ _ => .infinite (s != t)
  | _, _ => .nan

/-- The place of a double on the number line, in least positive doubles; none for not a number. -/
def place? : Double → Option Int
  | .nan => none
  | .infinite negative => some (if negative then -limit else limit)
  | .finite negative units _ => some (if negative then -units else units)

/-- Numerical order; not a number compares with nothing. -/
def compare? (a b : Double) : Option Ordering :=
  match a.place?, b.place? with
  | some x, some y => some (compare x y)
  | _, _ => none

/-- Numerical equality: zero equals minus zero, and not a number differs from itself. -/
def beq (a b : Double) : Bool :=
  a.compare? b == some .eq

instance : BEq Double := ⟨beq⟩

end Double

end EntityQuery
