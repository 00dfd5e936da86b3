import EntityQuery.Number.Written
import EntityQuery.Proofs.Number.Nearest
import EntityQuery.Proofs.Text.Numeral

/-!
# Doubles are read back

The shortest decimal of a double stands for a number of places that is rounded to this double, and
so does every decimal with the same value. The literal of a finite double is such a decimal, written
with a point or an exponent.
-/

namespace EntityQuery

/-- A double that is a number. -/
def Double.isFinite : Double → Bool
  | .finite _ _ _ => true
  | _ => false

namespace Double

variable {tie : DecimalTie} {units : Nat}

/-! ### Powers -/

lemma pow_five_pos : 0 < Nat.pow 5 1074 := by
  have hpos : ∀ k, 0 < Nat.pow 5 k := fun k => Nat.pow_pos (by decide)
  exact hpos 1074

lemma pow_ten_pos (k : Nat) : 0 < Nat.pow 10 k :=
  Nat.pow_pos (by decide)

lemma pow_ten_le {a b : Nat} (h : a ≤ b) : Nat.pow 10 a ≤ Nat.pow 10 b :=
  Nat.pow_le_pow_right (by decide) h

lemma pow_ten_add (a b : Nat) : Nat.pow 10 a * Nat.pow 10 b = Nat.pow 10 (a + b) :=
  (Nat.pow_add 10 a b).symm

lemma one_mul_pow_five : one * Nat.pow 5 1074 = Nat.pow 10 1074 := by
  have hmul : ∀ k, Nat.pow 2 k * Nat.pow 5 k = Nat.pow 10 k := fun k => (Nat.mul_pow 2 5 k).symm
  unfold one
  exact hmul 1074

/-! ### The shortest decimal -/

lemma nearest_of_withDigits? {exact count places : Nat}
    (hexact : nearest exact (Nat.pow 5 1074) = units)
    (h : withDigits? tie units exact count = some places) :
    nearest places (Nat.pow 5 1074) = units := by
  unfold withDigits? at h
  simp only [] at h
  split at h
  · cases h
    exact hexact
  · split at h
    · rename_i hlow hhigh
      cases h
      split
      · exact beq_iff_eq.mp hlow
      · exact beq_iff_eq.mp hhigh
    · rename_i hlow _
      cases h
      exact beq_iff_eq.mp hlow
    · rename_i _ hhigh
      cases h
      exact beq_iff_eq.mp hhigh
    · cases h

/-- The shortest decimal is rounded to the double. -/
lemma exists_shortest (h : Representable units) (tie : DecimalTie) :
    ∃ places, shortest tie units = Decimal.strip places (-1074) ∧
      nearest places (Nat.pow 5 1074) = units := by
  have hexact : nearest (units * Nat.pow 5 1074) (Nat.pow 5 1074) = units :=
    nearest_of_representable h pow_five_pos
  refine ⟨_, rfl, ?_⟩
  cases hfound : (List.range' 1 17).findSome? (withDigits? tie units (units * Nat.pow 5 1074)) with
  | none => exact hexact
  | some places =>
    obtain ⟨count, -, hcount⟩ := List.exists_of_findSome?_eq_some hfound
    exact nearest_of_withDigits? hexact hcount

lemma strip_spec {digits : Nat} (exponent : Int) (h : digits ≠ 0) :
    exponent ≤ (Decimal.strip digits exponent).exponent ∧
      (Decimal.strip digits exponent).digits ≠ 0 ∧
      digits = (Decimal.strip digits exponent).digits *
        Nat.pow 10 ((Decimal.strip digits exponent).exponent - exponent).toNat := by
  fun_induction Decimal.strip digits exponent with
  | case1 => exact absurd rfl h
  | case2 digits exponent hdigits hlast ih =>
    obtain ⟨hle, hne, heq⟩ := ih (by omega)
    generalize Decimal.strip (digits / 10) (exponent + 1) = d at *
    refine ⟨by omega, hne, ?_⟩
    have hpow : (d.exponent - exponent).toNat = (d.exponent - (exponent + 1)).toNat + 1 := by omega
    calc digits = digits / 10 * 10 := by omega
      _ = d.digits * Nat.pow 10 (d.exponent - (exponent + 1)).toNat * 10 := by rw [← heq]
      _ = d.digits * Nat.pow 10 (d.exponent - exponent).toNat := by
        rw [hpow, Nat.mul_assoc]
        rfl
  | case3 digits exponent hdigits hlast => simp [hdigits]

/-- The shortest decimal counts in places of `10 ^ -1074` or larger ones, and is rounded to the
double. -/
lemma shortest_spec (h : Representable units) (tie : DecimalTie) :
    -1074 ≤ (shortest tie units).exponent ∧
      nearest ((shortest tie units).digits * Nat.pow 10 ((shortest tie units).exponent + 1074).toNat)
        (Nat.pow 5 1074) = units := by
  obtain ⟨places, hshortest, hnearest⟩ := exists_shortest h tie
  rw [hshortest]
  by_cases hplaces : places = 0
  · subst hplaces
    have hzero : Decimal.strip 0 (-1074) = ⟨0, 0⟩ := by rw [Decimal.strip, if_pos rfl]
    rw [hzero, Nat.zero_mul]
    exact ⟨by decide, hnearest⟩
  · obtain ⟨hle, -, heq⟩ := strip_spec (-1074) hplaces
    rw [Int.sub_neg] at heq
    exact ⟨hle, heq ▸ hnearest⟩

/-! ### Decimals -/

lemma round_eq_finite {num den : Nat} (negative : Bool) (h : Representable units)
    (hnearest : nearest num den = units) : round negative num den = .finite negative units h := by
  subst hnearest
  exact dif_pos h.2

/-- The places of a decimal that is too small to be told from zero. -/
lemma two_mul_places_lt {digits places : Nat} {exponent : Int} (hexponent : -1074 ≤ exponent)
    (hplaces : places = digits * Nat.pow 10 (exponent + 1074).toNat)
    (small : (Text.digitCount digits + exponent : Int) < -330) :
    2 * places < Nat.pow 5 1074 := by
  have hbelow := Text.lt_pow_digitCount digits
  have hle : Text.digitCount digits + (exponent + 1074).toNat ≤ 743 := by omega
  have hbound : places < Nat.pow 10 743 := by
    calc places = digits * Nat.pow 10 (exponent + 1074).toNat := hplaces
      _ < Nat.pow 10 (Text.digitCount digits) * Nat.pow 10 (exponent + 1074).toNat :=
        Nat.mul_lt_mul_of_pos_right hbelow (pow_ten_pos _)
      _ = Nat.pow 10 (Text.digitCount digits + (exponent + 1074).toNat) := pow_ten_add _ _
      _ ≤ Nat.pow 10 743 := pow_ten_le hle
  have hfive : 2 * Nat.pow 10 743 < Nat.pow 5 1074 := by decide +kernel
  omega

/-- The places of a decimal that is larger than all doubles. -/
lemma two_mul_limit_le {digits places : Nat} {exponent : Int} (hdigits : digits ≠ 0)
    (hexponent : -1074 ≤ exponent)
    (hplaces : places = digits * Nat.pow 10 (exponent + 1074).toNat)
    (large : (Text.digitCount digits + exponent : Int) > 310) :
    2 * limit ≤ places / Nat.pow 5 1074 := by
  have habove := Text.pow_le_of_digitCount hdigits
  have hle : 1384 ≤ Text.digitCount digits - 1 + (exponent + 1074).toNat := by omega
  have hbound : Nat.pow 10 1384 ≤ places := by
    calc Nat.pow 10 1384 ≤ Nat.pow 10 (Text.digitCount digits - 1 + (exponent + 1074).toNat) :=
        pow_ten_le hle
      _ = Nat.pow 10 (Text.digitCount digits - 1) * Nat.pow 10 (exponent + 1074).toNat :=
        (pow_ten_add _ _).symm
      _ ≤ digits * Nat.pow 10 (exponent + 1074).toNat := Nat.mul_le_mul_right _ habove
      _ = places := hplaces.symm
  have hlimit : 2 * limit * Nat.pow 5 1074 ≤ Nat.pow 10 1384 := by decide +kernel
  exact (Nat.le_div_iff_mul_le pow_five_pos).mpr (Nat.le_trans hlimit hbound)

/-- **Decimals**: a decimal is read as a double if the places that it stands for are rounded to it.
-/
lemma ofDecimal_eq_finite {digits places : Nat} {exponent : Int} (negative : Bool)
    (h : Representable units) (hexponent : -1074 ≤ exponent)
    (hplaces : places = digits * Nat.pow 10 (exponent + 1074).toNat)
    (hnearest : nearest places (Nat.pow 5 1074) = units) :
    ofDecimal negative digits exponent = .finite negative units h := by
  have hzero : units = 0 → round negative 0 1 = .finite negative units h := by
    rintro rfl
    exact round_eq_finite negative h (nearest_eq_zero (by decide))
  unfold ofDecimal
  simp only []
  by_cases hdigits : digits = 0
  · rw [if_pos (.inl hdigits)]
    apply hzero
    rw [hdigits, Nat.zero_mul] at hplaces
    rw [← hnearest, hplaces]
    exact nearest_eq_zero pow_five_pos
  by_cases hsmall : (Text.digitCount digits + exponent : Int) < -330
  · rw [if_pos (.inr hsmall)]
    apply hzero
    rw [← hnearest]
    exact nearest_eq_zero (two_mul_places_lt hexponent hplaces hsmall)
  rw [if_neg (not_or.mpr ⟨hdigits, hsmall⟩)]
  by_cases hlarge : (Text.digitCount digits + exponent : Int) > 310
  · exfalso
    have hquotient := two_mul_limit_le hdigits hexponent hplaces hlarge
    have htwice := div_le_two_mul_nearest places (Nat.pow 5 1074)
    have hunits := h.2
    rw [hnearest] at htwice
    omega
  rw [if_neg hlarge]
  split
  · apply round_eq_finite
    rw [← hnearest]
    apply nearest_congr Nat.one_pos pow_five_pos
    have hadd : (exponent + 1074).toNat = exponent.toNat + 1074 := by omega
    rw [hplaces, Nat.mul_one, Nat.mul_assoc, one_mul_pow_five, Nat.mul_assoc, pow_ten_add, hadd]
  · apply round_eq_finite
    rw [← hnearest]
    apply nearest_congr (pow_ten_pos _) pow_five_pos
    have hadd : (exponent + 1074).toNat + (-exponent).toNat = 1074 := by omega
    rw [hplaces, Nat.mul_assoc, one_mul_pow_five, Nat.mul_assoc, pow_ten_add, hadd]

end Double

/-! ### Written decimals -/

/-- An unsigned decimal as it is written: digits, further ones behind a point, and an exponent. -/
structure WrittenDecimal where
  whole : List Char
  fraction : List Char
  exponent? : Option Int

namespace WrittenDecimal

/-- The point with the digits behind it, if there are some. -/
def pointChars (w : WrittenDecimal) : List Char :=
  if w.fraction = [] then [] else '.' :: w.fraction

/-- The exponent behind its mark, if there is one. -/
def exponentChars (w : WrittenDecimal) : List Char :=
  match w.exponent? with
  | none => []
  | some e => 'e' :: (Text.integerText e).toList

/-- The characters of a decimal. -/
def chars (w : WrittenDecimal) : List Char :=
  w.whole ++ (w.pointChars ++ w.exponentChars)

/-- The double that a decimal is read as. -/
def value (w : WrittenDecimal) (negative : Bool) : Double :=
  .ofDecimal negative (Text.digitsValue (w.whole ++ w.fraction))
    (w.exponent?.getD 0 - w.fraction.length)

/-- A decimal with digits before a point or an exponent, so that it is no integer. -/
structure Proper (w : WrittenDecimal) : Prop where
  started : w.whole ≠ []
  whole : ∀ c ∈ w.whole, c.isDigit = true
  fraction : ∀ c ∈ w.fraction, c.isDigit = true
  marked : w.fraction = [] → w.exponent?.isSome = true

variable {w : WrittenDecimal}

lemma Proper.exists_cons (h : w.Proper) : ∃ c cs, c.isDigit = true ∧ w.chars = c :: cs := by
  obtain ⟨c, cs, hwhole⟩ := List.exists_cons_of_ne_nil h.started
  have hc : c ∈ w.whole := by
    rw [hwhole]
    exact List.mem_cons_self
  exact ⟨c, cs ++ (w.pointChars ++ w.exponentChars), h.whole c hc, by rw [chars, hwhole]; rfl⟩

lemma takeWhile_digits {cs rest : List Char} (h : ∀ c ∈ cs, c.isDigit = true)
    (stop : ∀ c ∈ rest.head?, c.isDigit = false) :
    (cs ++ rest).takeWhile Char.isDigit = cs ∧ (cs ++ rest).dropWhile Char.isDigit = rest := by
  rw [List.takeWhile_append_of_pos h, List.dropWhile_append_of_pos h]
  cases rest with
  | nil => simp
  | cons c rest =>
    have hc : c.isDigit = false := stop c rfl
    simp [hc]

lemma exponentChars_stop (w : WrittenDecimal) :
    ∀ c ∈ w.exponentChars.head?, c = 'e' := by
  unfold exponentChars
  cases w.exponent? <;> simp

lemma readExponent?_exponentChars (w : WrittenDecimal) :
    Double.readExponent? w.exponentChars = some (w.exponent?.getD 0) := by
  unfold exponentChars
  cases w.exponent? with
  | none => rfl
  | some e =>
    have habs : (if decide (e < 0) = true then -(e.natAbs : Int) else e.natAbs) = e := by
      simp only [decide_eq_true_eq]
      split <;> omega
    rw [Double.readExponent?, if_pos (.inl rfl)]
    simp only [Text.splitSign_integerText, Text.readNat?_numeral]
    exact congrArg some habs

lemma readDecimal?_chars (h : w.Proper) (negative : Bool) :
    Double.readDecimal? negative w.chars = some (w.value negative) := by
  have hexponent : ∀ c ∈ w.exponentChars.head?, c.isDigit = false := by
    intro c hc
    rw [w.exponentChars_stop c hc]
    rfl
  have hread := w.readExponent?_exponentChars
  unfold Double.readDecimal? chars pointChars value
  by_cases hfraction : w.fraction = []
  · obtain ⟨htake, hdrop⟩ := takeWhile_digits h.whole hexponent
    rw [if_pos hfraction, List.nil_append, htake, hdrop, hfraction]
    -- what follows the digits is no point
    cases hchars : w.exponentChars with
    | nil =>
      rw [hchars] at hread
      simp [h.started, hread]
    | cons d ds =>
      obtain rfl := w.exponentChars_stop d (by rw [hchars]; rfl)
      rw [hchars] at hread
      simp [h.started, hread]
  · have hpoint : ∀ c ∈ ('.' :: w.fraction ++ w.exponentChars).head?, c.isDigit = false := by
      simp
    obtain ⟨htake, hdrop⟩ := takeWhile_digits h.whole hpoint
    obtain ⟨htake', hdrop'⟩ := takeWhile_digits h.fraction hexponent
    rw [if_neg hfraction, htake, hdrop]
    simp [htake', hdrop', h.started, hread]

lemma toLower_of_isDigit {c : Char} (h : c.isDigit = true) : c.toLower = c := by
  have hle : c.val ≤ '9'.val := of_decide_eq_true (Bool.and_eq_true_iff.mp h).2
  refine dif_neg fun hupper => ?_
  have hA : 'A'.val ≤ c.val := hupper.1
  rw [UInt32.le_iff_toNat_le] at hle hA
  simp at hle hA
  omega

/-- A decimal is read after its sign. -/
lemma ofText?_chars (h : w.Proper) (negative : Bool) :
    Double.ofText? (String.ofList (Text.signChars negative ++ w.chars)) =
      some (w.value negative) := by
  obtain ⟨c, cs, hc, hchars⟩ := h.exists_cons
  have hsign : Text.splitSign (Text.signChars negative ++ w.chars) = (negative, w.chars) := by
    cases negative with
    | true => rfl
    | false => exact Text.splitSign_of_isDigit (by simpa [Text.signChars, hchars] using hc)
  have hword : ∀ d ds, d.isDigit = false → String.ofList (w.chars.map Char.toLower) ≠
      String.ofList (d :: ds) := by
    intro d ds hd heq
    rw [String.ofList_inj, hchars, List.map_cons, toLower_of_isDigit hc] at heq
    rw [(List.cons.inj heq).1, hd] at hc
    cases hc
  unfold Double.ofText?
  rw [String.toList_ofList, hsign]
  have hinf := hword 'i' ['n', 'f'] rfl
  have hinfinity := hword 'i' ['n', 'f', 'i', 'n', 'i', 't', 'y'] rfl
  have hnan := hword 'n' ['a', 'n'] rfl
  simp only []
  rw [if_neg (not_or.mpr ⟨hinf, hinfinity⟩), if_neg hnan]
  exact readDecimal?_chars h negative

/-- A written decimal has the value of a decimal, possibly with more zeros. -/
def Denotes (w : WrittenDecimal) (d : Decimal) : Prop :=
  ∃ k : Nat, Text.digitsValue (w.whole ++ w.fraction) = d.digits * Nat.pow 10 k ∧
    w.exponent?.getD 0 - w.fraction.length = d.exponent - k ∧ min d.exponent (-1) ≤ d.exponent - k

lemma Denotes.value_eq {d : Decimal} {places units : Nat} (hw : w.Denotes d)
    (h : Double.Representable units) (hexponent : -1074 ≤ d.exponent)
    (hplaces : places = d.digits * Nat.pow 10 (d.exponent + 1074).toNat)
    (hnearest : Double.nearest places (Nat.pow 5 1074) = units) (negative : Bool) :
    w.value negative = .finite negative units h := by
  obtain ⟨k, hdigits, hplace, hmin⟩ := hw
  have hadd : k + (d.exponent - k + 1074).toNat = (d.exponent + 1074).toNat := by omega
  rw [value, hdigits, hplace]
  refine Double.ofDecimal_eq_finite negative h (by omega) ?_ hnearest
  rw [hplaces, Nat.mul_assoc, Double.pow_ten_add, hadd]

end WrittenDecimal

/-! ### Literals -/

namespace DoubleLayout

lemma isDigit_replicate_zero (k : Nat) : ∀ c ∈ List.replicate k '0', c.isDigit = true := by
  intro c hc
  rw [List.eq_of_mem_replicate hc]
  rfl

/-- A whole number gets a zero behind its point. -/
lemma exists_whole {d : Decimal} (h : 0 ≤ d.exponent) :
    ∃ w : WrittenDecimal, w.Proper ∧ (positionalText true d).toList = w.chars ∧ w.Denotes d := by
  have hnumeral : ∀ c ∈ Text.numeral d.digits, c.isDigit = true :=
    fun c hc => Text.isDigit_of_mem_numeral hc
  have hzero : Text.digitsValue ['0'] = 0 := rfl
  by_cases hdigits : d.digits = 0
  · refine ⟨⟨Text.numeral d.digits, ['0'], none⟩,
      ⟨Text.numeral_ne_nil _, hnumeral, by simp, by simp⟩,
      ?_, (d.exponent + 1).toNat, ?_, ?_, ?_⟩
    · simp [positionalText, h, hdigits, WrittenDecimal.chars, WrittenDecimal.pointChars,
        WrittenDecimal.exponentChars]
    · rw [Text.digitsValue_append, hzero, Text.digitsValue_numeral, hdigits, Nat.zero_mul,
        Nat.zero_mul]
    · simp
      omega
    · omega
  · refine ⟨⟨Text.numeral d.digits ++ List.replicate d.exponent.toNat '0', ['0'], none⟩,
      ⟨by simp [Text.numeral_ne_nil], ?_, by simp, by simp⟩, ?_, (d.exponent + 1).toNat, ?_, ?_, ?_⟩
    · intro c hc
      exact (List.mem_append.mp hc).elim (hnumeral c) (isDigit_replicate_zero _ c)
    · simp [positionalText, h, hdigits, WrittenDecimal.chars, WrittenDecimal.pointChars,
        WrittenDecimal.exponentChars]
    · have hadd : (d.exponent + 1).toNat = d.exponent.toNat + 1 := by omega
      have hlength : ['0'].length = 1 := rfl
      rw [Text.digitsValue_append, hzero, Text.digitsValue_append, Text.digitsValue_replicate_zero,
        Text.digitsValue_numeral, List.length_replicate, hlength, hadd, Nat.add_zero, Nat.add_zero,
        Nat.mul_assoc, Double.pow_ten_add]
    · simp
      omega
    · omega

/-- Zeros go in front of the digits until there is one before the point. -/
lemma exists_fraction {d : Decimal} (h : ¬ 0 ≤ d.exponent) (wholePoint : Bool) :
    ∃ w : WrittenDecimal, w.Proper ∧ (positionalText wholePoint d).toList = w.chars ∧
      w.Denotes d := by
  have hnumeral : ∀ c ∈ Text.numeral d.digits, c.isDigit = true :=
    fun c hc => Text.isDigit_of_mem_numeral hc
  generalize hplaces : (-d.exponent).toNat = places
  generalize hdigits : List.replicate (places + 1 - (Text.numeral d.digits).length) '0' ++
    Text.numeral d.digits = digits
  have hlength : places + 1 ≤ digits.length := by
    rw [← hdigits, List.length_append, List.length_replicate]
    omega
  have hall : ∀ c ∈ digits, c.isDigit = true := by
    intro c hc
    rw [← hdigits] at hc
    exact (List.mem_append.mp hc).elim (isDigit_replicate_zero _ c) (hnumeral c)
  have hvalue : Text.digitsValue digits = d.digits := by
    rw [← hdigits, Text.digitsValue_append, Text.digitsValue_replicate_zero, Nat.zero_mul,
      Nat.zero_add, Text.digitsValue_numeral]
  have hfraction : (digits.drop (digits.length - places)).length = places := by
    rw [List.length_drop]
    omega
  have hsome : digits.drop (digits.length - places) ≠ [] := by
    intro hnil
    rw [hnil, List.length_nil] at hfraction
    omega
  refine ⟨⟨digits.take (digits.length - places), digits.drop (digits.length - places), none⟩,
    ⟨?_, fun c hc => hall c (List.mem_of_mem_take hc), fun c hc => hall c (List.mem_of_mem_drop hc),
      fun hnil => absurd hnil hsome⟩, ?_, 0, ?_, ?_, ?_⟩
  · intro hnil
    have htake := congrArg List.length hnil
    rw [List.length_take, List.length_nil] at htake
    omega
  · simp [positionalText, h, hplaces, hdigits, WrittenDecimal.chars, WrittenDecimal.pointChars,
      WrittenDecimal.exponentChars, hsome]
  · rw [List.take_append_drop, hvalue]
    exact (Nat.mul_one _).symm
  · simp only [hfraction]
    simp
    omega
  · omega

lemma exists_scientific (d : Decimal) :
    ∃ w : WrittenDecimal, w.Proper ∧
      (scientificText (fun e => Text.integerText e) d).toList = w.chars ∧ w.Denotes d := by
  obtain ⟨first, rest, hnumeral⟩ := List.exists_cons_of_ne_nil (Text.numeral_ne_nil d.digits)
  have hall : ∀ c ∈ first :: rest, c.isDigit = true :=
    fun c hc => Text.isDigit_of_mem_numeral (hnumeral ▸ hc)
  have hvalue : Text.digitsValue (first :: rest) = d.digits := by
    rw [← hnumeral, Text.digitsValue_numeral]
  have hlength : rest.length + 1 = Text.digitCount d.digits := by
    rw [← Text.length_numeral, hnumeral, List.length_cons]
  refine ⟨⟨[first], rest, some d.leading⟩, ⟨by simp, ?_, fun c hc => hall c (by simp [hc]),
    fun _ => rfl⟩, ?_, 0, ?_, ?_, ?_⟩
  · intro c hc
    exact hall c (by simp_all)
  · by_cases hrest : rest = []
    · simp [scientificText, hnumeral, hrest, WrittenDecimal.chars, WrittenDecimal.pointChars,
        WrittenDecimal.exponentChars]
    · simp [scientificText, hnumeral, hrest, WrittenDecimal.chars, WrittenDecimal.pointChars,
        WrittenDecimal.exponentChars]
  · rw [List.singleton_append, hvalue]
    exact (Nat.mul_one _).symm
  · simp [Decimal.leading]
    omega
  · omega

/-- The layout of a literal writes a decimal. -/
lemma exists_literal (d : Decimal) :
    ∃ w : WrittenDecimal, w.Proper ∧ w.Denotes d ∧
      (if d.digits = 0 ∨ literal.positional d.leading then positionalText literal.wholePoint d
        else scientificText literal.exponentText d).toList = w.chars := by
  split
  · by_cases h : 0 ≤ d.exponent
    · obtain ⟨w, hproper, hchars, hdenotes⟩ := exists_whole h
      exact ⟨w, hproper, hdenotes, hchars⟩
    · obtain ⟨w, hproper, hchars, hdenotes⟩ := exists_fraction h true
      exact ⟨w, hproper, hdenotes, hchars⟩
  · obtain ⟨w, hproper, hchars, hdenotes⟩ := exists_scientific d
    exact ⟨w, hproper, hdenotes, hchars⟩

end DoubleLayout

namespace Double

/-- **Read back**: the literal of a finite double is a written decimal after its sign, and is read
as this double. -/
theorem exists_literalText (negative : Bool) {units : Nat} (h : Representable units) :
    ∃ w : WrittenDecimal, w.Proper ∧ w.value negative = .finite negative units h ∧
      (literalText (.finite negative units h)).toList = Text.signChars negative ++ w.chars := by
  obtain ⟨hexponent, hnearest⟩ := shortest_spec h .upper
  obtain ⟨w, hproper, hdenotes, hchars⟩ := DoubleLayout.exists_literal (shortest .upper units)
  refine ⟨w, hproper, hdenotes.value_eq h hexponent rfl hnearest negative, ?_⟩
  have htext : literalText (.finite negative units h) =
      (if negative then "-" else "") ++
        (if (shortest .upper units).digits = 0 ∨
          DoubleLayout.literal.positional (shortest .upper units).leading then
          DoubleLayout.positionalText DoubleLayout.literal.wholePoint (shortest .upper units)
        else DoubleLayout.scientificText DoubleLayout.literal.exponentText
          (shortest .upper units)) := rfl
  rw [htext, String.toList_append, hchars]
  cases negative <;> rfl

end Double

end EntityQuery
