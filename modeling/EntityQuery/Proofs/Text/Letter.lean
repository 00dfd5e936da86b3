import EntityQuery.Text.Letter
import EntityQuery.Text.Space
import Mathlib.Tactic.Common

/-!
# Letters and white space

The tables of letters and numbers begin beyond ASCII and have no white space in them.
-/

namespace EntityQuery.Text

variable {c : Char}

lemma inRanges_eq_false {ranges : List (Nat × Nat)}
    (h : ∀ r ∈ ranges, c.toNat < r.1 ∨ r.2 < c.toNat) : inRanges ranges c = false := by
  rw [inRanges, List.any_eq_false]
  intro r hr
  have hr := h r hr
  simp only [Bool.and_eq_true, decide_eq_true_eq]
  omega

lemma inRanges_ascii (h : c.toNat < 0x80) :
    inRanges alphabeticRanges c = false ∧ inRanges numericRanges c = false := by
  have halphabetic : ∀ r ∈ alphabeticRanges, 0x80 ≤ r.1 := by decide +kernel
  have hnumeric : ∀ r ∈ numericRanges, 0x80 ≤ r.1 := by decide +kernel
  exact ⟨inRanges_eq_false fun r hr => .inl (Nat.lt_of_lt_of_le h (halphabetic r hr)),
    inRanges_eq_false fun r hr => .inl (Nat.lt_of_lt_of_le h (hnumeric r hr))⟩

/-- The code points of white space. -/
def spaces : List Nat :=
  [0x9, 0xA, 0xB, 0xC, 0xD, 0x20, 0x85, 0xA0, 0x1680, 0x2000, 0x2001, 0x2002, 0x2003, 0x2004,
    0x2005, 0x2006, 0x2007, 0x2008, 0x2009, 0x200A, 0x2028, 0x2029, 0x202F, 0x205F, 0x3000]

lemma mem_spaces (h : isSpace c = true) : c.toNat ∈ spaces := by
  simp only [isSpace, Bool.or_eq_true, Bool.and_eq_true, decide_eq_true_eq, beq_iff_eq] at h
  simp only [spaces, List.mem_cons, List.not_mem_nil, or_false]
  omega

/-- Ranges without white space. -/
def spaceless (ranges : List (Nat × Nat)) : Bool :=
  ranges.all fun r => spaces.all fun n => Nat.blt n r.1 || Nat.blt r.2 n

lemma inRanges_of_spaceless {ranges : List (Nat × Nat)} (hranges : spaceless ranges = true)
    (h : isSpace c = true) : inRanges ranges c = false := by
  refine inRanges_eq_false fun r hr => ?_
  have hall := List.all_eq_true.mp (List.all_eq_true.mp hranges r hr) c.toNat (mem_spaces h)
  simpa [Nat.blt_eq] using hall

lemma inRanges_of_isSpace (h : isSpace c = true) :
    inRanges alphabeticRanges c = false ∧ inRanges numericRanges c = false :=
  ⟨inRanges_of_spaceless (by decide +kernel) h, inRanges_of_spaceless (by decide +kernel) h⟩

lemma isAlphanum_of_isSpace (h : isSpace c = true) : c.isAlphanum = false := by
  have hascii : ∀ n ∈ spaces, (Char.ofNat n).isAlphanum = false := by decide
  have halphanum := hascii c.toNat (mem_spaces h)
  rwa [Char.ofNat_toNat] at halphanum

/-- White space has no letters and no numbers. -/
lemma isLetterOrNumber_of_isSpace (h : isSpace c = true) : isLetterOrNumber c = false := by
  obtain ⟨halphabetic, hnumeric⟩ := inRanges_of_isSpace h
  rw [isLetterOrNumber, isAlphanum_of_isSpace h, halphabetic, hnumeric]
  rfl

lemma isLetter_of_isSpace (h : isSpace c = true) : isLetter c = false := by
  have halpha := isAlphanum_of_isSpace h
  rw [Char.isAlphanum, Bool.or_eq_false_iff] at halpha
  rw [isLetter, halpha.1, (inRanges_of_isSpace h).1]
  rfl

/-! ### Digits -/

lemma toNat_of_isDigit (h : c.isDigit = true) : 48 ≤ c.toNat ∧ c.toNat ≤ 57 := by
  have hle := Bool.and_eq_true_iff.mp h
  have hlow := of_decide_eq_true hle.1
  have hhigh := of_decide_eq_true hle.2
  rw [ge_iff_le, UInt32.le_iff_toNat_le] at hlow
  rw [UInt32.le_iff_toNat_le] at hhigh
  exact ⟨hlow, hhigh⟩

lemma isSpace_of_isDigit (h : c.isDigit = true) : isSpace c = false := by
  by_contra hspace
  rw [Bool.not_eq_false] at hspace
  have hmem := mem_spaces hspace
  have hdigit := toNat_of_isDigit h
  simp only [spaces, List.mem_cons, List.not_mem_nil, or_false] at hmem
  omega

end EntityQuery.Text
