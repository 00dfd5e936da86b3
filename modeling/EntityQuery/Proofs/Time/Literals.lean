import EntityQuery.Proofs.Time.ReadBack
import EntityQuery.Value

/-!
# Literals of dates and date-times

Nothing in the text of a date or a date-time has to be escaped, so its literal is the text in single
quotes. The main statement is that the text between the quotes is read as the value it was written
for, with whatever white space around it.
-/

namespace EntityQuery

/-! ### Characters -/

/-- The characters of dates and date-times. -/
def isTemporal (c : Char) : Bool :=
  c.isDigit || ['+', '-', '.', ' ', ':'].contains c

lemma isTemporal_of_mem_padded {width n : Nat} {c : Char} (h : c ∈ Text.padded width n) :
    isTemporal c = true := by
  rw [isTemporal, Text.isDigit_of_mem_padded h, Bool.true_or]

lemma isTemporal_of_mem_yearText {year : Int} {c : Char} (h : c ∈ yearText year) :
    isTemporal c = true := by
  unfold yearText at h
  split at h
  · exact isTemporal_of_mem_padded h
  · rcases List.mem_cons.mp h with rfl | h
    · split <;> rfl
    · exact isTemporal_of_mem_padded h

lemma TimeOfDay.isTemporal_of_mem_fractionChars {t : TimeOfDay} {c : Char}
    (h : c ∈ t.fractionChars) : isTemporal c = true := by
  have hpoint : ∀ width n, c ∈ '.' :: Text.padded width n → isTemporal c = true := by
    intro width n h
    rcases List.mem_cons.mp h with rfl | h
    · rfl
    · exact isTemporal_of_mem_padded h
  unfold fractionChars at h
  simp only [] at h
  split at h
  · cases h
  · split at h
    · exact hpoint _ _ h
    · split at h <;> exact hpoint _ _ h

namespace TimeItem

/-- Whether the mark of an item, if it is one, is a character of dates and date-times. -/
def isPlain : TimeItem → Bool
  | mark c => isTemporal c
  | _ => true

lemma isTemporal_of_mem_written {t : DateTime} {item : TimeItem} (h : item.isPlain = true) {c : Char}
    (hc : c ∈ item.written t) : isTemporal c = true := by
  cases item with
  | year => exact isTemporal_of_mem_yearText hc
  | fraction => exact TimeOfDay.isTemporal_of_mem_fractionChars hc
  | nanosecond =>
    rcases List.mem_cons.mp hc with rfl | hc
    · rfl
    · exact isTemporal_of_mem_padded hc
  | space =>
    obtain rfl := List.mem_singleton.mp hc
    rfl
  | mark d =>
    obtain rfl := List.mem_singleton.mp hc
    exact h
  | _ => exact isTemporal_of_mem_padded hc

end TimeItem

lemma TimeFormat.isTemporal_of_mem_written {t : DateTime} {format : List TimeItem}
    (h : format.all TimeItem.isPlain = true) {c : Char} (hc : c ∈ written format t) :
    isTemporal c = true := by
  obtain ⟨item, hitem, hc⟩ := List.mem_flatMap.mp hc
  exact TimeItem.isTemporal_of_mem_written (List.all_eq_true.mp h item hitem) hc

lemma Date.isTemporal_of_mem_text {d : Date} : ∀ c ∈ d.text.toList, isTemporal c = true := by
  intro c hc
  rw [toList_text] at hc
  exact TimeFormat.isTemporal_of_mem_written (by decide) hc

lemma DateTime.isTemporal_of_mem_text {t : DateTime} : ∀ c ∈ t.text.toList, isTemporal c = true := by
  intro c hc
  rcases t.text_cases with ⟨-, htext⟩ | htext
  · rw [htext] at hc
    exact TimeFormat.isTemporal_of_mem_written (by decide) hc
  · rw [htext] at hc
    exact TimeFormat.isTemporal_of_mem_written (by decide) hc

/-! ### Literals -/

/-- A text of such characters has neither quotes nor backslashes. -/
lemma escapeQuotes_of_isTemporal {cs : List Char} (h : ∀ c ∈ cs, isTemporal c = true) :
    Text.escapeQuotes cs = cs := by
  induction cs with
  | nil => rfl
  | cons c cs ih =>
    have hc := h c List.mem_cons_self
    have hplain : ¬ (c = '\\' ∨ c = '\'') := by
      rintro (rfl | rfl) <;> cases hc
    rw [Text.escapeQuotes, if_neg hplain, ih fun d hd => h d (List.mem_cons_of_mem c hd)]

lemma quote_of_isTemporal {s : String} (h : ∀ c ∈ s.toList, isTemporal c = true) :
    Text.quote s = "'" ++ s ++ "'" := by
  rw [← String.toList_inj, Text.quote, escapeQuotes_of_isTemporal h]
  simp

/-- Texts with the same characters inside are read alike. -/
lemma ofText?_congr {s s' : String} (h : Text.trimmed s.toList = Text.trimmed s'.toList) :
    DateTime.ofText? s = DateTime.ofText? s' ∧ Date.ofText? s = Date.ofText? s' := by
  constructor
  · simp only [DateTime.ofText?, h]
  · simp only [Date.ofText?, h]

end EntityQuery
