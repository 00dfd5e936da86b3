import EntityQuery.Proofs.Token.Extended

/-!
# Lexemes on their own

What follows a lexeme in a text has no part in it: its own characters are read as the same token. Of
a reserved word the case of the letters has no part in it either.
-/

namespace EntityQuery

/-- Characters that are one lexeme: on their own they are read as one token. -/
def IsLexeme (word : List Char) (kind : TokenKind) : Prop :=
  ∃ c cs, word = c :: cs ∧ Text.isSpace c = false ∧ Lexeme.read c cs = .ok (kind, cs.length)

namespace Lexeme

variable {c d : Char} {cs : List Char} {kind : TokenKind} {n : Nat}

/-! ### Without what follows -/

lemma stringBody?_take {quote : Char} {body : List Char}
    (h : stringBody? quote cs = some (body, n)) :
    stringBody? quote (cs.take n) = some (body, n) := by
  fun_induction stringBody? quote cs generalizing body n with
  | case1 => cases h
  | case2 => cases h
  | case3 c cs ih =>
    obtain ⟨⟨body', n'⟩, hbody, hresult⟩ := Option.map_eq_some_iff.mp h
    obtain rfl : n = n' + 2 := by
      simp only [] at hresult
      split at hresult <;> exact (Prod.mk.inj hresult).2.symm
    rw [List.take_succ_cons, List.take_succ_cons, stringBody?, ih hbody]
    exact congrArg some hresult
  | case4 cs hlast hescape =>
    obtain ⟨rfl, rfl⟩ := Prod.mk.inj (Option.some.inj h)
    have hplain := ne_backslash hlast hescape
    rw [List.take_succ_cons, List.take_zero, stringBody?, if_pos rfl]
    · exact fun hc _ => hplain hc
    · exact fun _ _ hc _ => hplain hc
  | case5 c cs hlast hescape hquote ih =>
    obtain ⟨⟨body', n'⟩, hbody, hresult⟩ := Option.map_eq_some_iff.mp h
    obtain ⟨rfl, rfl⟩ := Prod.mk.inj hresult
    have hplain := ne_backslash hlast hescape
    rw [List.take_succ_cons, stringBody?, if_neg hquote, ih hbody]
    · rfl
    · exact fun hc _ => hplain hc
    · exact fun _ _ hc _ => hplain hc

lemma take_length_takeWhile (P : Char → Bool) (cs : List Char) :
    cs.take (cs.takeWhile P).length = cs.takeWhile P :=
  (List.prefix_iff_eq_take.mp (List.takeWhile_prefix P)).symm

/-- How many characters an exponent takes up. -/
def exponentLength (cs : List Char) : Nat :=
  (exponent cs).1.length + (exponent cs).2.length

/-- An exponent begins with its mark. -/
lemma eq_mark_of_take_exponent : ∀ d ∈ (cs.take (exponentLength cs)).head?, d = 'e' ∨ d = 'E' := by
  cases cs with
  | nil => simp
  | cons e cs =>
    by_cases he : e = 'e' ∨ e = 'E'
    · intro d hd
      cases hlength : exponentLength (e :: cs) with
      | zero => simp [hlength] at hd
      | succ m =>
        obtain rfl : e = d := by simpa [hlength] using hd
        exact he
    · simp [exponentLength, exponent, he]

lemma exponent_take (cs : List Char) : exponent (cs.take (exponentLength cs)) = exponent cs := by
  cases cs with
  | nil => rfl
  | cons e cs =>
    by_cases he : e = 'e' ∨ e = 'E'
    · by_cases hunsigned : ∀ c ∈ cs.head?, c ≠ '+' ∧ c ≠ '-'
      · have hdigits : ∀ c ∈ (cs.takeWhile Char.isDigit).head?, c ≠ '+' ∧ c ≠ '-' := by
          intro c hc
          refine hunsigned c ?_
          cases cs with
          | nil => cases hc
          | cons d ds =>
            rw [List.takeWhile_cons] at hc
            split at hc
            · exact hc
            · cases hc
        have hlength : exponentLength (e :: cs) = (cs.takeWhile Char.isDigit).length + 1 := by
          rw [exponentLength, exponent_unsigned he hunsigned]
          exact Nat.add_comm _ _
        rw [hlength, List.take_succ_cons, take_length_takeWhile, exponent_unsigned he hdigits,
          exponent_unsigned he hunsigned, List.takeWhile_idem]
      · obtain ⟨c, ds, rfl, hsign⟩ : ∃ c ds, cs = c :: ds ∧ (c = '+' ∨ c = '-') := by
          cases cs with
          | nil => simp at hunsigned
          | cons c ds => exact ⟨c, ds, rfl, by simpa [-not_and, not_and_or] using hunsigned⟩
        rcases hsign with rfl | rfl
        all_goals
          simpa [exponentLength, exponent, he, Nat.add_comm 2, take_length_takeWhile] using
            fun d hd => List.mem_takeWhile_imp hd
    · simp [exponentLength, exponent, he]

/-- The fraction stands in front of the text, and is read again if no digit follows it. -/
lemma fraction_take (cs : List Char) : cs.take (fraction cs).length = fraction cs ∧
    ∀ rest, (∀ d ∈ rest.head?, d.isDigit = false ∧ d ≠ '.') →
      fraction (fraction cs ++ rest) = fraction cs := by
  have hnone : ∀ rest : List Char, (∀ d ∈ rest.head?, d.isDigit = false ∧ d ≠ '.') →
      fraction rest = [] := fun rest stop => fraction_eq_nil fun d hd => (stop d hd).2
  unfold fraction
  split
  · rename_i d ds
    split
    · rename_i hd
      refine ⟨by simp [take_length_takeWhile], fun rest stop => ?_⟩
      have htake := (takeWhile_append_of_stop (fun e he => (stop e he).1)
        (ds.takeWhile Char.isDigit)).1
      simp only [List.cons_append, hd, if_true, htake, List.takeWhile_idem]
    · exact ⟨rfl, hnone⟩
  · exact ⟨rfl, hnone⟩

/-- A number is read from its own characters. -/
lemma number_take (h : number c cs = .ok (kind, n)) :
    number c (cs.take n) = .ok (kind, n) := by
  obtain ⟨whole, hwhole⟩ : ∃ whole, whole = cs.takeWhile Char.isDigit := ⟨_, rfl⟩
  obtain ⟨rest, hrest⟩ : ∃ rest, rest = cs.dropWhile Char.isDigit := ⟨_, rfl⟩
  obtain ⟨rest', hrest'⟩ : ∃ rest', rest' = rest.drop (fraction rest).length := ⟨_, rfl⟩
  have hmark : ∀ d ∈ (rest'.take (exponentLength rest')).head?, d.isDigit = false ∧ d ≠ '.' := by
    intro d hd
    rcases eq_mark_of_take_exponent d hd with rfl | rfl <;> decide
  obtain ⟨htake, hfraction⟩ := fraction_take rest
  have hcs : cs = whole ++ (fraction rest ++ rest') := by
    have hsplit := List.take_append_drop (fraction rest).length rest
    rw [htake, ← hrest'] at hsplit
    rw [hsplit, hwhole, hrest, List.takeWhile_append_dropWhile]
  have hdigits : ∀ d ∈ whole, d.isDigit = true := fun d hd => by
    rw [hwhole] at hd
    exact List.mem_takeWhile_imp hd
  have hlength : n = (whole ++ fraction rest).length + exponentLength rest' := by
    unfold number at h
    simp only [← hwhole, ← hrest, ← hrest'] at h
    split at h
    · rw [← (Prod.mk.inj (Except.ok.inj h)).2]
      simp only [List.length_append, exponentLength]
      omega
    · cases h
  have hown : cs.take n =
      whole ++ (fraction rest ++ rest'.take (exponentLength rest')) := by
    rw [hlength, hcs, ← List.append_assoc, ← List.append_assoc, List.take_length_add_append]
  have hstop : ∀ d ∈ (fraction rest ++ rest'.take (exponentLength rest')).head?,
      d.isDigit = false := by
    intro d hd
    cases hpoint : fraction rest with
    | nil => exact (hmark d (by simpa [hpoint] using hd)).1
    | cons e es =>
      obtain rfl : e = d := by simpa [hpoint] using hd
      unfold fraction at hpoint
      split at hpoint
      · split at hpoint
        · rw [← (List.cons.inj hpoint).1]
          rfl
        · cases hpoint
      · cases hpoint
  obtain ⟨htakeWhile, hdropWhile⟩ := WrittenDecimal.takeWhile_digits hdigits hstop
  rw [← h]
  unfold number
  rw [hown]
  simp only [htakeWhile, hdropWhile, hfraction _ hmark, List.drop_left, exponent_take, ← hwhole,
    ← hrest, ← hrest']

/-- **Lexemes** are read from their own characters. -/
theorem read_take (h : read c cs = .ok (kind, n)) : read c (cs.take n) = .ok (kind, n) := by
  unfold read at h
  split at h
  case h_14 =>
    split at h
    · rename_i hquote
      split at h
      · rename_i body m hbody
        obtain ⟨rfl, rfl⟩ := Prod.mk.inj (Except.ok.inj h)
        have htake := stringBody?_take hbody
        rcases hquote with rfl | rfl <;> simp [read, htake]
      · cases h
    · split at h
      · rename_i hstart
        have hnumber := number_take h
        refine (read_of_number (hstart.imp_right fun hminus => ⟨hminus.1, ?_⟩)).trans hnumber
        obtain ⟨d, ds, rfl⟩ : ∃ d ds, cs = d :: ds := by
          cases cs with
          | nil => simp at hminus
          | cons d ds => exact ⟨d, ds, rfl⟩
        have hd : d.isDigit = true := hminus.2
        cases n with
        | zero =>
          -- a number has at least the digit that the sign was followed by
          unfold number at h
          simp only [List.takeWhile_cons, hd, if_true] at h
          split at h
          · simp at h
          · cases h
        | succ n => exact hd
      · split at h
        · rename_i hname
          have hword := Except.ok.inj h
          have hn : n = (cs.takeWhile continuesName).length := by
            have hcount := congrArg Prod.snd hword
            simp only [word] at hcount
            split at hcount <;> exact hcount.symm
          rw [read_of_startsName hname, ← h, hn, take_length_takeWhile, word, word,
            List.takeWhile_idem]
        · cases h
  all_goals
    obtain ⟨rfl, rfl⟩ := Prod.mk.inj (Except.ok.inj h)
    rfl

/-! ### Reserved words -/

/-- Besides equal characters, only ASCII letters are equal up to their case. -/
lemma eq_or_isAlpha_of_toLower_eq (h : c.toLower = d.toLower) :
    c = d ∨ c.isAlpha = true ∧ d.isAlpha = true ∧ c.toUpper = d.toUpper := by
  have hcapital : ∀ c : Char, 'A'.val ≤ c.val ∧ c.val ≤ 'Z'.val →
      c.isAlpha = true ∧ c.toLower.isAlpha = true ∧ c.toUpper = c ∧ c.toLower.toUpper = c := by
    intro c hc
    have hall : ∀ n ∈ List.range' 65 26, (Char.ofNat n).isAlpha = true ∧
        (Char.ofNat n).toLower.isAlpha = true ∧ (Char.ofNat n).toUpper = Char.ofNat n ∧
        (Char.ofNat n).toLower.toUpper = Char.ofNat n := by decide
    have hlow := UInt32.le_iff_toNat_le.mp hc.1
    have hhigh := UInt32.le_iff_toNat_le.mp hc.2
    have hletter := hall c.toNat (List.mem_range'_1.mpr ⟨hlow, Nat.lt_succ_of_le hhigh⟩)
    rwa [Char.ofNat_toNat] at hletter
  have hother : ∀ c : Char, ¬ ('A'.val ≤ c.val ∧ c.val ≤ 'Z'.val) → c.toLower = c :=
    fun c hc => dif_neg hc
  by_cases hc : 'A'.val ≤ c.val ∧ c.val ≤ 'Z'.val
  · obtain ⟨halpha, hsmall, hupper, hback⟩ := hcapital c hc
    by_cases hd : 'A'.val ≤ d.val ∧ d.val ≤ 'Z'.val
    · obtain ⟨-, -, -, hback'⟩ := hcapital d hd
      exact .inl (by rw [← hback, h, hback'])
    · rw [hother d hd] at h
      subst h
      exact .inr ⟨halpha, hsmall, hupper.trans hback.symm⟩
  · rw [hother c hc] at h
    by_cases hd : 'A'.val ≤ d.val ∧ d.val ≤ 'Z'.val
    · obtain ⟨halpha, hsmall, hupper, hback⟩ := hcapital d hd
      subst h
      exact .inr ⟨hsmall, halpha, hback.trans hupper.symm⟩
    · exact .inl (h.trans (hother d hd))

/-- Reserved words and the characters of names do not depend on the case of ASCII letters. -/
lemma respects_case (h : c.toLower = d.toLower) : Keyword.capital c = Keyword.capital d ∧
    startsName c = startsName d ∧ continuesName c = continuesName d := by
  rcases eq_or_isAlpha_of_toLower_eq h with rfl | ⟨hc, hd, hupper⟩
  · exact ⟨rfl, rfl, rfl⟩
  · have hcapital : ∀ e : Char, e.isAlpha = true → Keyword.capital e = e.toUpper := by
      intro e he
      have hdotless : e ≠ '\u0131' := by
        rintro rfl
        cases he
      have hlong : e ≠ '\u017F' := by
        rintro rfl
        cases he
      rw [Keyword.capital, if_neg hdotless, if_neg hlong]
    have hname : ∀ e : Char, e.isAlpha = true → startsName e = true ∧ continuesName e = true := by
      intro e he
      simp [startsName, continuesName, Text.isLetter, Text.isLetterOrNumber, Char.isAlphanum, he]
    rw [hcapital c hc, hcapital d hd, (hname c hc).1, (hname d hd).1, (hname c hc).2,
      (hname d hd).2]
    exact ⟨hupper, rfl, rfl⟩

lemma map_eq_map_of_toLower {β : Type} {f : Char → β} {cs ds : List Char}
    (hf : ∀ c d : Char, c.toLower = d.toLower → f c = f d)
    (h : cs.map Char.toLower = ds.map Char.toLower) : cs.map f = ds.map f := by
  induction cs generalizing ds with
  | nil =>
    obtain rfl : ds = [] := by simpa using h.symm
    rfl
  | cons c cs ih =>
    obtain ⟨d, ds, rfl, hhead, htail⟩ := List.map_eq_cons_iff.mp h.symm
    rw [List.map_cons, List.map_cons, hf c d hhead.symm, ih htail.symm]

/-- A reserved word is read as a word. -/
lemma word_of_read_keyword {k : Keyword} (h : read c cs = .ok (.keyword k, n)) :
    startsName c = true ∧ word c cs = (.keyword k, n) := by
  unfold read at h
  split at h
  case h_14 =>
    split at h
    · split at h <;> cases h
    · split at h
      · rcases kind_of_number h with ⟨_, hkind⟩ | ⟨_, hkind⟩ <;> cases hkind
      · split at h
        · rename_i hc
          exact ⟨hc, Except.ok.inj h⟩
        · cases h
  all_goals cases h

end Lexeme

open Lexeme in
/-- A reserved word consists of characters of names. -/
lemma isLexeme_keyword_iff {word : List Char} {k : Keyword} :
    IsLexeme word (.keyword k) ↔ ∃ c cs, word = c :: cs ∧ startsName c = true ∧
      (∀ d ∈ cs, continuesName d = true) ∧ Keyword.ofName? word = some k := by
  constructor
  · rintro ⟨c, cs, rfl, -, hread⟩
    obtain ⟨hc, hword⟩ := word_of_read_keyword hread
    unfold Lexeme.word at hword
    simp only [] at hword
    split at hword
    · rename_i k' hk
      obtain ⟨hkind, hlength⟩ := Prod.mk.inj hword
      obtain rfl := TokenKind.keyword.inj hkind
      have hall := (List.takeWhile_prefix continuesName).eq_of_length hlength
      rw [hall] at hk
      exact ⟨c, cs, rfl, hc, List.takeWhile_eq_self_iff.mp hall, hk⟩
    · cases (Prod.mk.inj hword).1
  · rintro ⟨c, cs, rfl, hc, hcs, hk⟩
    have hword := word_append (c := c) hcs endsName_nil
    rw [List.append_nil, wordKind, hk] at hword
    exact ⟨c, cs, rfl, isSpace_of_startsName hc, by rw [read_of_startsName hc, hword]⟩

open Lexeme in
/-- **Reserved words** are the same in whatever case. -/
theorem IsLexeme.respelled {word word' : List Char} {k : Keyword} (h : IsLexeme word (.keyword k))
    (same : word.map Char.toLower = word'.map Char.toLower) : IsLexeme word' (.keyword k) := by
  obtain ⟨c, cs, rfl, hc, hcs, hk⟩ := isLexeme_keyword_iff.mp h
  obtain ⟨d, ds, rfl, hhead, htail⟩ := List.map_eq_cons_iff.mp same.symm
  have hcapital : (c :: cs).map Keyword.capital = (d :: ds).map Keyword.capital :=
    map_eq_map_of_toLower (fun _ _ h => (respects_case h).1) same
  have hcontinues : cs.map continuesName = ds.map continuesName :=
    map_eq_map_of_toLower (fun _ _ h => (respects_case h).2.2) htail.symm
  refine isLexeme_keyword_iff.mpr ⟨d, ds, rfl, ?_, ?_, ?_⟩
  · rw [(respects_case hhead).2.1, hc]
  · rw [← List.forall_mem_map (P := (· = true)), ← hcontinues, List.forall_mem_map]
    exact hcs
  · rw [← hk, Keyword.ofName?, Keyword.ofName?, hcapital]

end EntityQuery
