import EntityQuery.Proofs.Number.ReadBack
import EntityQuery.Proofs.Text.Letter
import EntityQuery.Token.Scan

/-!
# Written tokens

A name, a string or a number that is written in front of a text is read as one token, if the text
does not go on with it. Where the text stands makes no difference to its tokens, so positions are
left aside.
-/

namespace EntityQuery

/-- A text has tokens of some kinds, wherever it stands. -/
def Lexes (cs : List Char) (ks : List TokenKind) : Prop :=
  ∀ p, ∃ tokens, tokensFrom p cs = .ok tokens ∧ tokens.map Token.kind = ks

/-- A name that is no reserved word. -/
def IsName (s : String) : Prop :=
  ∃ c cs, s.toList = c :: cs ∧ Lexeme.startsName c = true ∧
    (∀ d ∈ cs, Lexeme.continuesName d = true) ∧ Keyword.ofName? (c :: cs) = none

lemma isName_iff {s : String} :
    IsName s ↔ (match s.toList with
      | [] => false
      | c :: cs => Lexeme.startsName c && cs.all Lexeme.continuesName &&
          (Keyword.ofName? (c :: cs)).isNone) = true := by
  unfold IsName
  split
  · simp_all
  · rename_i c cs hchars
    simp [hchars, and_assoc]

instance (s : String) : Decidable (IsName s) :=
  decidable_of_iff _ isName_iff.symm

namespace Lexeme

variable {c : Char}

/-! ### Characters of names -/

lemma startsName_eq_false (h : c.toNat < 0x80) (halpha : c.isAlpha = false) (hc : c ≠ '_') :
    startsName c = false := by
  have hline : (c == '_') = false := beq_eq_false_iff_ne.mpr hc
  rw [startsName, Text.isLetter, hline, halpha, (Text.inRanges_ascii h).1]
  rfl

lemma continuesName_eq_false (h : c.toNat < 0x80) (halpha : c.isAlphanum = false) (hc : c ≠ '_') :
    continuesName c = false := by
  have hline : (c == '_') = false := beq_eq_false_iff_ne.mpr hc
  rw [continuesName, Text.isLetterOrNumber, hline, halpha, (Text.inRanges_ascii h).1,
    (Text.inRanges_ascii h).2]
  rfl

lemma isSpace_of_startsName (h : startsName c = true) : Text.isSpace c = false := by
  by_contra hspace
  rw [Bool.not_eq_false] at hspace
  have hletter := Text.isLetter_of_isSpace hspace
  have hline : c ≠ '_' := by
    rintro rfl
    exact absurd hspace (by decide)
  simp [startsName, hletter, hline] at h

/-! ### Reading a lexeme -/

/-- Signs, quotes and digits start no name. -/
lemma read_of_startsName (h : startsName c = true) (cs : List Char) :
    read c cs = .ok (word c cs) := by
  have hsign : ∀ d : Char, d.toNat < 0x80 → d.isAlpha = false → d ≠ '_' → c ≠ d := by
    rintro d hlow halpha hline rfl
    rw [startsName_eq_false hlow halpha hline] at h
    cases h
  have hdigit : c.isDigit = false := by
    by_contra hdigit
    rw [Bool.not_eq_false] at hdigit
    have hrange := Text.toNat_of_isDigit hdigit
    have hdigits : ∀ n ∈ List.range' 48 10, (Char.ofNat n).isAlpha = false := by decide
    have halpha := hdigits c.toNat (List.mem_range'_1.mpr (by omega))
    rw [Char.ofNat_toNat] at halpha
    refine hsign c (by omega) halpha ?_ rfl
    rintro rfl
    cases hdigit
  unfold read
  split
  all_goals first | exact absurd rfl (hsign _ (by decide) (by decide) (by decide)) | skip
  rw [if_neg (not_or.mpr ⟨hsign '\'' (by decide) (by decide) (by decide),
    hsign '"' (by decide) (by decide) (by decide)⟩), hdigit,
    if_neg (by simpa using fun h => absurd h (hsign '-' (by decide) (by decide) (by decide))),
    if_pos h]

lemma read_of_number {cs : List Char} (h : c.isDigit = true ∨ c = '-' ∧ cs.head?.any Char.isDigit) :
    read c cs = number c cs := by
  have hsign : ∀ d : Char, d.isDigit = false → d ≠ '-' → c ≠ d := by
    rintro d hdigit hminus rfl
    rcases h with h | ⟨h, -⟩
    · rw [hdigit] at h
      cases h
    · exact hminus h
  unfold read
  split
  all_goals first | exact absurd rfl (hsign _ (by decide) (by decide)) | skip
  rw [if_neg (not_or.mpr ⟨hsign '\'' (by decide) (by decide), hsign '"' (by decide) (by decide)⟩),
    if_pos h]

/-- The rest of a text does not go on with a name. -/
def EndsName (rest : List Char) : Prop :=
  ∀ c ∈ rest.head?, continuesName c = false

/-- The rest of a text does not go on with a number. -/
def EndsNumber (rest : List Char) : Prop :=
  ∀ c ∈ rest.head?, c.isDigit = false ∧ c ≠ '.' ∧ c ≠ 'e' ∧ c ≠ 'E'

lemma endsName_nil : EndsName [] := by
  simp [EndsName]

lemma endsNumber_nil : EndsNumber [] := by
  simp [EndsNumber]

variable {rest : List Char}

lemma EndsName.cons (h : c.toNat < 0x80) (halpha : c.isAlphanum = false) (hc : c ≠ '_') :
    EndsName (c :: rest) := by
  intro d hd
  obtain rfl := Option.some.inj hd
  exact continuesName_eq_false h halpha hc

/-- The token of a word: the reserved word that it spells, or else a name. -/
def wordKind (chars : List Char) : TokenKind :=
  match Keyword.ofName? chars with
  | some k => .keyword k
  | none => .name (String.ofList chars)

lemma word_append {cs : List Char} (h : ∀ d ∈ cs, continuesName d = true) (stop : EndsName rest) :
    word c (cs ++ rest) = (wordKind (c :: cs), cs.length) := by
  have hstop : rest.takeWhile continuesName = [] := by
    cases rest with
    | nil => rfl
    | cons d rest => rw [List.takeWhile_cons, stop d rfl, if_neg (by decide)]
  have htake : (cs ++ rest).takeWhile continuesName = cs := by
    rw [List.takeWhile_append_of_pos h, hstop, List.append_nil]
  simp only [word, wordKind, htake]
  cases Keyword.ofName? (c :: cs) <;> rfl

/-- A quoted text is read up to the quote at its end. -/
lemma stringBody?_escapeQuotes (cs rest : List Char) :
    stringBody? '\'' (Text.escapeQuotes cs ++ '\'' :: rest) =
      some (cs, (Text.escapeQuotes cs).length + 1) := by
  induction cs with
  | nil => rfl
  | cons c cs ih =>
    rw [Text.escapeQuotes]
    by_cases hc : c = '\\' ∨ c = '\''
    · have hor : c = '\'' ∨ c = '\\' := hc.symm
      rw [if_pos hc, List.cons_append, List.cons_append, stringBody?, ih]
      simp [hor]
    · rw [if_neg hc, List.cons_append]
      rw [not_or] at hc
      rw [stringBody?, if_neg hc.2, ih]
      · simp
      · simp [hc.1]
      · simp [hc.1]

/-! ### Numbers -/

lemma exponent_of_endsNumber (stop : EndsNumber rest) : exponent rest = ([], []) := by
  cases rest with
  | nil => rfl
  | cons c rest =>
    obtain ⟨-, -, he, hE⟩ := stop c rfl
    simp [exponent, he, hE]

lemma fraction_eq_nil (h : ∀ c ∈ rest.head?, c ≠ '.') : fraction rest = [] := by
  unfold fraction
  split
  · exact absurd rfl (h '.' rfl)
  · rfl

/-- A numeral with its sign starts like a number, and is read as an integer unless a point or an
exponent follows; it may be out of range. -/
lemma exists_number_numeral (negative : Bool) (n : Nat) (stop : EndsNumber rest) :
    ∃ c cs, Text.signChars negative ++ Text.numeral n = c :: cs ∧
      (c.isDigit = true ∨ c = '-' ∧ (cs ++ rest).head?.any Char.isDigit) ∧
      number c (cs ++ rest) =
        match Text.fitInt64? (if negative then -n else n) with
        | some i => .ok (.int i, cs.length)
        | none => .error (.invalidNumber (String.ofList (c :: cs)), cs.length) := by
  have hdigit : ∀ c ∈ Text.numeral n, c.isDigit = true :=
    fun c hc => Text.isDigit_of_mem_numeral hc
  obtain ⟨first, more, hnumeral⟩ := List.exists_cons_of_ne_nil (Text.numeral_ne_nil n)
  obtain ⟨c, cs, hchars, hcs, hstart⟩ : ∃ c cs,
      Text.signChars negative ++ Text.numeral n = c :: cs ∧ (∀ d ∈ cs, d.isDigit = true) ∧
      (c.isDigit = true ∨ c = '-' ∧ (cs ++ rest).head?.any Char.isDigit) := by
    cases negative with
    | true =>
      refine ⟨_, _, rfl, hdigit, .inr ⟨rfl, ?_⟩⟩
      rw [hnumeral]
      exact hdigit first (by simp [hnumeral])
    | false =>
      rw [hnumeral] at hdigit ⊢
      exact ⟨_, _, rfl, fun d hd => hdigit d (by simp [hd]), .inl (hdigit first (by simp))⟩
  refine ⟨c, cs, hchars, hstart, ?_⟩
  have hdigits : ∀ d ∈ rest.head?, d.isDigit = false := fun d hd => (stop d hd).1
  obtain ⟨htake, hdrop⟩ := WrittenDecimal.takeWhile_digits hcs hdigits
  have hsign : Text.splitSign (c :: cs) = (negative, Text.numeral n) := by
    rw [← hchars]
    cases negative with
    | true => rfl
    | false => exact Text.splitSign_of_isDigit fun d hd => hdigit d (List.mem_of_head? hd)
  have hread : Text.readInt64? (c :: cs) = Text.fitInt64? (if negative then -n else n) := by
    rw [Text.readInt64?, hsign]
    simp only [Text.readNat?_numeral, Option.bind_some]
  have hfraction := fraction_eq_nil fun d hd => (stop d hd).2.1
  have hexponent := exponent_of_endsNumber stop
  cases hfit : Text.fitInt64? (if negative then -n else n) <;>
    simp [number, htake, hdrop, hfraction, hexponent, hread, hfit]

/-- **Integers** are read back, unless a point or an exponent follows. -/
lemma number_integerText (i : Int64) (stop : EndsNumber rest) :
    ∃ c cs, (Text.integerText i.toInt).toList = c :: cs ∧
      (c.isDigit = true ∨ c = '-' ∧ (cs ++ rest).head?.any Char.isDigit) ∧
      number c (cs ++ rest) = .ok (.int i, cs.length) := by
  obtain ⟨c, cs, hchars, hstart, hnumber⟩ :=
    exists_number_numeral (decide (i.toInt < 0)) i.toInt.natAbs stop
  have habs : (if decide (i.toInt < 0) = true then -(i.toInt.natAbs : Int) else i.toInt.natAbs) =
      i.toInt := by
    simp only [decide_eq_true_eq]
    split <;> omega
  rw [habs, Text.fitInt64?_toInt] at hnumber
  refine ⟨c, cs, ?_, hstart, hnumber⟩
  rw [← hchars, Text.integerText, String.toList_ofList, Text.signChars]
  by_cases hi : i.toInt < 0 <;> simp [hi]

lemma fraction_pointChars {w : WrittenDecimal} (h : w.Proper)
    (stop : ∀ c ∈ rest.head?, c.isDigit = false ∧ c ≠ '.') :
    fraction (w.pointChars ++ rest) = w.pointChars := by
  unfold WrittenDecimal.pointChars
  by_cases hfraction : w.fraction = []
  · rw [if_pos hfraction, List.nil_append, fraction_eq_nil fun c hc => (stop c hc).2]
  · obtain ⟨d, ds, hcons⟩ := List.exists_cons_of_ne_nil hfraction
    have hd : d.isDigit = true := h.fraction d (by simp [hcons])
    have hds : ∀ c ∈ ds, c.isDigit = true := fun c hc => h.fraction c (by simp [hcons, hc])
    obtain ⟨htake, -⟩ := WrittenDecimal.takeWhile_digits hds fun c hc => (stop c hc).1
    rw [if_neg hfraction, hcons]
    simp [fraction, hd, htake]

lemma exponent_exponentChars (w : WrittenDecimal) (stop : EndsNumber rest) :
    ∃ mark digits, exponent (w.exponentChars ++ rest) = (mark, digits) ∧
      w.exponentChars = mark ++ digits ∧ (mark ≠ [] → digits ≠ []) ∧
      (w.exponent?.isSome = true → mark ≠ []) := by
  unfold WrittenDecimal.exponentChars
  cases w.exponent? with
  | none => exact ⟨[], [], exponent_of_endsNumber stop, rfl, by simp, by simp⟩
  | some e =>
    have hdigit : ∀ c ∈ Text.numeral e.natAbs, c.isDigit = true :=
      fun c hc => Text.isDigit_of_mem_numeral hc
    obtain ⟨htake, -⟩ := WrittenDecimal.takeWhile_digits hdigit fun c hc => (stop c hc).1
    have hne := Text.numeral_ne_nil e.natAbs
    by_cases he : e < 0
    · refine ⟨['e', '-'], Text.numeral e.natAbs, ?_, ?_, by simp [hne], by simp⟩
      · simp [Text.integerText, he, exponent, htake]
      · simp [Text.integerText, he]
    · refine ⟨['e'], Text.numeral e.natAbs, ?_, ?_, by simp [hne], by simp⟩
      · obtain ⟨first, more, hnumeral⟩ := List.exists_cons_of_ne_nil hne
        have hfirst : first.isDigit = true := hdigit first (by simp [hnumeral])
        have hplus : first ≠ '+' := by
          rintro rfl
          cases hfirst
        have hminus : first ≠ '-' := by
          rintro rfl
          cases hfirst
        rw [hnumeral, List.cons_append] at htake
        simp [Text.integerText, he, exponent, hnumeral, hplus, hminus, htake]
      · simp [Text.integerText, he]

lemma exponentChars_append_stop (w : WrittenDecimal) (stop : EndsNumber rest) :
    ∀ c ∈ (w.exponentChars ++ rest).head?, c.isDigit = false ∧ c ≠ '.' := by
  intro c hc
  cases hexponentChars : w.exponentChars with
  | nil =>
    rw [hexponentChars, List.nil_append] at hc
    exact ⟨(stop c hc).1, (stop c hc).2.1⟩
  | cons d ds =>
    obtain rfl := w.exponentChars_stop d (by rw [hexponentChars]; rfl)
    obtain rfl : 'e' = c := by simpa [hexponentChars] using hc
    exact ⟨rfl, by decide⟩

lemma pointChars_append_stop (w : WrittenDecimal) (stop : EndsNumber rest) :
    ∀ c ∈ (w.pointChars ++ (w.exponentChars ++ rest)).head?, c.isDigit = false := by
  unfold WrittenDecimal.pointChars
  split
  · exact fun c hc => (exponentChars_append_stop w stop c hc).1
  · simp

/-- A written decimal with its sign starts like a number, and goes on with digits. -/
lemma exists_first {w : WrittenDecimal} (hw : w.Proper) (negative : Bool) (rest : List Char) :
    ∃ c whole, (∀ d ∈ whole, d.isDigit = true) ∧
      Text.signChars negative ++ w.chars = c :: (whole ++ (w.pointChars ++ w.exponentChars)) ∧
      (c.isDigit = true ∨ c = '-' ∧
        (whole ++ (w.pointChars ++ w.exponentChars) ++ rest).head?.any Char.isDigit) := by
  cases negative with
  | true =>
    obtain ⟨first, more, hfirst, hchars⟩ := hw.exists_cons
    refine ⟨'-', w.whole, hw.whole, rfl, .inr ⟨rfl, ?_⟩⟩
    rw [← WrittenDecimal.chars, hchars]
    simpa using hfirst
  | false =>
    obtain ⟨d, ds, hcons⟩ := List.exists_cons_of_ne_nil hw.started
    have hd := hw.whole
    rw [hcons] at hd
    refine ⟨d, ds, fun c hc => hd c (by simp [hc]), ?_, .inl (hd d (by simp))⟩
    rw [WrittenDecimal.chars, hcons]
    rfl

/-- A written decimal with its sign is read as its value, unless more digits, a point or an exponent
follow. -/
lemma exists_number_chars {w : WrittenDecimal} (hw : w.Proper) (negative : Bool)
    (stop : EndsNumber rest) :
    ∃ c cs, Text.signChars negative ++ w.chars = c :: cs ∧
      (c.isDigit = true ∨ c = '-' ∧ (cs ++ rest).head?.any Char.isDigit) ∧
      number c (cs ++ rest) = .ok (.float (w.value negative), cs.length) := by
  obtain ⟨mark, digits, hexponent, hmark, hsome, hmarked⟩ := exponent_exponentChars w stop
  obtain ⟨c, whole, hwhole, hcs, hstart⟩ := exists_first hw negative rest
  refine ⟨c, _, hcs, hstart, ?_⟩
  obtain ⟨htake, hdrop⟩ :=
    WrittenDecimal.takeWhile_digits hwhole (pointChars_append_stop w stop)
  have hfraction := fraction_pointChars hw (exponentChars_append_stop w stop)
  have hfurther : whole ++ w.pointChars ++ mark ++ digits =
      whole ++ (w.pointChars ++ w.exponentChars) := by
    rw [hmark]
    simp
  have hread : Double.ofText? (String.ofList (c :: (whole ++ (w.pointChars ++ w.exponentChars)))) =
      some (w.value negative) := by
    rw [← hcs, WrittenDecimal.ofText?_chars hw]
  -- a decimal without a point is written with an exponent, so it is no integer
  have hnumber : ¬ (w.pointChars = [] ∧ mark = []) := by
    rintro ⟨hpoint, hnil⟩
    refine hmarked (hw.marked ?_) hnil
    unfold WrittenDecimal.pointChars at hpoint
    split at hpoint
    · assumption
    · cases hpoint
  have happend : whole ++ (w.pointChars ++ w.exponentChars) ++ rest =
      whole ++ (w.pointChars ++ (w.exponentChars ++ rest)) := by simp
  have hdigits : ¬ (mark ≠ [] ∧ digits = []) := fun h => hsome h.1 h.2
  unfold number
  rw [happend]
  simp only [htake, hdrop, hfraction, List.drop_left, hexponent, hfurther, if_neg hdigits,
    if_neg hnumber, hread, Option.map_some]

end Lexeme

namespace Lexes

variable {c : Char} {cs rest : List Char} {ks : List TokenKind} {kind : TokenKind}

/-! ### One token more -/

lemma nil : Lexes [] [.endOfInput] := by
  intro p
  rw [tokensFrom]
  exact ⟨_, rfl, rfl⟩

lemma space (h : Lexes rest ks) : Lexes (' ' :: rest) ks := by
  intro p
  obtain ⟨tokens, htokens, hkinds⟩ := h (p.step ' ')
  refine ⟨tokens, ?_, hkinds⟩
  rw [← htokens, tokensFrom, tokensFrom]
  rfl

/-- A lexeme in front of a text. -/
lemma cons (hspace : Text.isSpace c = false)
    (hread : Lexeme.read c (cs ++ rest) = .ok (kind, cs.length)) (h : Lexes rest ks) :
    Lexes (c :: cs ++ rest) (kind :: ks) := by
  intro p
  have hafter : p.after ((c :: (cs ++ rest)).takeWhile Text.isSpace) = p := by
    rw [List.takeWhile_cons, hspace]
    rfl
  have hdrop : Text.dropSpace (c :: cs ++ rest) = c :: (cs ++ rest) := by
    rw [Text.dropSpace, List.cons_append, List.dropWhile_cons, hspace]
    rfl
  obtain ⟨tokens, htokens, hkinds⟩ := h (p.after (c :: cs))
  refine ⟨⟨kind, .covering p (c :: cs)⟩ :: tokens, ?_, by rw [List.map_cons, hkinds]⟩
  rw [tokensFrom]
  split
  · rename_i hnil
    rw [hdrop] at hnil
    cases hnil
  · rename_i d ds hcons
    rw [hdrop] at hcons
    obtain ⟨rfl, rfl⟩ := List.cons.inj hcons
    simp [hread, hafter, htokens]

lemma word (hc : Lexeme.startsName c = true) (hcs : ∀ d ∈ cs, Lexeme.continuesName d = true)
    (stop : Lexeme.EndsName rest) (h : Lexes rest ks) :
    Lexes (c :: cs ++ rest) (Lexeme.wordKind (c :: cs) :: ks) := by
  refine cons (Lexeme.isSpace_of_startsName hc) ?_ h
  rw [Lexeme.read_of_startsName hc, Lexeme.word_append hcs stop]

lemma name {s : String} (hs : IsName s) (stop : Lexeme.EndsName rest) (h : Lexes rest ks) :
    Lexes (s.toList ++ rest) (.name s :: ks) := by
  obtain ⟨c, cs, hchars, hc, hcs, hnone⟩ := hs
  have hword := word hc hcs stop h
  rw [Lexeme.wordKind, hnone] at hword
  have hs : String.ofList (c :: cs) = s := by rw [← hchars, String.ofList_toList]
  rw [hchars, ← hs]
  exact hword

lemma string (s : String) (h : Lexes rest ks) :
    Lexes ((Text.quote s).toList ++ rest) (.string s :: ks) := by
  have hquote : (Text.quote s).toList = '\'' :: (Text.escapeQuotes s.toList ++ ['\'']) := by
    simp [Text.quote]
  rw [hquote]
  refine cons (by decide) ?_ h
  have hbody := Lexeme.stringBody?_escapeQuotes s.toList rest
  rw [List.append_assoc, List.singleton_append]
  simp [Lexeme.read, hbody]

/-- Characters in front of a text that are read as one number. -/
lemma number {chars : List Char}
    (hnumber : ∃ c cs, chars = c :: cs ∧
      (c.isDigit = true ∨ c = '-' ∧ (cs ++ rest).head?.any Char.isDigit) ∧
      Lexeme.number c (cs ++ rest) = .ok (kind, cs.length))
    (h : Lexes rest ks) : Lexes (chars ++ rest) (kind :: ks) := by
  obtain ⟨c, cs, rfl, hstart, hnumber⟩ := hnumber
  refine cons ?_ (by rw [Lexeme.read_of_number hstart, hnumber]) h
  rcases hstart with hc | ⟨rfl, -⟩
  · exact Text.isSpace_of_isDigit hc
  · decide

lemma integer (i : Int64) (stop : Lexeme.EndsNumber rest) (h : Lexes rest ks) :
    Lexes ((Text.integerText i.toInt).toList ++ rest) (.int i :: ks) :=
  number (Lexeme.number_integerText i stop) h

lemma decimal {d : Double} (hd : d.isFinite = true) (stop : Lexeme.EndsNumber rest)
    (h : Lexes rest ks) : Lexes (d.literalText.toList ++ rest) (.float d :: ks) := by
  cases d with
  | nan => cases hd
  | infinite => cases hd
  | finite negative units representable =>
    obtain ⟨w, hw, hvalue, hliteral⟩ := Double.exists_literalText negative representable
    rw [hliteral, ← hvalue]
    exact number (Lexeme.exists_number_chars hw negative stop) h

end Lexes

end EntityQuery
