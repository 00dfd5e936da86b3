import EntityQuery.Proofs.Token.Content

/-!
# Texts that go on

A lexeme stays the same if the text goes on behind it with a character that no lexeme goes on with.
So the tokens of a text in front of such a character are its tokens on its own.
-/

namespace EntityQuery

/-- No lexeme goes on with the rest of a text. -/
structure Lexeme.EndsAny (rest : List Char) : Prop where
  name : EndsName rest
  number : EndsNumber rest
  sign : ∀ c ∈ rest.head?, c ≠ '=' ∧ c ≠ '>' ∧ c ≠ '+' ∧ c ≠ '-'

lemma takeWhile_append_of_stop {P : Char → Bool} {rest : List Char}
    (stop : ∀ c ∈ rest.head?, P c = false) (cs : List Char) :
    (cs ++ rest).takeWhile P = cs.takeWhile P ∧
      (cs ++ rest).dropWhile P = cs.dropWhile P ++ rest := by
  induction cs with
  | nil =>
    cases rest with
    | nil => exact ⟨rfl, rfl⟩
    | cons c rest => simp [stop c rfl]
  | cons c cs ih => cases hc : P c <;> simp [hc, ih]

namespace Lexeme

variable {c : Char} {cs rest : List Char} {kind : TokenKind} {n : Nat}

/-! ### Lexemes -/

lemma ne_backslash (hlast : c = '\\' → cs ≠ [])
    (hescape : ∀ d ds, c = '\\' → cs ≠ d :: ds) : c ≠ '\\' := by
  intro hc
  cases cs with
  | nil => exact hlast hc rfl
  | cons d ds => exact hescape d ds hc rfl

lemma stringBody?_append {quote : Char} {body : List Char} (h : stringBody? quote cs = some (body, n))
    (rest : List Char) : stringBody? quote (cs ++ rest) = some (body, n) := by
  fun_induction stringBody? quote cs generalizing body n with
  | case1 => cases h
  | case2 => cases h
  | case3 c cs ih =>
    obtain ⟨⟨body', n'⟩, hbody, hresult⟩ := Option.map_eq_some_iff.mp h
    rw [List.cons_append, List.cons_append, stringBody?, ih hbody]
    exact congrArg some hresult
  | case4 cs hlast hescape =>
    have hplain := ne_backslash hlast hescape
    rw [List.cons_append, stringBody?, if_pos rfl]
    · exact h
    · exact fun hc _ => hplain hc
    · exact fun _ _ hc _ => hplain hc
  | case5 c cs hlast hescape hquote ih =>
    obtain ⟨⟨body', n'⟩, hbody, hresult⟩ := Option.map_eq_some_iff.mp h
    have hplain := ne_backslash hlast hescape
    rw [List.cons_append, stringBody?, if_neg hquote, ih hbody]
    · exact congrArg some hresult
    · exact fun hc _ => hplain hc
    · exact fun _ _ hc _ => hplain hc

lemma fraction_append (stop : EndsNumber rest) (cs : List Char) :
    fraction (cs ++ rest) = fraction cs ∧ (fraction cs).length ≤ cs.length := by
  have hdigit : ∀ c ∈ rest.head?, c.isDigit = false := fun c hc => (stop c hc).1
  match cs with
  | [] => exact ⟨fraction_eq_nil fun c hc => (stop c hc).2.1, Nat.le_refl _⟩
  | [c] =>
    have hnil : fraction [c] = [] := by
      unfold fraction
      split
      · rename_i heq
        cases heq
      · rfl
    refine ⟨?_, by simp [hnil]⟩
    rw [hnil]
    unfold fraction
    split
    · rename_i d ds heq
      have hd : rest.head? = some d := by
        rw [List.singleton_append] at heq
        rw [(List.cons.inj heq).2]
        rfl
      rw [hdigit d hd]
      rfl
    · rfl
  | c :: d :: cs =>
    by_cases hc : c = '.'
    · subst hc
      simp only [List.cons_append, fraction, (takeWhile_append_of_stop hdigit cs).1]
      refine ⟨trivial, ?_⟩
      split
      · simpa using (List.takeWhile_prefix _).length_le
      · simp
    · rw [fraction_eq_nil (by simpa using hc), fraction_eq_nil (by simpa using hc)]
      exact ⟨rfl, Nat.zero_le _⟩

/-- The digits follow the mark of an exponent if no sign stands between them. -/
lemma exponent_unsigned {e : Char} (he : e = 'e' ∨ e = 'E')
    (unsigned : ∀ c ∈ cs.head?, c ≠ '+' ∧ c ≠ '-') :
    exponent (e :: cs) = (['e'], cs.takeWhile Char.isDigit) := by
  unfold exponent
  simp only [if_pos he]
  split
  · exact absurd rfl (unsigned '+' rfl).1
  · exact absurd rfl (unsigned '-' rfl).2
  · rfl

lemma exponent_append (stop : EndsAny rest) (cs : List Char) :
    exponent (cs ++ rest) = exponent cs ∧
      ((exponent cs).1 ++ (exponent cs).2).length ≤ cs.length := by
  have hdigit : ∀ c ∈ rest.head?, c.isDigit = false := fun c hc => (stop.number c hc).1
  have htake (cs : List Char) : (cs ++ rest).takeWhile Char.isDigit = cs.takeWhile Char.isDigit :=
    (takeWhile_append_of_stop hdigit cs).1
  have hlength (cs : List Char) : (cs.takeWhile Char.isDigit).length ≤ cs.length :=
    (List.takeWhile_prefix _).length_le
  cases cs with
  | nil => exact ⟨exponent_of_endsNumber stop.number, Nat.le_refl _⟩
  | cons e cs =>
    by_cases he : e = 'e' ∨ e = 'E'
    · by_cases hunsigned : ∀ c ∈ cs.head?, c ≠ '+' ∧ c ≠ '-'
      · have hrest : ∀ c ∈ (cs ++ rest).head?, c ≠ '+' ∧ c ≠ '-' := by
          cases cs with
          | nil => exact fun c hc => (stop.sign c hc).2.2
          | cons => exact hunsigned
        rw [List.cons_append, exponent_unsigned he hrest, exponent_unsigned he hunsigned, htake]
        exact ⟨rfl, Nat.succ_le_succ (hlength cs)⟩
      · obtain ⟨c, ds, rfl, hsign⟩ : ∃ c ds, cs = c :: ds ∧ (c = '+' ∨ c = '-') := by
          cases cs with
          | nil => simp at hunsigned
          | cons c ds => exact ⟨c, ds, rfl, by simpa [-not_and, not_and_or] using hunsigned⟩
        rcases hsign with rfl | rfl
        all_goals
          simp only [List.cons_append, exponent, if_pos he, htake]
          exact ⟨trivial, Nat.succ_le_succ (Nat.succ_le_succ (hlength ds))⟩
    · simp [exponent, he]

lemma number_append (stop : EndsAny rest) (h : number c cs = .ok (kind, n)) :
    number c (cs ++ rest) = .ok (kind, n) ∧ n ≤ cs.length := by
  have hdigit : ∀ c ∈ rest.head?, c.isDigit = false := fun c hc => (stop.number c hc).1
  obtain ⟨htake, hdrop⟩ := takeWhile_append_of_stop hdigit cs
  obtain ⟨hfraction, hfits⟩ := fraction_append stop.number (cs.dropWhile Char.isDigit)
  obtain ⟨hexponent, hfits'⟩ := exponent_append stop
    ((cs.dropWhile Char.isDigit).drop (fraction (cs.dropWhile Char.isDigit)).length)
  have hcs : (cs.takeWhile Char.isDigit).length + (cs.dropWhile Char.isDigit).length = cs.length := by
    rw [← List.length_append, List.takeWhile_append_dropWhile]
  constructor
  · rw [← h]
    unfold number
    simp only [htake, hdrop, hfraction, List.drop_append_of_le_length hfits, hexponent]
  · rw [List.length_drop, List.length_append] at hfits'
    obtain ⟨further, hfurther, hlength⟩ : ∃ further : List Char, n = further.length ∧
        further.length ≤ cs.length := by
      unfold number at h
      simp only [] at h
      split at h
      · refine ⟨_, (Prod.mk.inj (Except.ok.inj h)).2.symm, ?_⟩
        simp only [List.length_append]
        omega
      · cases h
    exact hfurther ▸ hlength

lemma word_append_rest (stop : EndsName rest) (c : Char) (cs : List Char) :
    word c (cs ++ rest) = word c cs ∧ (word c cs).2 ≤ cs.length := by
  have hlength : (cs.takeWhile continuesName).length ≤ cs.length :=
    (List.takeWhile_prefix _).length_le
  simp only [word, (takeWhile_append_of_stop stop cs).1]
  refine ⟨trivial, ?_⟩
  split <;> exact hlength

lemma read_less (h : ∀ c ∈ cs.head?, c ≠ '=' ∧ c ≠ '>') : read '<' cs = .ok (.sign .lt, 0) := by
  cases cs with
  | nil => rfl
  | cons c cs => simp [read, h c rfl]

lemma read_greater (h : ∀ c ∈ cs.head?, c ≠ '=') : read '>' cs = .ok (.sign .gt, 0) := by
  cases cs with
  | nil => rfl
  | cons c cs => simp [read, h c rfl]

/-- **Lexemes** stay the same in front of a character that they do not go on with. -/
theorem read_append (stop : EndsAny rest) (h : read c cs = .ok (kind, n)) :
    read c (cs ++ rest) = .ok (kind, n) ∧ n ≤ cs.length := by
  unfold read at h
  split at h
  case h_10 hle hne =>
    obtain ⟨rfl, rfl⟩ := Prod.mk.inj (Except.ok.inj h)
    refine ⟨read_less fun d hd => ?_, Nat.zero_le _⟩
    cases cs with
    | nil => exact ⟨(stop.sign d hd).1, (stop.sign d hd).2.1⟩
    | cons d' ds =>
      obtain rfl := Option.some.inj hd
      exact ⟨fun heq => hle ds (by rw [heq]), fun heq => hne ds (by rw [heq])⟩
  case h_12 hge =>
    obtain ⟨rfl, rfl⟩ := Prod.mk.inj (Except.ok.inj h)
    refine ⟨read_greater fun d hd => ?_, Nat.zero_le _⟩
    cases cs with
    | nil => exact (stop.sign d hd).1
    | cons d' ds =>
      obtain rfl := Option.some.inj hd
      exact fun heq => hge ds (by rw [heq])
  case h_14 =>
    split at h
    · rename_i hquote
      split at h
      · rename_i body m hbody
        obtain ⟨rfl, rfl⟩ := Prod.mk.inj (Except.ok.inj h)
        have happend := stringBody?_append hbody rest
        refine ⟨?_, (length_of_stringBody? hbody).2⟩
        rcases hquote with rfl | rfl <;> simp [read, happend]
      · cases h
    · split at h
      · rename_i hstart
        obtain ⟨hnumber, hfits⟩ := number_append stop h
        have hstart : c.isDigit = true ∨ c = '-' ∧ (cs ++ rest).head?.any Char.isDigit := by
          refine hstart.imp_right fun hminus => ⟨hminus.1, ?_⟩
          cases cs with
          | nil => simp at hminus
          | cons => exact hminus.2
        exact ⟨(read_of_number hstart).trans hnumber, hfits⟩
      · split at h
        · rename_i hname
          obtain ⟨hword, hfits⟩ := word_append_rest stop.name c cs
          rw [Except.ok.inj h] at hword hfits
          exact ⟨(read_of_startsName hname _).trans (congrArg _ hword), hfits⟩
        · cases h
  all_goals
    obtain ⟨rfl, rfl⟩ := Prod.mk.inj (Except.ok.inj h)
    exact ⟨rfl, by simp⟩

end Lexeme

/-! ### Tokens -/

namespace Lexes

variable {cs rest : List Char} {ks : List TokenKind}

lemma spaces (hspace : ∀ c ∈ cs, Text.isSpace c = true) (h : Lexes rest ks) :
    Lexes (cs ++ rest) ks := by
  intro p
  have hdrop : Text.dropSpace (cs ++ rest) = Text.dropSpace rest := by
    rw [Text.dropSpace, List.dropWhile_append_of_pos hspace, Text.dropSpace]
  have htake : (cs ++ rest).takeWhile Text.isSpace = cs ++ rest.takeWhile Text.isSpace :=
    List.takeWhile_append_of_pos hspace
  obtain ⟨tokens, htokens, hkinds⟩ := h (p.after cs)
  refine ⟨tokens, ?_, hkinds⟩
  have hafter : p.after (cs ++ rest.takeWhile Text.isSpace) =
      (p.after cs).after (rest.takeWhile Text.isSpace) := List.foldl_append
  rw [← htokens, tokensFrom, tokensFrom, htake, hafter, hdrop]

/-- **Tokens** of a text in front of another one. -/
theorem exists_append {p : Position} {tokens : List Token} (h : tokensFrom p cs = .ok tokens) :
    ∃ ts, tokens.map Token.kind = ts ++ [.endOfInput] ∧
      ∀ rest ks, Lexeme.EndsAny rest → Lexes rest ks → Lexes (cs ++ rest) (ts ++ ks) := by
  have hspace : ∀ cs : List Char, ∀ c ∈ cs.takeWhile Text.isSpace, Text.isSpace c = true :=
    fun cs c hc => List.mem_takeWhile_imp hc
  fun_induction tokensFrom p cs generalizing tokens with
  | case1 p cs _ =>
    rename_i hnil
    obtain rfl := Except.ok.inj h
    refine ⟨[], rfl, fun rest ks _ hrest => spaces ?_ hrest⟩
    have hcs : cs.takeWhile Text.isSpace = cs := by
      have hboth := List.takeWhile_append_dropWhile (p := Text.isSpace) (l := cs)
      rwa [← Text.dropSpace, hnil, List.append_nil] at hboth
    exact hcs ▸ hspace cs
  | case2 => cases h
  | case3 => cases h
  | case4 p cs p' c rest hdrop kind n hread more hmore =>
    rename_i ih
    obtain rfl := Except.ok.inj h
    obtain ⟨ts, hts, hlexes⟩ := ih hmore
    refine ⟨kind :: ts, by rw [List.map_cons, hts]; rfl, fun rest' ks stop hrest => ?_⟩
    obtain ⟨happend, hfits⟩ := Lexeme.read_append stop hread
    have hlength : (rest.take n).length = n := List.length_take_of_le hfits
    have hlexeme : Lexes (c :: rest.take n ++ (rest.drop n ++ rest')) (kind :: (ts ++ ks)) := by
      refine cons ?_ ?_ (hlexes rest' ks stop hrest)
      · have hhead := List.head?_dropWhile_not Text.isSpace cs
        rw [← Text.dropSpace, hdrop] at hhead
        exact hhead
      · rw [← List.append_assoc, List.take_append_drop, hlength]
        exact happend
    have hcs : cs ++ rest' =
        cs.takeWhile Text.isSpace ++ (c :: rest.take n ++ (rest.drop n ++ rest')) := by
      conv_lhs => rw [← List.takeWhile_append_dropWhile (p := Text.isSpace) (l := cs)]
      rw [← Text.dropSpace, hdrop, List.cons_append, ← List.append_assoc (rest.take n),
        List.take_append_drop, List.append_assoc, List.cons_append]
    rw [hcs]
    exact spaces (hspace cs) hlexeme

end Lexes

end EntityQuery
