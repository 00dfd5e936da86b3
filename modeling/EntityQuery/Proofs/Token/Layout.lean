import EntityQuery.Proofs.Grammar.Parsed
import EntityQuery.Proofs.Token.Lexemes
import Mathlib.Data.List.Forall2
import Mathlib.Data.String.Basic

/-!
# The layout of a text

The tokens of a text are those of its lexemes. How they are laid out, with white space between them,
and in which case its reserved words are written makes no difference to the tokens, and so none to
the query that is read.
-/

namespace EntityQuery

/-! ### Slices -/

/-- The characters of a text in a stretch of it. -/
def Span.slice (s : Span) (text : String) : String :=
  String.Pos.Raw.extract text ⟨s.start⟩ ⟨s.stop⟩

lemma Position.offset_after (p : Position) (cs : List Char) :
    (p.after cs).offset = p.offset + String.utf8Len cs := by
  induction cs generalizing p with
  | nil => rfl
  | cons c cs ih =>
    have hstep : (p.step c).offset = p.offset + c.utf8Size := by
      unfold step
      split <;> rfl
    have hafter : p.after (c :: cs) = (p.step c).after cs := rfl
    rw [hafter, ih, hstep, String.utf8Len_cons]
    omega

/-- The stretch that some characters of a text take up cuts them out. -/
lemma slice_covering {p : Position} {before : List Char} (h : p.offset = String.utf8Len before)
    (word rest : List Char) :
    ((Span.covering p word).slice (String.ofList (before ++ word ++ rest))).toList = word := by
  have hslice := String.extract_of_valid before word rest
  simp only [Span.slice, Span.covering, Position.offset_after, h]
  rw [hslice, String.toList_ofList]

/-- A text that begins with a lexeme has its token in front of those of the rest. -/
lemma tokensFrom_of_read {p : Position} {cs rest : List Char} {c : Char} {k : TokenKind}
    {n : Nat} {t : Token} {tokens : List Token} (hdrop : Text.dropSpace cs = c :: rest)
    (hread : Lexeme.read c rest = .ok (k, n))
    (ht : t = ⟨k, .covering (p.after (cs.takeWhile Text.isSpace)) (c :: rest.take n)⟩)
    (hmore : tokensFrom ((p.after (cs.takeWhile Text.isSpace)).after (c :: rest.take n))
      (rest.drop n) = .ok tokens) :
    tokensFrom p cs = .ok (t :: tokens) := by
  rw [tokensFrom]
  split
  · rename_i hnil
    rw [hdrop] at hnil
    cases hnil
  · rename_i hcons
    obtain ⟨rfl, rfl⟩ := List.cons.inj (hdrop.symm.trans hcons)
    rw [hread, ht]
    simp only [hmore]

lemma tokensFrom_nil (p : Position) : tokensFrom p [] = .ok [⟨.endOfInput, .covering p []⟩] := by
  rw [tokensFrom]
  rfl

lemma Lexeme.endsAny_nil : EndsAny [] :=
  ⟨endsName_nil, endsNumber_nil, by simp⟩

/-- What the stretches of the tokens of a text cut out are their lexemes. -/
lemma isLexeme_of_tokensFrom {p : Position} (before : List Char) {cs : List Char}
    {tokens : List Token} (hp : p.offset = String.utf8Len before)
    (h : tokensFrom p cs = .ok tokens) :
    ∀ t ∈ tokens.dropLast,
      IsLexeme (t.span.slice (String.ofList (before ++ cs))).toList t.kind := by
  fun_induction tokensFrom p cs generalizing before tokens with
  | case1 =>
    obtain rfl := Except.ok.inj h
    simp
  | case2 => cases h
  | case3 => cases h
  | case4 p cs p' c rest hdrop kind n hread more hmore =>
    rename_i ih
    obtain rfl := Except.ok.inj h
    obtain ⟨front, hfront, -⟩ := exists_front_of_tokensFrom hmore
    have hne : more ≠ [] := by
      rintro rfl
      simp at hfront
    have hspace : Text.isSpace c = false := by
      have hhead := List.head?_dropWhile_not Text.isSpace cs
      rw [← Text.dropSpace, hdrop] at hhead
      exact hhead
    have hlength : (rest.take n).length = n :=
      List.length_take_of_le (Lexeme.read_append Lexeme.endsAny_nil hread).2
    have hp' : p'.offset = String.utf8Len (before ++ cs.takeWhile Text.isSpace) := by
      rw [Position.offset_after, hp, String.utf8Len_append]
    have hp'' : (p'.after (c :: rest.take n)).offset =
        String.utf8Len (before ++ cs.takeWhile Text.isSpace ++ (c :: rest.take n)) := by
      rw [Position.offset_after, hp', String.utf8Len_append (_ ++ _)]
    have htext : before ++ cs =
        before ++ cs.takeWhile Text.isSpace ++ (c :: rest.take n) ++ rest.drop n := by
      conv_lhs => rw [← List.takeWhile_append_dropWhile (p := Text.isSpace) (l := cs)]
      rw [← Text.dropSpace, hdrop]
      simp
    rw [List.dropLast_cons_of_ne_nil hne, htext]
    refine List.forall_mem_cons.mpr ⟨?_, ih _ hp'' hmore⟩
    rw [slice_covering hp']
    exact ⟨c, rest.take n, rfl, hspace, hlength.symm ▸ Lexeme.read_take hread⟩

/-! ### Layouts -/

/-- White space, or nothing. -/
def Blank (cs : List Char) : Prop :=
  ∀ c ∈ cs, Text.isSpace c = true

instance (cs : List Char) : Decidable (Blank cs) :=
  List.decidableBAll (fun c => Text.isSpace c = true) cs

/-- Words in order, with white space between neighbours. -/
inductive Spaced : List (List Char) → List Char → Prop where
  | nothing : Spaced [] []
  | last (word : List Char) : Spaced [word] word
  | more (word : List Char) {g next cs : List Char} {words : List (List Char)}
      (blank : Blank g) (apart : g ≠ []) (rest : Spaced (next :: words) cs) :
      Spaced (word :: next :: words) (word ++ g ++ cs)

/-- A text that consists of words in order, with white space between neighbours and maybe at its
ends. -/
def LaidOut (words : List String) (text : String) : Prop :=
  ∃ before body after, text.toList = before ++ body ++ after ∧ Blank before ∧ Blank after ∧
    Spaced (words.map String.toList) body

/-- No lexeme goes on with white space. -/
lemma Blank.endsAny {cs rest : List Char} (h : Blank cs) (hne : cs ≠ []) :
    Lexeme.EndsAny (cs ++ rest) := by
  obtain ⟨c, cs, rfl⟩ := List.exists_cons_of_ne_nil hne
  have hspace := h c (by simp)
  have hother : ∀ d : Char, Text.isSpace d = false → c ≠ d := by
    rintro d hd rfl
    rw [hd] at hspace
    cases hspace
  have hletter := Text.isLetterOrNumber_of_isSpace hspace
  have hdigit := Text.isAlphanum_of_isSpace hspace
  rw [Char.isAlphanum, Bool.or_eq_false_iff] at hdigit
  have hline : (c == '_') = false := beq_eq_false_iff_ne.mpr (hother '_' rfl)
  constructor
  · intro d hd
    obtain rfl := Option.some.inj hd
    rw [Lexeme.continuesName, hline, hletter]
    rfl
  · intro d hd
    obtain rfl := Option.some.inj hd
    exact ⟨hdigit.2, hother '.' rfl, hother 'e' rfl, hother 'E' rfl⟩
  · intro d hd
    obtain rfl := Option.some.inj hd
    exact ⟨hother '=' rfl, hother '>' rfl, hother '+' rfl, hother '-' rfl⟩

lemma IsLexeme.lexes {word rest : List Char} {kind : TokenKind} {kinds : List TokenKind}
    (h : IsLexeme word kind) (stop : Lexeme.EndsAny rest) (hrest : Lexes rest kinds) :
    Lexes (word ++ rest) (kind :: kinds) := by
  obtain ⟨c, cs, rfl, hspace, hread⟩ := h
  exact .cons hspace (Lexeme.read_append stop hread).1 hrest

/-- **Words** with white space between them have the tokens that each of them is on its own. -/
lemma Spaced.lexes {words : List (List Char)} {kinds : List TokenKind} {cs after : List Char}
    (h : Spaced words cs) (hwords : List.Forall₂ IsLexeme words kinds) (blank : Blank after) :
    Lexes (cs ++ after) (kinds ++ [.endOfInput]) := by
  have hend : Lexes after [.endOfInput] := by
    have hspaces := Lexes.nil.spaces blank
    rwa [List.append_nil] at hspaces
  induction h generalizing kinds with
  | nothing =>
    cases hwords
    exact hend
  | last word =>
    obtain _ | ⟨hword, hnone⟩ := hwords
    cases hnone
    have stop : Lexeme.EndsAny after := by
      by_cases hafter : after = []
      · exact hafter ▸ Lexeme.endsAny_nil
      · have hends : Lexeme.EndsAny (after ++ []) := blank.endsAny hafter
        rwa [List.append_nil] at hends
    exact hword.lexes stop hend
  | more word hgap apart _ ih =>
    obtain _ | ⟨hword, hothers⟩ := hwords
    rw [List.append_assoc, List.append_assoc]
    exact hword.lexes (hgap.endsAny apart) ((ih hothers).spaces hgap)

/-- A text that is laid out of lexemes has their tokens. -/
lemma LaidOut.exists_tokens {words : List String} {text : String} {kinds : List TokenKind}
    (h : LaidOut words text)
    (hwords : List.Forall₂ (fun word kind => IsLexeme word.toList kind) words kinds) :
    ∃ tokens, tokenize text = .ok tokens ∧ tokens.map Token.kind = kinds ++ [.endOfInput] := by
  obtain ⟨before, body, after, htext, hbefore, hafter, hspaced⟩ := h
  have hlexes := hspaced.lexes (List.forall₂_map_left_iff.mpr hwords) hafter
  rw [tokenize, htext, List.append_assoc]
  exact hlexes.spaces hbefore .start

/-! ### Texts that are laid out anew -/

/-- The lexeme of a token, written again: a reserved word in whatever case, any other lexeme as it
is. -/
def Token.Respelled (text : String) (t : Token) (word : String) : Prop :=
  if t.kind.isKeyword then sameWord (t.span.slice text) word = true else word = t.span.slice text

lemma Token.Respelled.isLexeme {text word : String} {t : Token} (same : t.Respelled text word)
    (h : IsLexeme (t.span.slice text).toList t.kind) : IsLexeme word.toList t.kind := by
  obtain ⟨kind, span⟩ := t
  unfold Respelled at same
  split at same
  · rename_i hkeyword
    cases kind with
    | keyword k => exact h.respelled (Grammar.sameWord_iff.mp same)
    | _ => cases hkeyword
  · exact same ▸ h

lemma forall₂_isLexeme {text : String} {tokens : List Token} {words : List String}
    (h : tokenize text = .ok tokens)
    (same : List.Forall₂ (Token.Respelled text) tokens.dropLast words) :
    List.Forall₂ (fun word kind => IsLexeme word.toList kind) words
      (tokens.dropLast.map Token.kind) := by
  have hlexemes := isLexeme_of_tokensFrom [] rfl h
  rw [List.nil_append, String.ofList_toList] at hlexemes
  rw [List.forall₂_map_right_iff]
  exact ((List.forall₂_and_left _ _).mpr ⟨hlexemes, same⟩).imp (fun _ _ h => h.2.isLexeme h.1)
    |>.flip

/-- **Layout.** A text that consists of the lexemes of another one in order, with white space
between neighbours and maybe at its ends, and with its reserved words in whatever case, has tokens
of the same kinds. So it is the same query, or its fault is the same. -/
theorem parse_of_laidOut {text text' : String} {tokens : List Token} {words : List String}
    (h : tokenize text = .ok tokens)
    (same : List.Forall₂ (Token.Respelled text) tokens.dropLast words)
    (laidOut : LaidOut words text') :
    (∃ tokens', tokenize text' = .ok tokens' ∧
      tokens'.map Token.kind = tokens.map Token.kind) ∧
    (RawQuery.parse text').mapError ParseError.fault =
      (RawQuery.parse text).mapError ParseError.fault := by
  obtain ⟨tokens', htokens', hkinds'⟩ := laidOut.exists_tokens (forall₂_isLexeme h same)
  obtain ⟨front, hfront, -⟩ := exists_front_of_tokensFrom h
  have hkinds : tokens'.map Token.kind = tokens.map Token.kind := by
    rw [hkinds', List.map_dropLast, hfront, List.dropLast_concat]
  refine ⟨⟨tokens', htokens', hkinds⟩, ?_⟩
  rw [RawQuery.parse, RawQuery.parse, h, htokens']
  simp only [hkinds]
  cases Tokens.query (tokens.map Token.kind) <;> rfl

/-- The tokens of a text with white space in a string. -/
def spacedTokens : List Token :=
  [⟨.name "a", ⟨0, 1, 1, 1⟩⟩, ⟨.keyword .like, ⟨2, 6, 1, 3⟩⟩, ⟨.string "x  y", ⟨7, 13, 1, 8⟩⟩,
    ⟨.endOfInput, ⟨13, 13, 1, 14⟩⟩]

lemma tokenize_spaced : tokenize "a like 'x  y'" = .ok spacedTokens := by
  have hstring : tokensFrom ⟨6, 1, 7⟩ " 'x  y'".toList = .ok (spacedTokens.drop 2) :=
    tokensFrom_of_read rfl rfl rfl (tokensFrom_nil _)
  have hlike : tokensFrom ⟨1, 1, 2⟩ " like 'x  y'".toList = .ok (spacedTokens.drop 1) :=
    tokensFrom_of_read (k := .keyword .like) (n := 3) rfl (by decide +kernel) rfl hstring
  exact tokensFrom_of_read (k := .name "a") (n := 0) rfl (by decide +kernel) rfl hlike

/-- A line feed, a tab and a capital reserved word change no token, and the space in the string is
kept. -/
theorem parse_of_laidOut_spaced : ∃ tokens, tokenize "\n a LIKE\t'x  y' " = .ok tokens ∧
    tokens.map Token.kind = [.name "a", .keyword .like, .string "x  y", .endOfInput] := by
  have hsame : List.Forall₂ (Token.Respelled "a like 'x  y'") spacedTokens.dropLast
      ["a", "LIKE", "'x  y'"] := by
    simp only [spacedTokens, List.dropLast, List.forall₂_cons, List.Forall₂.nil, and_true,
      Token.Respelled]
    decide +kernel
  have hspaced : Spaced (["a", "LIKE", "'x  y'"].map String.toList) "a LIKE\t'x  y'".toList :=
    .more _ (g := [' ']) (by decide) (by decide)
      (.more _ (g := ['\t']) (by decide) (by decide) (.last _))
  exact (parse_of_laidOut tokenize_spaced hsame
    ⟨['\n', ' '], _, [' '], rfl, by decide, by decide, hspaced⟩).1

end EntityQuery
