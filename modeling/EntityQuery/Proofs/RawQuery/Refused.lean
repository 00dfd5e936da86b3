import EntityQuery.Proofs.Grammar.Completed
import EntityQuery.Proofs.Token.Layout

/-!
# The place of a fault

A text that is no query is refused at the first token that cannot be right: the tokens in front of
it are the beginning of a query, and together with it and the next one they are not.
-/

namespace EntityQuery

open Grammar Tokens

/-! ### Texts with given tokens -/

/-- Some kind of token has a lexeme. -/
def TokenKind.Written (kind : TokenKind) : Prop :=
  ∃ word : String, IsLexeme word.toList kind

lemma written_of_mem_stock : ∀ kind ∈ stock, kind.Written := by
  simp only [stock, List.forall_mem_cons]
  refine ⟨⟨"a", _, _, rfl, rfl, ?_⟩, ⟨"asc", _, _, rfl, rfl, ?_⟩, ⟨"=", _, _, rfl, rfl, rfl⟩,
    ⟨"]", _, _, rfl, rfl, rfl⟩, ⟨")", _, _, rfl, rfl, rfl⟩, ⟨"like", _, _, rfl, rfl, ?_⟩,
    ⟨"null", _, _, rfl, rfl, ?_⟩, by simp⟩
  all_goals decide +kernel

lemma exists_spaced (words : List (List Char)) : ∃ cs, Spaced words cs := by
  induction words with
  | nil => exact ⟨[], .nothing⟩
  | cons word words ih =>
    obtain ⟨cs, hcs⟩ := ih
    cases words with
    | nil => exact ⟨word, .last word⟩
    | cons next words => exact ⟨_, .more word (g := [' ']) (by decide) (by decide) hcs⟩

lemma exists_words {kinds : Tokens} (h : ∀ k ∈ kinds, k.Written) :
    ∃ words : List String, List.Forall₂ (fun word kind => IsLexeme word.toList kind) words kinds := by
  induction kinds with
  | nil => exact ⟨[], .nil⟩
  | cons k kinds ih =>
    obtain ⟨⟨word, hword⟩, hkinds⟩ := List.forall_mem_cons.mp h
    obtain ⟨words, hwords⟩ := ih hkinds
    exact ⟨word :: words, .cons hword hwords⟩

/-- There is a text of any tokens that have lexemes. -/
lemma exists_text {kinds : Tokens} (h : ∀ k ∈ kinds, k.Written) :
    ∃ text tokens, tokenize text = .ok tokens ∧ tokens.map Token.kind = kinds ++ [.endOfInput] := by
  obtain ⟨words, hwords⟩ := exists_words h
  obtain ⟨cs, hcs⟩ := exists_spaced (words.map String.toList)
  have hlaidOut : LaidOut words (String.ofList cs) :=
    ⟨[], cs, [], by simp, by decide, by decide, hcs⟩
  exact ⟨_, hlaidOut.exists_tokens hwords⟩

lemma written_of_tokenize {text : String} {tokens : List Token} (h : tokenize text = .ok tokens) :
    ∀ t ∈ tokens.dropLast, t.kind.Written := by
  intro t ht
  have hlexeme := isLexeme_of_tokensFrom [] rfl h t ht
  exact ⟨_, hlexeme⟩

/-! ### The offending token -/

lemma Grammar.Whole.end_notMem {ts : Tokens} (h : Whole ts) : .endOfInput ∉ ts := by
  obtain ⟨q, hq⟩ := h
  generalize hall : ts ++ [TokenKind.endOfInput] = all at hq
  obtain ⟨selection, sorting⟩ := hq
  obtain rfl := List.append_cancel_right hall
  simp [selection.end_notMem, sorting.end_notMem]

lemma spanOfRest_append (before after : List Token) (t : Token) :
    spanOfRest (before ++ t :: after) (t :: after).length = t.span := by
  have hdrop : (before ++ t :: after).length - (t :: after).length = before.length := by
    rw [List.length_append, Nat.add_sub_cancel]
  rw [spanOfRest, hdrop, List.drop_left]
  rfl

namespace RawQuery

/-- Some query begins with tokens that can be completed. -/
lemma exists_query_of_completable {front : Tokens} (written : ∀ k ∈ front, k.Written)
    (h : Completable Whole front) : ∃ text tokens q, tokenize text = .ok tokens ∧
      parse text = .ok q ∧ front <+: tokens.map Token.kind := by
  obtain ⟨more, hmore, d, hd⟩ := h
  have hwritten : ∀ k ∈ front ++ more, k.Written := by
    intro k hk
    rcases List.mem_append.mp hk with hk | hk
    · exact written k hk
    · exact written_of_mem_stock k (hmore hk)
  obtain ⟨text, tokens, htokens, hkinds⟩ := exists_text hwritten
  refine ⟨text, tokens, d.flattened, htokens, ?_, ?_⟩
  · rw [parse_of_tokenize htokens, hkinds]
    exact hd.read
  · rw [hkinds, List.append_assoc]
    exact List.prefix_append _ _

/-- Tokens that a query begins with go on like others if they have their next token and, unless the
text ends there, the one after it. -/
lemma alike_of_prefix {front rest : Tokens} {t : TokenKind} {text : String} {tokens : List Token}
    (hfront : .endOfInput ∉ front) (hend : rest = [] → t = .endOfInput)
    (h : tokenize text = .ok tokens)
    (hbegins : front ++ t :: rest.take 1 <+: tokens.map Token.kind) :
    ∃ rest', tokens.map Token.kind = front ++ rest' ∧ Alike (t :: rest) rest' := by
  obtain ⟨more, hmore⟩ := hbegins
  rw [List.append_assoc] at hmore
  refine ⟨_, hmore.symm, ?_⟩
  cases rest with
  | nil =>
    obtain rfl := hend rfl
    obtain ⟨front', hkinds, hfront'⟩ := exists_front_of_tokensFrom h
    have hlast := eq_of_peek_eq_end hfront' hfront (hkinds.symm.trans hmore.symm) rfl
    exact congrArg (List.take 2) hlast.symm
  | cons u rest => rfl

/-- **The place of a fault.** A text whose tokens are no query is refused at one of them. The tokens
in front of it are the beginning of a query, and no query begins with these, the offending one and
the next. -/
theorem exists_token_of_parse_error {text : String} {tokens : List Token} {e : ParseError}
    (h : tokenize text = .ok tokens) (he : parse text = .error e) :
    ∃ before t after, tokens = before ++ t :: after ∧ e.span = t.span ∧
      (∃ text' tokens' q, tokenize text' = .ok tokens' ∧ parse text' = .ok q ∧
        before.map Token.kind <+: tokens'.map Token.kind) ∧
      ∀ text' tokens' q, tokenize text' = .ok tokens' → parse text' = .ok q →
        ¬ (before ++ t :: after.take 1).map Token.kind <+: tokens'.map Token.kind := by
  obtain ⟨refusal, hquery, rfl⟩ : ∃ refusal, query (tokens.map Token.kind) = .error refusal ∧
      e = ⟨refusal.fault, spanOfRest tokens refusal.rest.length⟩ := by
    rw [parse, h] at he
    cases hquery : query (tokens.map Token.kind) with
    | ok q => simp [hquery] at he
    | error refusal => exact ⟨refusal, rfl, by simpa [hquery] using he.symm⟩
  obtain ⟨front, hfront, hcompletable⟩ := exists_front_of_refused hquery
  obtain ⟨front', hfront', hrefused⟩ := query_refused hquery
  obtain rfl : front' = front := List.append_cancel_right (hfront'.symm.trans hfront)
  obtain ⟨init, hinit, hend⟩ := exists_front_of_tokensFrom h
  have hnoEnd : .endOfInput ∉ front' := by
    obtain ⟨more, -, hwhole⟩ := hcompletable
    exact fun hmem => hwhole.end_notMem (List.mem_append_left more hmem)
  obtain ⟨before, others, rfl, rfl, hothers⟩ := List.map_eq_append_iff.mp hfront
  cases others with
  | nil =>
    rw [List.append_nil] at hinit
    rw [hinit] at hnoEnd
    simp at hnoEnd
  | cons t after =>
    refine ⟨before, t, after, rfl, ?_, ?_, ?_⟩
    · rw [← hothers, List.length_map]
      exact spanOfRest_append before after t
    · refine exists_query_of_completable (fun k hk => ?_) hcompletable
      obtain ⟨t', ht', rfl⟩ := List.mem_map.mp hk
      refine written_of_tokenize h t' ?_
      rw [List.dropLast_append_of_ne_nil (List.cons_ne_nil _ _)]
      exact List.mem_append_left _ ht'
    · intro text' tokens' q htokens' hparse hbegins
      rw [List.map_append, List.map_cons, List.map_take] at hbegins
      have hlast : after.map Token.kind = [] → t.kind = .endOfInput := by
        intro hnil
        rw [List.map_append, List.map_cons, hnil] at hinit
        exact (List.cons.inj (List.append_inj' hinit rfl).2).1
      obtain ⟨rest', hkinds', same⟩ := alike_of_prefix hnoEnd hlast htokens' hbegins
      rw [parse_of_tokenize htokens', hkinds', hrefused rest' (hothers ▸ same)] at hparse
      cases hparse

/-- The tokens of a text without a value behind its operator. -/
def unfinishedTokens : List Token :=
  [⟨.name "a", ⟨0, 1, 1, 1⟩⟩, ⟨.sign .lt, ⟨2, 3, 1, 3⟩⟩, ⟨.endOfInput, ⟨3, 3, 1, 4⟩⟩]

lemma tokenize_unfinished : tokenize "a <" = .ok unfinishedTokens := by
  have hsign : tokensFrom ⟨1, 1, 2⟩ " <".toList = .ok (unfinishedTokens.drop 1) :=
    tokensFrom_of_read rfl rfl rfl (tokensFrom_nil _)
  exact tokensFrom_of_read (k := .name "a") (n := 0) rfl (by decide +kernel) rfl hsign

lemma parse_unfinished : parse "a <" =
    .error ⟨.unexpectedToken .value .endOfInput, ⟨3, 3, 1, 4⟩⟩ := by
  have hquery : query [.name "a", .sign .lt, .endOfInput] =
      .error ⟨.unexpectedToken .value .endOfInput, [.endOfInput]⟩ := by
    simp [query, predicate, junction, item, condition, path, operator, operand, literal, peek,
      startsOrders, startsWith, refuse, Except.map, Operator.isUnary]
  rw [parse, tokenize_unfinished]
  simp only [unfinishedTokens, List.map, hquery]
  rfl

/-- The value is missing at the end of the text, so the fault is there: some query begins with the
path and the operator, and none ends behind them. -/
theorem exists_token_of_parse_error_unfinished :
    (∃ text tokens q, tokenize text = .ok tokens ∧ parse text = .ok q ∧
      [.name "a", .sign .lt] <+: tokens.map Token.kind) ∧
    ∀ text tokens q, tokenize text = .ok tokens → parse text = .ok q →
      ¬ [.name "a", .sign .lt, .endOfInput] <+: tokens.map Token.kind := by
  obtain ⟨before, t, after, htokens, hspan, hbegins, hnone⟩ :=
    exists_token_of_parse_error tokenize_unfinished parse_unfinished
  -- the stretch of the fault is that of the last token only
  obtain ⟨rfl, rfl, rfl⟩ : before = unfinishedTokens.take 2 ∧
      t = ⟨.endOfInput, ⟨3, 3, 1, 4⟩⟩ ∧ after = [] := by
    obtain ⟨kind, span⟩ := t
    obtain rfl : _ = span := hspan
    rcases before with _ | ⟨t₁, _ | ⟨t₂, _ | ⟨t₃, before⟩⟩⟩ <;>
      simp_all [unfinishedTokens]
  exact ⟨hbegins, hnone⟩

end RawQuery

end EntityQuery
