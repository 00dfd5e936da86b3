import EntityQuery.Proofs.Grammar.Sound

/-!
# The queries that texts are

A text is a query exactly if its tokens are one by the grammar. What is read is the one flat form of
the derivation's tree, with the conditions in the order of the text.
-/

namespace EntityQuery

/-! ### The tokens of a text end with its end -/

namespace Lexeme

lemma read_ne_end {c : Char} {cs : List Char} {n : Nat} : read c cs ≠ .ok (.endOfInput, n) := by
  intro h
  unfold read at h
  split at h
  case h_14 =>
    split at h
    · split at h <;> cases h
    · split at h
      · rcases kind_of_number h with ⟨_, hkind⟩ | ⟨_, hkind⟩ <;> cases hkind
      · split at h
        · have hword := congrArg Prod.fst (Except.ok.inj h)
          simp only [word] at hword
          split at hword <;> cases hword
        · cases h
  all_goals cases h

end Lexeme

lemma exists_front_of_tokensFrom {p : Position} {cs : List Char} {tokens : List Token}
    (h : tokensFrom p cs = .ok tokens) :
    ∃ front, tokens.map Token.kind = front ++ [.endOfInput] ∧ .endOfInput ∉ front := by
  fun_induction tokensFrom p cs generalizing tokens with
  | case1 =>
    obtain rfl := Except.ok.inj h
    exact ⟨[], rfl, by simp⟩
  | case2 => cases h
  | case3 => cases h
  | case4 p cs p' c rest _ kind n hread more hmore =>
    rename_i ih
    obtain rfl := Except.ok.inj h
    obtain ⟨front, hfront, hend⟩ := ih hmore
    have hkind : kind ≠ .endOfInput := by
      rintro rfl
      exact Lexeme.read_ne_end hread
    exact ⟨kind :: front, by rw [List.map_cons, hfront, List.cons_append],
      by simpa using ⟨hkind.symm, hend⟩⟩

namespace RawQuery

/-- The conditions of a query from left to right. -/
def conditions (q : RawQuery) : List RawCondition :=
  (q.predicate.map Predicate.conditions).getD []

/-- A query whose predicate is a flat form of another one's, with the same sort clauses. -/
structure FlatForm (d q : RawQuery) : Prop where
  predicate : Option.Rel Predicate.FlatForm d.predicate q.predicate
  orders : q.orders = d.orders

lemma flatForm_iff {d q : RawQuery} (filled : ∀ p ∈ d.predicate, p.Filled) :
    FlatForm d q ↔ q = d.flattened := by
  obtain ⟨p?, os⟩ := d
  obtain ⟨q?, os'⟩ := q
  have hpredicate : Option.Rel Predicate.FlatForm p? q? ↔ q? = p?.map Predicate.flattened := by
    cases p? with
    | none => cases q? <;> simp
    | some p => cases q? <;> simp [Predicate.flatForm_iff (filled p rfl)]
  constructor
  · rintro ⟨hp, ho⟩
    obtain rfl := hpredicate.mp hp
    obtain rfl : os' = os := ho
    rfl
  · intro h
    obtain ⟨hp, ho⟩ := Query.mk.inj h
    exact ⟨hpredicate.mpr hp, ho⟩

lemma conditions_flattened (d : RawQuery) : d.flattened.conditions = d.conditions := by
  obtain ⟨_ | p, os⟩ := d
  · rfl
  · exact Predicate.conditions_flattened p

end RawQuery

namespace Grammar

/-! ### Conditions in the order of the text -/

/-- The phrases of some conditions stand one behind the other. -/
inductive InOrder : Tokens → List RawCondition → Prop where
  | nothing (ts : Tokens) : InOrder ts []
  | next (gap : Tokens) {ts rest : Tokens} {c : RawCondition} {cs : List RawCondition}
      (first : Condition ts c) (others : InOrder rest cs) : InOrder (gap ++ ts ++ rest) (c :: cs)

variable {ts ts' : Tokens} {cs cs' : List RawCondition}

lemma InOrder.after (gap : Tokens) (h : InOrder ts cs) : InOrder (gap ++ ts) cs := by
  cases h with
  | nothing => exact .nothing _
  | next gap' first others =>
    rw [← List.append_assoc, ← List.append_assoc]
    exact .next (gap ++ gap') first others

lemma InOrder.append (h : InOrder ts cs) (h' : InOrder ts' cs') :
    InOrder (ts ++ ts') (cs ++ cs') := by
  induction h with
  | nothing ts => exact h'.after ts
  | next gap first _ ih =>
    rw [List.append_assoc]
    exact .next gap first ih

lemma InOrder.before (h : InOrder ts cs) (more : Tokens) : InOrder (ts ++ more) cs := by
  have happend := h.append (.nothing more)
  rwa [List.append_nil] at happend

mutual

lemma Item.inOrder {j : Junction} {ts : Tokens} {p : Predicate RawCondition} :
    Item j ts p → InOrder ts p.conditions
  | .condition h => by
    have hnext := InOrder.next [] h (.nothing [])
    rw [List.nil_append, List.append_nil] at hnext
    rwa [Predicate.conditions_cond]
  | .enclosed h => by
    rw [Predicate.conditions_or]
    exact (h.inOrder.before [.sign .rightParen]).after [.sign .leftParen]
  | .conjunction h => by
    rw [Predicate.conditions_and]
    exact h.inOrder

lemma Items.inOrder {j : Junction} {ts : Tokens} {ps : List (Predicate RawCondition)} :
    Items j ts ps → InOrder ts (ps.flatMap Predicate.conditions)
  | .last h => by
    rw [List.flatMap_singleton]
    exact h.inOrder
  | .more h rest => by
    rw [List.flatMap_cons]
    exact h.inOrder.append (rest.inOrder.after [.keyword j.keyword])

end

lemma Sentence.inOrder {d : RawQuery} (h : Sentence ts d) : InOrder ts d.conditions := by
  obtain ⟨selection, -⟩ := h
  rw [List.append_assoc]
  cases selection with
  | nothing => exact .nothing _
  | items h =>
    have hinOrder := h.inOrder
    rw [← Predicate.conditions_or] at hinOrder
    exact hinOrder.before _

lemma InOrder.exists_phrase (h : InOrder ts cs) : ∀ c ∈ cs, ∃ phrase, Condition phrase c := by
  induction h with
  | nothing => simp
  | next gap first _ ih => exact List.forall_mem_cons.mpr ⟨⟨_, first⟩, ih⟩

lemma Sentence.filled {d : RawQuery} (h : Sentence ts d) : ∀ p ∈ d.predicate, p.Filled := by
  obtain ⟨selection, -⟩ := h
  exact selection.filled

end Grammar

open Grammar Tokens

namespace RawQuery

lemma parse_of_tokenize {text : String} {tokens : List Token} (h : tokenize text = .ok tokens)
    {q : RawQuery} : parse text = .ok q ↔ Tokens.query (tokens.map Token.kind) = .ok q := by
  rw [parse, h]
  cases hquery : Tokens.query (tokens.map Token.kind) <;> simp [hquery]

/-- What is read is flat, and every condition that is read has a phrase of the grammar. -/
lemma flat_and_phrases_of_parse {text : String} {q : RawQuery} (h : parse text = .ok q) :
    (∀ p ∈ q.predicate, p.Flat fun _ => True) ∧
      ∀ c ∈ q.conditions, ∃ phrase, Grammar.Condition phrase c := by
  cases htokens : tokenize text with
  | error e => simp [parse, htokens] at h
  | ok tokens =>
    obtain ⟨front, hfront, hend⟩ := exists_front_of_tokensFrom htokens
    rw [parse_of_tokenize htokens, hfront] at h
    obtain ⟨d, hd, rfl⟩ := sentence_of_query hend h
    refine ⟨fun p hp => ?_, ?_⟩
    · obtain ⟨p', hp', rfl⟩ := Option.map_eq_some_iff.mp hp
      exact (hd.filled p' hp').flat_flattened
    · rw [conditions_flattened]
      exact hd.inOrder.exists_phrase

/-- **The grammar.** A text that has tokens is a query exactly if they are one by the grammar. The
query that is read is then the only flat form of the derivation's tree, with its sort clauses, and
its conditions are those of the text in their order. -/
theorem parse_iff_sentence {text : String} {tokens : List Token} (h : tokenize text = .ok tokens) :
    ((∃ q, parse text = .ok q) ↔ ∃ d, Sentence (tokens.map Token.kind) d) ∧
      ∀ d, Sentence (tokens.map Token.kind) d → ∃ q, parse text = .ok q ∧
        (∀ q', FlatForm d q' ↔ q' = q) ∧ q.conditions = d.conditions ∧
        InOrder (tokens.map Token.kind) q.conditions := by
  obtain ⟨front, hfront, hend⟩ := exists_front_of_tokensFrom h
  refine ⟨⟨?_, ?_⟩, ?_⟩
  · rintro ⟨q, hq⟩
    rw [parse_of_tokenize h, hfront] at hq
    obtain ⟨d, hd, -⟩ := sentence_of_query hend hq
    exact ⟨d, hfront ▸ hd⟩
  · rintro ⟨d, hd⟩
    exact ⟨d.flattened, (parse_of_tokenize h).mpr hd.read⟩
  · intro d hd
    refine ⟨d.flattened, (parse_of_tokenize h).mpr hd.read, fun q' => flatForm_iff hd.filled,
      conditions_flattened d, ?_⟩
    rw [conditions_flattened]
    exact hd.inOrder

/-- A conjunction inside another, single items, a list of one and words of sort clauses as names. -/
def nestedText : String :=
  "(a = 1 and (b is EMPTY)) and asc in x order by order DESC"

lemma spells_nested : Spells nestedText
    [.sign .leftParen, .name "a", .sign .eq, .int 1, .keyword .and, .sign .leftParen, .name "b",
      .keyword .is, .name "EMPTY", .sign .rightParen, .sign .rightParen, .keyword .and, .name "asc",
      .keyword .isIn, .name "x", .name "order", .name "by", .name "order", .name "DESC"] := by
  have hname : ∀ n, IsName n → Spells n [.name n] :=
    fun _ h _ _ stop hrest => .name h stop.endsName hrest
  have hand : Spells "and" [.keyword .and] := .word rfl rfl rfl rfl
  have his : Spells "is" [.keyword .is] := .word rfl rfl rfl rfl
  have hone : Spells (Text.integerText (1 : Int64).toInt) [.int 1] :=
    fun _ _ stop hrest => .integer 1 stop.endsNumber hrest
  have ha := ((hname "a" (by decide)).joined (spells_operator .eq)).joined hone
  have hb := ((hname "b" (by decide)).joined his).joined (hname "EMPTY" (by decide))
  have hasc := ((hname "asc" (by decide)).joined (spells_operator .isIn)).joined
    (hname "x" (by decide))
  have horder := ((hname "order" (by decide)).joined (hname "by" (by decide))).joined
    ((hname "order" (by decide)).joined (hname "DESC" (by decide)))
  have hpredicate := ((ha.joined hand).joined hb.enclosed).enclosed.joined hand
  convert (hpredicate.joined hasc).joined horder using 1
  · decide +kernel
  · rfl

/-- The tree that the grammar gives to the text. -/
def nestedTree : RawQuery where
  predicate := some (.or [.and [
    .or [.and [.cond ⟨"a", .eq, some (.integer 1)⟩, .or [.and [.cond ⟨"b", .isEmpty, none⟩]]]],
    .cond ⟨"asc", .isIn, some (.list [.word "x"])⟩]])
  orders := [⟨"order", .descending⟩]

/-- The text has this tree and is read as its flat form. -/
theorem parse_iff_sentence_nested : ∃ tokens, tokenize nestedText = .ok tokens ∧
    Sentence (tokens.map Token.kind) nestedTree ∧
    parse nestedText = .ok
      ⟨some (.and [.cond ⟨"a", .eq, some (.integer 1)⟩, .cond ⟨"b", .isEmpty, none⟩,
        .cond ⟨"asc", .isIn, some (.list [.word "x"])⟩]), [⟨"order", .descending⟩]⟩ := by
  obtain ⟨tokens, htokens, hkinds⟩ := spells_nested [] [.endOfInput] (by simp [Boundary]) .nil .start
  rw [List.append_nil, ← tokenize] at htokens
  have hname : ∀ n, Grammar.Path [.name n] n := by
    intro n
    have hlast := Grammar.Path.last n false
    rwa [stepText_false] at hlast
  have ha : Grammar.Condition [.name "a", .sign .eq, .int 1] ⟨"a", .eq, some (.integer 1)⟩ :=
    .mk (hname "a") (.operator .eq) (.single rfl rfl (.integer 1))
  have hb : Grammar.Condition [.name "b", .keyword .is, .name "EMPTY"] ⟨"b", .isEmpty, none⟩ :=
    .mk (hname "b") (.isEmpty (by decide)) (.nothing rfl)
  have hasc : Grammar.Condition [.name "asc", .keyword .isIn, .name "x"]
      ⟨"asc", .isIn, some (.list [.word "x"])⟩ :=
    .mk (hname "asc") (.operator .isIn) (.alone rfl (.word "x"))
  have hinner : Item .and _ (.or [.and [.cond ⟨"b", .isEmpty, none⟩]]) :=
    .enclosed (.last (.conjunction (.last (.condition hb))))
  have houter : Item .and _ (.or [.and [.cond ⟨"a", .eq, some (.integer 1)⟩,
      .or [.and [.cond ⟨"b", .isEmpty, none⟩]]]]) :=
    .enclosed (.last (.conjunction (.more (.condition ha) (.last hinner))))
  have hsorting : Sorting [.name "order", .name "by", .name "order", .name "DESC"]
      [⟨"order", .descending⟩] :=
    .clauses (by decide) (by decide) (.last (.descending (hname "order") (by decide)))
  have hsentence : Sentence (tokens.map Token.kind) nestedTree := by
    rw [hkinds]
    exact .mk (.items (.last (.conjunction (.more houter (.last (.condition hasc)))))) hsorting
  obtain ⟨q, hq, hflat, -⟩ := (parse_iff_sentence htokens).2 nestedTree hsentence
  have hform : FlatForm nestedTree nestedTree.flattened := (flatForm_iff hsentence.filled).mpr rfl
  obtain rfl := (hflat _).mp hform
  exact ⟨tokens, htokens, hsentence, hq⟩

end RawQuery

end EntityQuery
