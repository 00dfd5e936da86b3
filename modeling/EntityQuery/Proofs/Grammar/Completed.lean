import EntityQuery.Proofs.Grammar.LookAhead

/-!
# Refused phrases can be completed

Where a reader refuses a token, nothing is wrong with the tokens in front of it: with a few others
in the place of the rest they are a phrase of its part of the grammar.
-/

namespace EntityQuery.Grammar

open Tokens

variable {α β : Type} {ts front rest : Tokens} {P Q : Tokens → Prop}

/-! ### Completions -/

/-- Tokens that complete whatever is begun: one for each thing that may be missing. -/
def stock : Tokens :=
  [.name "a", .name "asc", .sign .eq, .sign .rightBracket, .sign .rightParen, .keyword .like,
    .keyword .null]

/-- Some tokens are the beginning of a phrase, which tokens of the stock complete. -/
def Completable (P : Tokens → Prop) (front : Tokens) : Prop :=
  ∃ more, more ⊆ stock ∧ P (front ++ more)

namespace Completable

lemma of_append (more : Tokens) (hmore : more ⊆ stock) (h : P (front ++ more)) :
    Completable P front :=
  ⟨more, hmore, h⟩

lemma of_phrase (h : P front) : Completable P front :=
  .of_append [] (by simp) (by rwa [List.append_nil])

/-- The phrase is part of another one, of which the rest can be completed. -/
lemma within (before : Tokens) (h : Completable P front)
    (hQ : ∀ ts, P ts → Completable Q (before ++ ts)) : Completable Q (before ++ front) := by
  obtain ⟨more, hmore, hphrase⟩ := h
  obtain ⟨more', hmore', hwhole⟩ := hQ _ hphrase
  refine .of_append (more ++ more') (List.append_subset.mpr ⟨hmore, hmore'⟩) ?_
  simpa using hwhole

end Completable

/-- What stands in front of the place where a reader refuses these tokens can be completed. -/
def Completes (reader : Tokens → Reading α) (P : Tokens → Prop) (ts : Tokens) : Prop :=
  ∀ refusal, reader ts = .error refusal → ∃ front, ts = front ++ refusal.rest ∧ Completable P front

namespace Completes

variable {reader reader' : Tokens → Reading α}

lemma of_fault {fault : ParseFault} (h : reader ts = .error ⟨fault, ts⟩) (hP : Completable P []) :
    Completes reader P ts := by
  intro refusal hrefusal
  rw [h] at hrefusal
  obtain rfl := Except.error.inj hrefusal
  exact ⟨[], rfl, hP⟩

lemma of_ok {r : α × Tokens} (h : reader ts = .ok r) : Completes reader P ts := by
  intro refusal hrefusal
  rw [h] at hrefusal
  cases hrefusal

/-- The phrase of a reader is part of that of another one, which does the same behind some tokens.
-/
lemma behind (before : Tokens) (h : Completes reader P ts)
    (same : reader' (before ++ ts) = reader ts)
    (hQ : ∀ ts, P ts → Completable Q (before ++ ts)) : Completes reader' Q (before ++ ts) := by
  intro refusal hrefusal
  rw [same] at hrefusal
  obtain ⟨front, rfl, hfront⟩ := h refusal hrefusal
  exact ⟨before ++ front, (List.append_assoc _ _ _).symm, hfront.within before hQ⟩

lemma map (f : α × Tokens → β × Tokens) (h : Completes reader P ts) :
    Completes (fun ts => (reader ts).map f) P ts :=
  fun refusal hrefusal => h refusal (eq_error_of_map hrefusal)

/-- A reader after another one, for the phrases of both, one behind the other. -/
lemma andThen {k : α → Tokens → Reading β} (h : Completes reader P ts)
    (hQ : ∀ ts, P ts → Completable Q ts)
    (hnext : ∀ a rest, reader ts = .ok (a, rest) →
      ∃ front, ts = front ++ rest ∧ Completes (k a) (fun more => Q (front ++ more)) rest) :
    Completes (fun ts => (reader ts).bind fun r => k r.1 r.2) Q ts := by
  intro refusal hrefusal
  cases hreader : reader ts with
  | error e =>
    simp only [hreader, Except.bind, Except.error.injEq] at hrefusal
    obtain ⟨front, rfl, hfront⟩ := h refusal (hrefusal ▸ hreader)
    exact ⟨front, rfl, hfront.within [] hQ⟩
  | ok r =>
    obtain ⟨a, rest⟩ := r
    simp only [hreader, Except.bind] at hrefusal
    obtain ⟨front, rfl, hcompletes⟩ := hnext a rest hreader
    obtain ⟨front', rfl, more, hmore, hphrase⟩ := hcompletes refusal hrefusal
    exact ⟨front ++ front', (List.append_assoc _ _ _).symm, more, hmore, by simpa using hphrase⟩

end Completes

/-! ### Conditions -/

/-- Some tokens are a phrase that stands for something. -/
def Phrase (R : Tokens → α → Prop) (ts : Tokens) : Prop :=
  ∃ a, R ts a

lemma Begins.phrase {R : Tokens → α → Prop} {a : α} (h : Begins (R · a) ts rest) :
    Begins (Phrase R) ts rest :=
  h.imp fun _ h => ⟨h.1, a, h.2⟩

lemma rest_of_sign {s : Sign} {refusal : Refusal} (h : sign s ts = .error refusal) :
    refusal.rest = ts := by
  unfold sign at h
  split at h
  · split at h
    · cases h
    · exact congrArg Refusal.rest (Except.error.inj h).symm
  · exact congrArg Refusal.rest (Except.error.inj h).symm

lemma completes_sign (s : Sign) (hs : .sign s ∈ stock) (a : α) (hP : P [.sign s]) (ts : Tokens) :
    Completes (fun ts => (sign s ts).map fun rest => (a, rest)) P ts := by
  intro refusal h
  obtain rfl := rest_of_sign (eq_error_of_map h)
  exact ⟨[], rfl, .of_append [.sign s] (by simpa using hs) hP⟩

lemma completes_path (ts : Tokens) : Completes path (Phrase Path) ts := by
  intro refusal h
  fun_induction path ts with
  | case1 n more ih =>
    obtain ⟨front, rfl, hfront⟩ := ih (eq_error_of_map h)
    refine ⟨_, (List.append_assoc (ofStep n true ++ [.sign .dot]) _ _).symm, hfront.within _ ?_⟩
    rintro ts ⟨p, hp⟩
    rw [List.append_assoc]
    exact .of_phrase ⟨_, .step n true hp⟩
  | case3 n more _ hclose =>
    obtain rfl := Except.error.inj h
    exact ⟨[.name n, .sign .leftBracket], rfl,
      .of_append [.sign .rightBracket] (by decide) ⟨_, .last n true⟩⟩
  | case4 n more ih =>
    obtain ⟨front, rfl, hfront⟩ := ih (eq_error_of_map h)
    refine ⟨_, (List.append_assoc (ofStep n false ++ [.sign .dot]) _ _).symm, hfront.within _ ?_⟩
    rintro ts ⟨p, hp⟩
    rw [List.append_assoc]
    exact .of_phrase ⟨_, .step n false hp⟩
  | case6 =>
    obtain rfl := Except.error.inj h
    exact ⟨[], rfl, .of_append [.name "a"] (by decide) ⟨_, .last "a" false⟩⟩
  | case2 | case5 => cases h

lemma rest_of_absence {null empty : Operator} {refusal : Refusal}
    (h : operator.absence null empty ts = .error refusal) : refusal.rest = ts := by
  unfold operator.absence at h
  split at h
  · cases h
  · split at h
    · cases h
    · exact congrArg Refusal.rest (Except.error.inj h).symm
  · exact congrArg Refusal.rest (Except.error.inj h).symm

lemma completes_operator (ts : Tokens) : Completes operator (Phrase Spelling) ts := by
  intro refusal h
  unfold operator at h
  split at h
  case h_15 =>
    obtain rfl := Except.error.inj h
    exact ⟨[.keyword .not], rfl, .of_append [.keyword .like] (by decide) ⟨_, .operator .notLike⟩⟩
  case h_16 =>
    obtain rfl := rest_of_absence h
    exact ⟨[.keyword .is, .keyword .not], rfl,
      .of_append [.keyword .null] (by decide) ⟨_, .operator .isNotNull⟩⟩
  case h_17 =>
    obtain rfl := rest_of_absence h
    exact ⟨[.keyword .is], rfl, .of_append [.keyword .null] (by decide) ⟨_, .operator .isNull⟩⟩
  case h_18 =>
    obtain rfl := Except.error.inj h
    exact ⟨[], rfl, .of_append [.sign .eq] (by decide) ⟨_, .operator .eq⟩⟩
  all_goals cases h

lemma completes_literal (ts : Tokens) : Completes literal (Phrase Literal) ts := by
  have hnothing : Completable (Phrase Literal) [] :=
    .of_append [.name "a"] (by decide) ⟨_, .word "a"⟩
  intro refusal h
  unfold literal at h
  split at h
  case h_5 n more =>
    split at h
    · obtain rfl := Except.error.inj h
      exact ⟨[], rfl, hnothing⟩
    · rename_i f hf
      split at h
      · cases h
      · obtain rfl := Except.error.inj h
        exact ⟨[.name n, .sign .leftParen], rfl,
          .of_append [.sign .rightParen] (by decide) ⟨_, .call f (ofName?_eq_some.mp hf)⟩⟩
  case h_7 =>
    obtain rfl := Except.error.inj h
    exact ⟨[], rfl, hnothing⟩
  all_goals cases h

/-- Lists with commas between their items can be completed if their items can. -/
lemma completes_separated {item : Tokens → Reading α} {items : Tokens → Reading (List α)}
    (unfolded : ∀ ts, items ts = (item ts).bind fun r => afterItem items r.1 r.2)
    (shorter : ∀ ts a rest, item ts = .ok (a, rest) → rest.length < ts.length)
    (hitem : ∀ ts, Completes item P ts)
    (hbegins : ∀ ts a rest, item ts = .ok (a, rest) → Begins P ts rest)
    (last : ∀ ts, P ts → Q ts) (more : ∀ ts ts', P ts → Q ts' → Q (ts ++ .sign .comma :: ts'))
    (ts : Tokens) : Completes items Q ts := by
  induction hn : ts.length using Nat.strongRecOn generalizing ts with
  | ind n ih =>
    rw [funext unfolded]
    refine (hitem ts).andThen (fun ts hts => .of_phrase (last ts hts)) fun a rest h => ?_
    have hlt := shorter ts a rest h
    obtain ⟨front, rfl, hfront⟩ := hbegins ts a rest h
    refine ⟨front, rfl, ?_⟩
    by_cases hcomma : ∃ rest', rest = .sign .comma :: rest'
    · obtain ⟨rest', rfl⟩ := hcomma
      rw [List.length_cons] at hlt
      refine ((ih rest'.length (by omega) rest' rfl).map fun r => (a :: r.1, r.2)).behind
        [.sign .comma] rfl fun ts hts => .of_phrase (more front ts hfront hts)
    · have hafter : afterItem items a rest = .ok ([a], rest) := by
        rw [afterItem]
        exact not_exists.mp hcomma
      exact .of_ok hafter

lemma completes_literals (ts : Tokens) : Completes literals (Phrase Literals) ts := by
  refine completes_separated literals_eq (fun _ _ _ => literal_length) completes_literal
    (fun _ _ _ h => (begins_literal h).phrase) ?_ ?_ ts
  · rintro ts ⟨o, ho⟩
    exact ⟨[o], .last ho⟩
  · rintro ts ts' ⟨o, ho⟩ ⟨os, hos⟩
    exact ⟨o :: os, .more ho hos⟩

/-- Every operator has an argument from the stock. -/
lemma completable_argument (op : Operator) : Completable (Phrase (Argument op)) [] := by
  cases hunary : op.isUnary with
  | true => exact .of_phrase ⟨none, .nothing hunary⟩
  | false =>
    cases hlist : op.takesList with
    | true => exact .of_append [.name "a"] (by decide) ⟨_, .alone hlist (.word "a")⟩
    | false => exact .of_append [.name "a"] (by decide) ⟨_, .single hunary hlist (.word "a")⟩

lemma completes_operand {op : Operator} (binary : op.isUnary = false) (ts : Tokens) :
    Completes (operand op) (Phrase (Argument op)) ts := by
  have hliteral : ∀ ts, Phrase Literal ts → Phrase (Argument op) ts := by
    rintro ts ⟨o, ho⟩
    cases hlist : op.takesList with
    | true => exact ⟨_, .alone hlist ho⟩
    | false => exact ⟨_, .single binary hlist ho⟩
  by_cases hparen : ∃ rest, ts = .sign .leftParen :: rest
  · obtain ⟨rest, rfl⟩ := hparen
    by_cases accepted : op.acceptsList = true
    · have hlist : Completes listEnd
          (fun ts => Phrase (Argument op) (.sign .leftParen :: ts)) rest := by
        refine (completes_literals rest).andThen (k := fun os ts =>
          (sign .rightParen ts).map fun rest => (Operand.list os, rest)) ?_ fun os rest' h => ?_
        · rintro ts ⟨os, hos⟩
          exact .of_append [.sign .rightParen] (by decide) ⟨_, .list accepted hos⟩
        · obtain ⟨front, rfl, hfront⟩ := begins_literals h
          exact ⟨front, rfl,
            completes_sign .rightParen (by decide) _ ⟨_, .list accepted hfront⟩ rest'⟩
      exact hlist.behind [.sign .leftParen] (operand_list accepted rest) fun _ => .of_phrase
    · exact .of_fault (if_neg accepted) (completable_argument op)
  · have hne := not_exists.mp hparen
    exact ((completes_literal ts).map _).behind [] (operand_literal op hne)
      fun ts hts => .of_phrase (hliteral ts hts)

lemma completes_condition (ts : Tokens) : Completes condition (Phrase Condition) ts := by
  rw [funext condition_eq]
  refine (completes_path ts).andThen (k := fun property ts => (operator ts).bind fun op =>
    conditionEnd property op.1 op.2) ?_ fun property rest hpath => ?_
  · rintro ts ⟨p, hp⟩
    refine .of_append [.sign .eq, .name "a"] (by decide) ?_
    have hcondition := Condition.mk hp (.operator .eq) (.single rfl rfl (.word "a"))
    exact ⟨_, by simpa [ofOperator] using hcondition⟩
  · obtain ⟨front, rfl, hp⟩ := begins_path hpath
    refine ⟨front, rfl, ?_⟩
    refine (completes_operator rest).andThen (k := conditionEnd property) ?_
      fun op rest' hoperator => ?_
    · rintro ts ⟨op, hop⟩
      obtain ⟨more, hmore, o?, ho⟩ := completable_argument op
      exact .of_append more hmore ⟨_, by simpa using Condition.mk hp hop ho⟩
    · obtain ⟨front', rfl, hop⟩ := begins_operator hoperator
      refine ⟨front', rfl, ?_⟩
      cases hunary : op.isUnary with
      | true => exact .of_ok (if_pos hunary)
      | false =>
        refine ((completes_operand hunary rest').map _).behind [] (if_neg (by simp [hunary])) ?_
        rintro ts ⟨o?, ho⟩
        exact .of_phrase ⟨_, by simpa using Condition.mk hp hop ho⟩

/-! ### Predicates -/

variable {j : Junction} {n : Nat}

/-- Nothing, or a connective and further items. -/
inductive Further (j : Junction) : Tokens → Prop where
  | nothing : Further j []
  | items {ts : Tokens} (h : Phrase (Items j) ts) : Further j (.keyword j.keyword :: ts)

lemma phrase_items {ts' : Tokens} (hitem : Phrase (Item j) ts) (h : Further j ts') :
    Phrase (Items j) (ts ++ ts') := by
  obtain ⟨p, hp⟩ := hitem
  cases h with
  | nothing =>
    rw [List.append_nil]
    exact ⟨[p], .last hp⟩
  | items h =>
    obtain ⟨ps, hps⟩ := h
    exact ⟨p :: ps, .more hp hps⟩

lemma itemsAreDerived (j : Junction) (n : Nat) : ItemsAreDerived j n := by
  have hand : ItemsAreDerived .and n := itemsAreDerived_and fun m _ => junctionsAreDerived_or m
  cases j with
  | and => exact hand
  | or =>
    intro ts q rest hle h
    obtain ⟨ps, rfl, front, rfl, hfront⟩ := junctionsAreDerived hand ts q rest hle h.junction
    exact ⟨.and ps, rfl, front, rfl, .conjunction hfront⟩

lemma begins_readItem {q : Predicate RawCondition} (h : readItem j ts = .ok (q, rest)) :
    Begins (Phrase (Item j)) ts rest := by
  obtain ⟨⟨q', rest', hlt⟩, hitem, hr⟩ := exists_of_map_eq_ok h
  obtain ⟨rfl, rfl⟩ := Prod.mk.inj hr
  obtain ⟨p, -, hp⟩ := itemsAreDerived j ts.length ts q' rest' (Nat.le_refl _) ⟨hlt, hitem⟩
  exact hp.phrase

lemma begins_readJunction {q : Predicate RawCondition} (h : readJunction j ts = .ok (q, rest)) :
    Begins (Phrase (Items j)) ts rest := by
  obtain ⟨⟨q', rest', hlt⟩, hjunction, hr⟩ := exists_of_map_eq_ok h
  obtain ⟨rfl, rfl⟩ := Prod.mk.inj hr
  obtain ⟨p, -, hp⟩ := junctionsAreDerived (itemsAreDerived j ts.length) ts q' rest'
    (Nat.le_refl _) ⟨hlt, hjunction⟩
  exact hp.phrase

/-- What stands in front of a refused token can be completed, as long as few tokens are left. -/
def CompletesUpTo (n : Nat) (reader : Tokens → Reading α) (P : Tokens → Prop) : Prop :=
  ∀ ts : Tokens, ts.length ≤ n → Completes reader P ts

lemma completes_items (f : Predicate RawCondition → List (Predicate RawCondition) → α)
    (hitem : Completes (readItem j) (Phrase (Item j)) ts)
    (hmore : ∀ p rest, readItem j ts = .ok (p, rest) → Completes (readMore j) (Further j) rest) :
    Completes (fun ts => (readItem j ts).bind fun p =>
      (readMore j p.2).map fun ps => (f p.1 ps.1, ps.2)) (Phrase (Items j)) ts := by
  refine hitem.andThen (k := fun p ts => (readMore j ts).map fun ps => (f p ps.1, ps.2)) ?_
    fun p rest h => ?_
  · exact fun ts hts => .of_append [] (by simp) (phrase_items hts .nothing)
  · obtain ⟨front, rfl, hfront⟩ := begins_readItem h
    refine ⟨front, rfl, ?_⟩
    exact ((hmore p rest h).map _).behind [] rfl fun ts hts => .of_phrase (phrase_items hfront hts)

lemma completes_readMore (hitem : CompletesUpTo n (readItem j) (Phrase (Item j))) :
    CompletesUpTo n (readMore j) (Further j) := by
  intro ts hle
  induction hm : ts.length using Nat.strongRecOn generalizing ts with
  | ind m ih =>
    by_cases hconnective : ∃ more, ts = .keyword j.keyword :: more
    · obtain ⟨more, rfl⟩ := hconnective
      rw [List.length_cons] at hle hm
      have hitems := completes_items (fun p ps => p :: ps) (hitem more (by omega))
        fun p rest h => by
          have hlt := readItem_length h
          exact ih rest.length (by omega) rest (by omega) rfl
      exact hitems.behind [.keyword j.keyword] (readMore_connected j more)
        fun ts hts => .of_phrase (.items hts)
    · exact .of_ok (readMore_other (not_exists.mp hconnective))

lemma completes_readJunction (hitem : CompletesUpTo n (readItem j) (Phrase (Item j))) :
    CompletesUpTo n (readJunction j) (Phrase (Items j)) := by
  intro ts hle
  rw [funext (readJunction_eq j)]
  refine completes_items (fun p ps => Predicate.join j (p :: ps)) (hitem ts hle) fun p rest h => ?_
  have hlt := readItem_length h
  exact completes_readMore hitem rest (by omega)

lemma completes_readItem_and
    (h : ∀ m < n, CompletesUpTo m (readJunction .or) (Phrase (Items .or))) :
    CompletesUpTo n (readItem .and) (Phrase (Item .and)) := by
  intro ts hle
  by_cases hparen : ∃ more, ts = .sign .leftParen :: more
  · obtain ⟨more, rfl⟩ := hparen
    rw [List.length_cons] at hle
    have henclosed : Completes (fun ts => (readJunction .or ts).bind fun p =>
        (sign .rightParen p.2).map fun rest => (p.1, rest))
        (fun ts => Phrase (Item .and) (.sign .leftParen :: ts)) more := by
      refine (h more.length (by omega) more (Nat.le_refl _)).andThen
        (k := fun p ts => (sign .rightParen ts).map fun rest => (p, rest)) ?_ fun p rest hp => ?_
      · rintro ts ⟨ps, hps⟩
        exact .of_append [.sign .rightParen] (by decide) ⟨_, .enclosed hps⟩
      · obtain ⟨front, rfl, ps, hps⟩ := begins_readJunction hp
        exact ⟨front, rfl, completes_sign .rightParen (by decide) p ⟨_, .enclosed hps⟩ rest⟩
    exact henclosed.behind [.sign .leftParen] (readItem_enclosed more) fun _ => .of_phrase
  · refine ((completes_condition ts).map _).behind []
      (readItem_condition (not_exists.mp hparen)) ?_
    rintro ts ⟨c, hc⟩
    exact .of_phrase ⟨_, .condition hc⟩

lemma completes_readJunction_or (n : Nat) :
    CompletesUpTo n (readJunction .or) (Phrase (Items .or)) := by
  induction n using Nat.strongRecOn with
  | ind n ih =>
    have hand := completes_readJunction (completes_readItem_and ih)
    refine completes_readJunction fun ts hle => (hand ts hle).behind [] (readItem_or ts) ?_
    rintro ts ⟨ps, hps⟩
    exact .of_phrase ⟨_, .conjunction hps⟩

lemma completes_predicate (ts : Tokens) : Completes predicate (Phrase Selection) ts := by
  by_cases hnone : ts.peek = .endOfInput ∨ ts.startsOrders
  · exact .of_ok (if_pos hnone)
  · refine ((completes_readJunction_or _ ts (Nat.le_refl _)).map _).behind []
      (predicate_of_startsPredicate hnone) ?_
    rintro ts ⟨ps, hps⟩
    exact .of_phrase ⟨_, .items hps⟩

/-! ### Sort clauses and queries -/

lemma completes_order (ts : Tokens) : Completes order (Phrase Clause) ts := by
  rw [funext order_eq]
  refine (completes_path ts).andThen ?_ fun property rest h => ?_
  · rintro ts ⟨p, hp⟩
    exact .of_append [.name "asc"] (by decide) ⟨_, .ascending hp (by decide)⟩
  · obtain ⟨front, rfl, hp⟩ := begins_path h
    refine ⟨front, rfl, ?_⟩
    by_cases hasc : rest.startsWith "asc" = true
    · exact .of_ok (if_pos hasc)
    · by_cases hdesc : rest.startsWith "desc" = true
      · exact .of_ok ((if_neg hasc).trans (if_pos hdesc))
      · exact .of_fault ((if_neg hasc).trans (if_neg hdesc))
          (.of_append [.name "asc"] (by decide) ⟨_, .ascending hp (by decide)⟩)

lemma completes_orders (ts : Tokens) : Completes orders (Phrase Clauses) ts := by
  refine completes_separated orders_eq (fun _ _ _ => order_length) completes_order
    (fun _ _ _ h => (begins_order h).phrase) ?_ ?_ ts
  · rintro ts ⟨o, ho⟩
    exact ⟨[o], .last ho⟩
  · rintro ts ts' ⟨o, ho⟩ ⟨os, hos⟩
    exact ⟨o :: os, .more ho hos⟩

lemma completes_sortClauses (ts : Tokens) : Completes sortClauses (Phrase Sorting) ts := by
  by_cases hstarts : ts.startsOrders = true
  · obtain ⟨a, b, more, rfl, horder, hby⟩ := exists_names_of_startsOrders hstarts
    refine (completes_orders more).behind [.name a, .name b] (if_pos hstarts) ?_
    rintro ts ⟨os, hos⟩
    exact .of_phrase ⟨os, .clauses horder hby hos⟩
  · exact .of_ok (if_neg hstarts)

/-- Some tokens are a query if the text ends behind them. -/
def Whole (ts : Tokens) : Prop :=
  Phrase Sentence (ts ++ [.endOfInput])

lemma whole_append {ts' : Tokens} (selection : Phrase Selection ts) (sorting : Phrase Sorting ts') :
    Whole (ts ++ ts') := by
  obtain ⟨p?, hp⟩ := selection
  obtain ⟨os, hos⟩ := sorting
  exact ⟨_, .mk hp hos⟩

lemma completes_readQuery (ts : Tokens) : Completes readQuery Whole ts := by
  have hnothing : Phrase Sorting [] := ⟨[], .nothing⟩
  refine (completes_predicate ts).andThen (k := fun p? ts =>
    (sortClauses ts).bind fun os => queryEnd p? os.1 os.2) ?_ fun p? rest hpredicate => ?_
  · exact fun ts hts => .of_append [] (by simp) (whole_append hts hnothing)
  · obtain ⟨p, -, hbegins⟩ := begins_predicate hpredicate
    obtain ⟨front, rfl, hp⟩ := hbegins.phrase
    refine ⟨front, rfl, ?_⟩
    refine (completes_sortClauses rest).andThen (k := queryEnd p?) ?_ fun os rest' hos => ?_
    · exact fun ts hts => .of_phrase (whole_append hp hts)
    · obtain ⟨front', rfl, hsorting⟩ := (begins_sortClauses hos).phrase
      refine ⟨front', rfl, ?_⟩
      by_cases hend : rest'.peek = .endOfInput
      · exact .of_ok (if_pos hend)
      · refine .of_fault (if_neg hend) (.of_phrase ?_)
        rw [List.append_nil]
        exact whole_append hp hsorting

/-- **Completion.** What stands in front of the place where a query is refused is the beginning of
one. -/
theorem exists_front_of_refused {refusal : Refusal} (h : query ts = .error refusal) :
    ∃ front, ts = front ++ refusal.rest ∧ Completable Whole front := by
  rw [query_eq] at h
  exact completes_readQuery ts refusal (eq_error_of_map h)

end EntityQuery.Grammar
