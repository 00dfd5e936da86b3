import EntityQuery.Proofs.Grammar.Complete
import EntityQuery.Proofs.RawQuery.Image

/-!
# What is read is a phrase

Each reader that succeeds has taken a phrase of its part of the grammar off the front. Together with
the reading of phrases this says which texts are queries, and what query each of them is.
-/

namespace EntityQuery

namespace Grammar

open Tokens

/-- A phrase comes first, and other tokens behind it. -/
def Begins (phrase : Tokens → Prop) (ts rest : Tokens) : Prop :=
  ∃ front, ts = front ++ rest ∧ phrase front

variable {ts rest : Tokens}

/-! ### Conditions -/

lemma begins_path {p : String} (h : path ts = .ok (p, rest)) : Begins (Path · p) ts rest := by
  fun_induction path ts generalizing p with
  | case1 n more ih =>
    obtain ⟨⟨q, rest'⟩, hmore, hresult⟩ := exists_of_map_eq_ok h
    obtain ⟨rfl, rfl⟩ := Prod.mk.inj hresult
    obtain ⟨front, rfl, hpath⟩ := ih hmore
    rw [stepText_true_dot]
    exact ⟨ofStep n true ++ .sign .dot :: front, rfl, .step n true hpath⟩
  | case2 n more =>
    obtain ⟨rfl, rfl⟩ := Prod.mk.inj (Except.ok.inj h)
    exact ⟨ofStep n true, rfl, .last n true⟩
  | case4 n more ih =>
    obtain ⟨⟨q, rest'⟩, hmore, hresult⟩ := exists_of_map_eq_ok h
    obtain ⟨rfl, rfl⟩ := Prod.mk.inj hresult
    obtain ⟨front, rfl, hpath⟩ := ih hmore
    have hstep := Path.step n false hpath
    rw [stepText_false] at hstep
    exact ⟨ofStep n false ++ .sign .dot :: front, rfl, hstep⟩
  | case5 n more =>
    obtain ⟨rfl, rfl⟩ := Prod.mk.inj (Except.ok.inj h)
    have hlast := Path.last n false
    rw [stepText_false] at hlast
    exact ⟨ofStep n false, rfl, hlast⟩
  | case3 | case6 => cases h

lemma null_or_empty_of_absence {a b op : Operator} (h : operator.absence a b ts = .ok (op, rest)) :
    op = a ∧ ts = .keyword .null :: rest ∨
      op = b ∧ ∃ s, sameWord s "empty" = true ∧ ts = .name s :: rest := by
  unfold operator.absence at h
  split at h
  · obtain ⟨rfl, rfl⟩ := Prod.mk.inj (Except.ok.inj h)
    exact .inl ⟨rfl, rfl⟩
  · split at h
    · rename_i s _ hempty
      obtain ⟨rfl, rfl⟩ := Prod.mk.inj (Except.ok.inj h)
      exact .inr ⟨rfl, s, hempty, rfl⟩
    · cases h
  · cases h

lemma begins_operator {op : Operator} (h : operator ts = .ok (op, rest)) :
    Begins (Spelling · op) ts rest := by
  unfold operator at h
  split at h
  case h_15 | h_18 => cases h
  case h_16 more =>
    rcases null_or_empty_of_absence h with ⟨rfl, rfl⟩ | ⟨rfl, s, hempty, rfl⟩
    · exact ⟨_, rfl, .operator .isNotNull⟩
    · exact ⟨[.keyword .is, .keyword .not, .name s], rfl, .isNotEmpty hempty⟩
  case h_17 more _ =>
    rcases null_or_empty_of_absence h with ⟨rfl, rfl⟩ | ⟨rfl, s, hempty, rfl⟩
    · exact ⟨_, rfl, .operator .isNull⟩
    · exact ⟨[.keyword .is, .name s], rfl, .isEmpty hempty⟩
  all_goals
    obtain ⟨rfl, rfl⟩ := Prod.mk.inj (Except.ok.inj h)
    exact ⟨_, rfl, .operator _⟩

lemma begins_literal {o : Operand} (h : literal ts = .ok (o, rest)) :
    Begins (Literal · o) ts rest := by
  unfold literal at h
  split at h
  case h_5 n more =>
    split at h
    · cases h
    · rename_i f hf
      split at h
      · obtain ⟨rfl, rfl⟩ := Prod.mk.inj (Except.ok.inj h)
        exact ⟨_, rfl, .call f (ofName?_eq_some.mp hf)⟩
      · cases h
  case h_7 => cases h
  all_goals obtain ⟨rfl, rfl⟩ := Prod.mk.inj (Except.ok.inj h)
  · exact ⟨_, rfl, .string _⟩
  · exact ⟨_, rfl, .integer _⟩
  · exact ⟨_, rfl, .decimal _⟩
  · exact ⟨_, rfl, .null⟩
  · exact ⟨_, rfl, .word _⟩

lemma begins_literals {os : List Operand} (h : literals ts = .ok (os, rest)) :
    Begins (Literals · os) ts rest := by
  fun_induction literals ts generalizing os with
  | case1 => cases h
  | case2 ts o more hliteral _ ih =>
    obtain ⟨⟨qs, rest'⟩, hmore, hresult⟩ := exists_of_map_eq_ok h
    obtain ⟨rfl, rfl⟩ := Prod.mk.inj hresult
    obtain ⟨front, rfl, hfront⟩ := begins_literal hliteral
    obtain ⟨front', rfl, hfront'⟩ := ih hmore
    exact ⟨front ++ .sign .comma :: front', by simp, .more hfront hfront'⟩
  | case3 ts o more _ hliteral =>
    obtain ⟨rfl, rfl⟩ := Prod.mk.inj (Except.ok.inj h)
    obtain ⟨front, rfl, hfront⟩ := begins_literal hliteral
    exact ⟨front, rfl, .last hfront⟩

lemma begins_operand {op : Operator} {o : Operand} (binary : op.isUnary = false)
    (h : operand op ts = .ok (o, rest)) : Begins (Argument op · (some o)) ts rest := by
  unfold operand at h
  split at h
  · rename_i more
    split at h
    · rename_i accepts
      cases hliterals : literals more with
      | error e => simp [hliterals] at h
      | ok r =>
        obtain ⟨os, rest'⟩ := r
        simp only [hliterals] at h
        obtain ⟨rest'', hsign, hresult⟩ := exists_of_map_eq_ok h
        obtain ⟨rfl, rfl⟩ := Prod.mk.inj hresult
        obtain ⟨front, rfl, hfront⟩ := begins_literals hliterals
        obtain rfl := sign_eq hsign
        exact ⟨.sign .leftParen :: (front ++ [.sign .rightParen]), by simp, .list accepts hfront⟩
    · cases h
  · obtain ⟨⟨q, rest'⟩, hliteral, hresult⟩ := exists_of_map_eq_ok h
    obtain ⟨rfl, rfl⟩ := Prod.mk.inj hresult
    obtain ⟨front, rfl, hfront⟩ := begins_literal hliteral
    refine ⟨front, rfl, ?_⟩
    by_cases wanted : op.takesList = true
    · rw [if_pos wanted]
      exact .alone wanted hfront
    · rw [if_neg wanted]
      exact .single binary (Bool.eq_false_iff.mpr wanted) hfront

/-- What is read as a condition is one of the grammar. -/
lemma begins_condition {c : RawCondition} (h : condition ts = .ok (c, rest)) :
    Begins (Condition · c) ts rest := by
  unfold condition at h
  cases hpath : path ts with
  | error e => simp [hpath] at h
  | ok first =>
    obtain ⟨property, rest₁⟩ := first
    obtain ⟨front₁, rfl, hfront₁⟩ := begins_path hpath
    cases hoperator : operator rest₁ with
    | error e => simp [hpath, hoperator] at h
    | ok second =>
      obtain ⟨op, rest₂⟩ := second
      obtain ⟨front₂, rfl, hfront₂⟩ := begins_operator hoperator
      simp only [hpath, hoperator] at h
      split at h
      · rename_i unary
        obtain ⟨rfl, rfl⟩ := Prod.mk.inj (Except.ok.inj h)
        exact ⟨front₁ ++ front₂ ++ [], by simp, .mk hfront₁ hfront₂ (.nothing unary)⟩
      · rename_i binary
        obtain ⟨⟨o, rest₃⟩, hoperand, hresult⟩ := exists_of_map_eq_ok h
        obtain ⟨rfl, rfl⟩ := Prod.mk.inj hresult
        obtain ⟨front₃, rfl, hfront₃⟩ := begins_operand (Bool.eq_false_iff.mpr binary) hoperand
        exact ⟨front₁ ++ front₂ ++ front₃, by simp, .mk hfront₁ hfront₂ hfront₃⟩

/-! ### Predicates -/

variable {j : Junction} {n : Nat} {p : Predicate RawCondition} {ps : List (Predicate RawCondition)}

/-- What is read as an item of a junction is one of the grammar, as long as few tokens are left. -/
def ItemsAreDerived (j : Junction) (n : Nat) : Prop :=
  ∀ ts q rest, ts.length ≤ n → ReadsItem j ts q rest →
    ∃ p, q = p.flattened ∧ Begins (Item j · p) ts rest

/-- What is read as a junction has the items of one of the grammar, as long as few tokens are
left. -/
def JunctionsAreDerived (j : Junction) (n : Nat) : Prop :=
  ∀ ts q rest, ts.length ≤ n → ReadsJunction j ts q rest →
    ∃ ps, q = (Predicate.junction j ps).flattened ∧ Begins (Items j · ps) ts rest

/-- Nothing, or items of a junction after a connective. -/
def Continues (j : Junction) (ts : Tokens) (ps : List (Predicate RawCondition)) (rest : Tokens) :
    Prop :=
  ps = [] ∧ ts = rest ∨ ∃ ts', ts = .keyword j.keyword :: ts' ∧ Begins (Items j · ps) ts' rest

lemma Continues.begins_cons {mid : Tokens} (h : Begins (Item j · p) ts mid)
    (hmore : Continues j mid ps rest) : Begins (Items j · (p :: ps)) ts rest := by
  obtain ⟨front, rfl, hitem⟩ := h
  rcases hmore with ⟨rfl, rfl⟩ | ⟨ts', rfl, front', rfl, hitems⟩
  · exact ⟨front, rfl, .last hitem⟩
  · exact ⟨front ++ .keyword j.keyword :: front', by simp, .more hitem hitems⟩

lemma continues_of_readsMore (hitem : ItemsAreDerived j n) {qs : List (Predicate RawCondition)}
    (hle : ts.length ≤ n) (h : ReadsMore j ts qs rest) :
    ∃ ps, qs = ps.map Predicate.flattened ∧ Continues j ts ps rest := by
  induction qs generalizing ts with
  | nil =>
    rcases h.nil_or_cons with ⟨-, rfl⟩ | ⟨_, _, _, _, _, _, _, hcons⟩
    · exact ⟨[], rfl, .inl ⟨rfl, rfl⟩⟩
    · cases hcons
  | cons q qs ih =>
    rcases h.nil_or_cons with ⟨hnil, -⟩ | ⟨ts', q', qs', mid, rfl, hreads, hmore, hcons⟩
    · cases hnil
    · obtain ⟨rfl, rfl⟩ := List.cons.inj hcons
      rw [List.length_cons] at hle
      have hlt := hreads.1
      obtain ⟨p, rfl, hp⟩ := hitem ts' q mid (by omega) hreads
      obtain ⟨ps, rfl, hps⟩ := ih (by omega) hmore
      exact ⟨p :: ps, rfl, .inr ⟨ts', rfl, hps.begins_cons hp⟩⟩

lemma junctionsAreDerived (hitem : ItemsAreDerived j n) : JunctionsAreDerived j n := by
  intro ts r rest hle h
  obtain ⟨q, qs, mid, hreads, hmore, rfl⟩ := h.exists_items
  have hlt := hreads.1
  obtain ⟨p, rfl, hp⟩ := hitem ts q mid hle hreads
  obtain ⟨ps, rfl, hps⟩ := continues_of_readsMore hitem (by omega) hmore
  exact ⟨p :: ps, by rw [Predicate.flattened_junction, List.map_cons], hps.begins_cons hp⟩

/-- A junction is read from fewer tokens when it stands in parentheses. -/
lemma itemsAreDerived_and (h : ∀ m < n, JunctionsAreDerived .or m) : ItemsAreDerived .and n := by
  intro ts q rest hle hreads
  rcases hreads.enclosed_or_condition with ⟨ts', rfl, hjunction⟩ | ⟨c, hcondition, rfl⟩
  · rw [List.length_cons] at hle
    obtain ⟨ps, rfl, front, rfl, hfront⟩ := h ts'.length (by omega) ts' q _ (Nat.le_refl _) hjunction
    exact ⟨.or ps, rfl, .sign .leftParen :: (front ++ [.sign .rightParen]), by simp,
      .enclosed hfront⟩
  · obtain ⟨front, rfl, hfront⟩ := begins_condition hcondition
    exact ⟨.cond c, by rw [Predicate.flattened], front, rfl, .condition hfront⟩

lemma junctionsAreDerived_or (n : Nat) : JunctionsAreDerived .or n := by
  induction n using Nat.strongRecOn with
  | ind n ih =>
    have hand : JunctionsAreDerived .and n := junctionsAreDerived (itemsAreDerived_and ih)
    have hor : ItemsAreDerived .or n := by
      intro ts q rest hle h
      obtain ⟨ps, rfl, front, rfl, hfront⟩ := hand ts q rest hle h.junction
      exact ⟨.and ps, rfl, front, rfl, .conjunction hfront⟩
    exact junctionsAreDerived hor

/-! ### Sort clauses and queries -/

lemma begins_order {o : Order String} (h : order ts = .ok (o, rest)) :
    Begins (Clause · o) ts rest := by
  have hword : ∀ {more : Tokens} {word : String}, more.startsWith word = true →
      ∃ s, sameWord s word = true ∧ more = .name s :: more.tail := by
    intro more word hstarts
    obtain ⟨s, more, rfl⟩ := exists_name_of_startsWith hstarts
    exact ⟨s, hstarts, rfl⟩
  unfold order at h
  cases hpath : path ts with
  | error e => simp [hpath] at h
  | ok r =>
    obtain ⟨property, more⟩ := r
    obtain ⟨front, rfl, hfront⟩ := begins_path hpath
    simp only [hpath] at h
    split at h
    · rename_i hasc
      obtain ⟨rfl, rfl⟩ := Prod.mk.inj (Except.ok.inj h)
      obtain ⟨s, hs, hmore⟩ := hword hasc
      exact ⟨front ++ [.name s], by rw [hmore]; simp, .ascending hfront hs⟩
    · split at h
      · rename_i hdesc
        obtain ⟨rfl, rfl⟩ := Prod.mk.inj (Except.ok.inj h)
        obtain ⟨s, hs, hmore⟩ := hword hdesc
        exact ⟨front ++ [.name s], by rw [hmore]; simp, .descending hfront hs⟩
      · cases h

lemma begins_orders {os : List (Order String)} (h : orders ts = .ok (os, rest)) :
    Begins (Clauses · os) ts rest := by
  fun_induction orders ts generalizing os with
  | case1 => cases h
  | case2 ts o more horder _ ih =>
    obtain ⟨⟨qs, rest'⟩, hothers, hresult⟩ := exists_of_map_eq_ok h
    obtain ⟨rfl, rfl⟩ := Prod.mk.inj hresult
    obtain ⟨front, rfl, hfront⟩ := begins_order horder
    obtain ⟨front', rfl, hfront'⟩ := ih hothers
    exact ⟨front ++ .sign .comma :: front', by simp, .more hfront hfront'⟩
  | case3 ts o more _ horder =>
    obtain ⟨rfl, rfl⟩ := Prod.mk.inj (Except.ok.inj h)
    obtain ⟨front, rfl, hfront⟩ := begins_order horder
    exact ⟨front, rfl, .last hfront⟩

lemma begins_predicate {q? : Option (Predicate RawCondition)} (h : predicate ts = .ok (q?, rest)) :
    ∃ p?, q? = p?.map Predicate.flattened ∧ Begins (Selection · p?) ts rest := by
  unfold predicate at h
  split at h
  · obtain ⟨rfl, rfl⟩ := Prod.mk.inj (Except.ok.inj h)
    exact ⟨none, rfl, [], rfl, .nothing⟩
  · cases hjunction : junction .or ts with
    | error e => simp [hjunction] at h
    | ok r =>
      obtain ⟨q, rest', hlt⟩ := r
      simp only [hjunction, Except.ok.injEq, Prod.mk.injEq] at h
      obtain ⟨rfl, rfl⟩ := h
      obtain ⟨ps, rfl, front, hts, hfront⟩ :=
        junctionsAreDerived_or ts.length ts q rest' (Nat.le_refl _) ⟨hlt, hjunction⟩
      exact ⟨some (.or ps), rfl, front, hts, .items hfront⟩

lemma begins_sortClauses {os : List (Order String)} (h : sortClauses ts = .ok (os, rest)) :
    Begins (Sorting · os) ts rest := by
  unfold sortClauses at h
  split at h
  · rename_i hstarts
    obtain ⟨a, b, ts, rfl, horder, hby⟩ := exists_names_of_startsOrders hstarts
    obtain ⟨front, rfl, hfront⟩ := begins_orders h
    exact ⟨.name a :: .name b :: front, rfl, .clauses horder hby hfront⟩
  · obtain ⟨rfl, rfl⟩ := Prod.mk.inj (Except.ok.inj h)
    exact ⟨[], rfl, .nothing⟩

/-- A phrase ends where the text does, if nothing but the end is left. -/
lemma eq_of_peek_eq_end {front phrase : Tokens} (hfront : .endOfInput ∉ front)
    (hphrase : .endOfInput ∉ phrase) (h : front ++ [.endOfInput] = phrase ++ rest)
    (hrest : rest.peek = .endOfInput) : rest = [.endOfInput] := by
  cases rest with
  | nil =>
    have hmem : TokenKind.endOfInput ∈ phrase ++ [] := by
      rw [← h]
      simp
    rw [List.append_nil] at hmem
    exact absurd hmem hphrase
  | cons t rest =>
    obtain rfl : t = .endOfInput := hrest
    obtain ⟨-, -, rfl⟩ := (List.append_cons_inj_of_notMem hfront List.not_mem_nil).mp h
    rfl

/-- **What is read as a query** is one of the grammar. -/
theorem sentence_of_query {front : Tokens} {q : RawQuery} (hfront : .endOfInput ∉ front)
    (h : query (front ++ [.endOfInput]) = .ok q) :
    ∃ d, Sentence (front ++ [.endOfInput]) d ∧ q = d.flattened := by
  unfold query at h
  cases hpredicate : predicate (front ++ [.endOfInput]) with
  | error e => simp [hpredicate] at h
  | ok first =>
    obtain ⟨q?, rest₁⟩ := first
    obtain ⟨p?, rfl, ts, hts, hselection⟩ := begins_predicate hpredicate
    simp only [hpredicate] at h
    cases hclauses : sortClauses rest₁ with
    | error e => simp [hclauses] at h
    | ok second =>
      obtain ⟨os, rest₂⟩ := second
      obtain ⟨ts', rfl, hsorting⟩ := begins_sortClauses hclauses
      simp only [hclauses] at h
      split at h
      · rename_i hend
        obtain rfl := Except.ok.inj h
        rw [← List.append_assoc] at hts
        have hphrase : .endOfInput ∉ ts ++ ts' := by
          simp [hselection.end_notMem, hsorting.end_notMem]
        obtain rfl := eq_of_peek_eq_end hfront hphrase hts hend
        exact ⟨⟨p?, os⟩, hts ▸ .mk hselection hsorting, rfl⟩
      · cases h

end Grammar

end EntityQuery
