import EntityQuery.Proofs.Grammar.Parsed

/-!
# Readers look two tokens ahead

What a reader makes of some tokens, be it a result or a fault, depends on the tokens in front of the
place where it stops and on the next two. No token behind them can undo a fault or cause one.
-/

namespace EntityQuery.Tokens

variable {α β : Type} {ts ts' front rest : Tokens}

/-! ### What a reader depends on -/

/-- The next two tokens are the same. -/
def Alike (ts ts' : Tokens) : Prop :=
  ts.take 2 = ts'.take 2

namespace Alike

lemma append (front : Tokens) (h : Alike ts ts') : Alike (front ++ ts) (front ++ ts') := by
  have hle : ∀ us : Tokens, us.take (2 - front.length) = (us.take 2).take (2 - front.length) := by
    intro us
    rw [List.take_take, Nat.min_eq_left (Nat.sub_le _ _)]
  rw [Alike, List.take_append, List.take_append, hle ts, hle ts', h]

lemma head? (h : Alike ts ts') : ts.head? = ts'.head? := by
  have hhead : (ts.take 2).head? = (ts'.take 2).head? := congrArg List.head? h
  rwa [List.head?_take, List.head?_take, if_neg (by decide), if_neg (by decide)] at hhead

lemma ne_cons {t : TokenKind} (h : Alike ts ts') (hne : ∀ rest, ts ≠ t :: rest) (rest : Tokens) :
    ts' ≠ t :: rest := by
  rintro rfl
  obtain ⟨rest', rfl⟩ := List.head?_eq_some_iff.mp h.head?
  exact hne rest' rfl

lemma peek (h : Alike ts ts') : ts.peek = ts'.peek := by
  rw [Tokens.peek, Tokens.peek, List.headD_eq_head?_getD, List.headD_eq_head?_getD, h.head?]

lemma startsWith (h : Alike ts ts') (word : String) :
    ts.startsWith word = ts'.startsWith word := by
  have hhead := h.head?
  cases ts with
  | nil =>
    obtain rfl := List.head?_eq_none_iff.mp hhead.symm
    rfl
  | cons t ts =>
    obtain ⟨ts', rfl⟩ := List.head?_eq_some_iff.mp hhead.symm
    cases t <;> rfl

lemma startsOrders (h : Alike ts ts') : ts.startsOrders = ts'.startsOrders := by
  have htail : ∀ us : Tokens, Tokens.startsWith "by" us.tail =
      Tokens.startsWith "by" (us.take 2).tail := by
    rintro (_ | ⟨t, _ | ⟨u, us⟩⟩)
    · rfl
    · rfl
    · cases u <;> rfl
  rw [Tokens.startsOrders, Tokens.startsOrders, h.startsWith, htail ts, htail ts', h]

end Alike

/-- What a reader returns that stops in front of some tokens: what it has read, or a fault. -/
def stopped (result : Except ParseFault α) (rest : Tokens) : Reading α :=
  match result with
  | .ok a => .ok (a, rest)
  | .error fault => .error ⟨fault, rest⟩

/-- A reader stops behind some tokens, whatever comes behind the next two. -/
def StopsBehind (reader : Tokens → Reading α) (result : Except ParseFault α)
    (front rest : Tokens) : Prop :=
  ∀ rest', Alike rest rest' → reader (front ++ rest') = stopped result rest'

/-- Where a reader stops and with what depends on no tokens but those in front and the next two. -/
def LooksAhead (reader : Tokens → Reading α) (ts : Tokens) : Prop :=
  ∃ front rest result, ts = front ++ rest ∧ StopsBehind reader result front rest

namespace LooksAhead

variable {reader reader' : Tokens → Reading α}

lemma takes (front : Tokens) (a : α)
    (h : ∀ rest', Alike rest rest' → reader (front ++ rest') = .ok (a, rest')) :
    LooksAhead reader (front ++ rest) :=
  ⟨front, rest, .ok a, rfl, h⟩

lemma faults (fault : ParseFault)
    (h : ∀ ts', Alike ts ts' → reader ts' = .error ⟨fault, ts'⟩) : LooksAhead reader ts :=
  ⟨[], ts, .error fault, rfl, h⟩

lemma refuses (expected : Expectation)
    (h : ∀ ts', Alike ts ts' → reader ts' = refuse expected ts') : LooksAhead reader ts :=
  .faults (.unexpectedToken expected ts.peek) fun ts' same => by rw [h ts' same, refuse, same.peek]

/-- A reader that first takes some tokens. -/
lemma behind (front : Tokens) (h : LooksAhead reader ts)
    (same : ∀ ts', Alike ts ts' → reader' (front ++ ts') = reader ts') :
    LooksAhead reader' (front ++ ts) := by
  obtain ⟨front', rest, result, rfl, hstop⟩ := h
  refine ⟨front ++ front', rest, result, (List.append_assoc _ _ _).symm, fun rest' hrest => ?_⟩
  rw [List.append_assoc, same _ (hrest.append front')]
  exact hstop rest' hrest

/-- Two readers that do the same with tokens that begin like these. -/
lemma congr (h : LooksAhead reader ts)
    (same : ∀ ts', Alike ts ts' → reader' ts' = reader ts') : LooksAhead reader' ts :=
  behind [] h same

/-- A reader after another one. -/
lemma andThen {k : α → Tokens → Reading β} (h : LooksAhead reader ts)
    (hnext : ∀ a rest, reader ts = .ok (a, rest) → LooksAhead (k a) rest) :
    LooksAhead (fun ts => (reader ts).bind fun r => k r.1 r.2) ts := by
  obtain ⟨front, rest, result, rfl, hstop⟩ := h
  cases result with
  | error fault =>
    refine ⟨front, rest, .error fault, rfl, fun rest' hrest => ?_⟩
    simp only [hstop rest' hrest]
    rfl
  | ok a =>
    obtain ⟨front', rest, result, rfl, hstop'⟩ := hnext a rest (hstop rest rfl)
    refine ⟨front ++ front', rest, result, (List.append_assoc _ _ _).symm, fun rest' hrest => ?_⟩
    simp only [List.append_assoc, hstop _ (hrest.append front')]
    exact hstop' rest' hrest

lemma map (g : α → β) (h : LooksAhead reader ts) :
    LooksAhead (fun ts => (reader ts).map fun r => (g r.1, r.2)) ts := by
  obtain ⟨front, rest, result, rfl, hstop⟩ := h
  refine ⟨front, rest, result.map g, rfl, fun rest' hrest => ?_⟩
  simp only [hstop rest' hrest]
  cases result <;> rfl

/-- Two readers, one after the other. -/
lemma both {γ : Type} {next : Tokens → Reading β} (g : α → β → γ) (h : LooksAhead reader ts)
    (hnext : ∀ a rest, reader ts = .ok (a, rest) → LooksAhead next rest) :
    LooksAhead (fun ts => (reader ts).bind fun r => (next r.2).map fun s => (g r.1 s.1, s.2)) ts :=
  h.andThen (k := fun a ts => (next ts).map fun s => (g a s.1, s.2))
    fun a rest ha => (hnext a rest ha).map (g a)

/-- A reader that does one thing behind a certain token, and another one elsewhere. -/
lemma onToken {t : TokenKind} {f g : Tokens → Reading α}
    (here : ∀ ts, reader (t :: ts) = f ts)
    (elsewhere : ∀ ts, (∀ rest, ts ≠ t :: rest) → reader ts = g ts)
    (hinner : ∀ rest, ts = t :: rest → LooksAhead f rest)
    (hother : (∀ rest, ts ≠ t :: rest) → LooksAhead g ts) : LooksAhead reader ts := by
  by_cases hhead : ∃ rest, ts = t :: rest
  · obtain ⟨rest, rfl⟩ := hhead
    exact (hinner rest rfl).behind [t] fun ts' _ => here ts'
  · have hne : ∀ rest, ts ≠ t :: rest := not_exists.mp hhead
    exact (hother hne).congr fun ts' same => elsewhere ts' (same.ne_cons hne)

end LooksAhead

/-! ### Conditions -/

lemma looksAhead_sign (s : Sign) (a : α) (ts : Tokens) :
    LooksAhead (fun ts => (sign s ts).map fun rest => (a, rest)) ts := by
  by_cases hs : ts.head? = some (.sign s)
  · obtain ⟨rest, rfl⟩ := List.head?_eq_some_iff.mp hs
    exact .takes [.sign s] a fun rest' _ => by simp [sign, Except.map]
  · refine .refuses (.sign s) fun ts' same => ?_
    rw [same.head?] at hs
    unfold sign
    split
    · rename_i t rest
      have ht : t ≠ s := by
        rintro rfl
        exact hs rfl
      rw [if_neg ht]
      rfl
    · rfl

lemma looksAhead_path (ts : Tokens) : LooksAhead path ts := by
  fun_induction path ts with
  | case1 n more ih =>
    exact (ih.map (n ++ "[]." ++ ·)).behind
      [.name n, .sign .leftBracket, .sign .rightBracket, .sign .dot] fun _ _ => rfl
  | case2 n more hdot =>
    refine .takes [.name n, .sign .leftBracket, .sign .rightBracket] (n ++ "[]") fun _ same => ?_
    simp [path, same.ne_cons hdot]
  | case3 n more _ hclose =>
    refine .behind [.name n, .sign .leftBracket] (.refuses (.sign .rightBracket) fun _ _ => rfl)
      fun _ same => ?_
    simp [path, same.ne_cons hclose]
  | case4 n more ih =>
    exact (ih.map (n ++ "." ++ ·)).behind [.name n, .sign .dot] fun _ _ => rfl
  | case5 n more _ _ hbracket hdot =>
    refine .takes [.name n] n fun _ same => ?_
    simp [path, same.ne_cons hbracket, same.ne_cons hdot]
  | case6 ts _ _ _ _ hname =>
    refine .refuses .propertyName fun ts' same => ?_
    have hother : ∀ n rest, ts' ≠ .name n :: rest := fun n => same.ne_cons (hname n)
    simp [path, hother]

lemma looksAhead_absence (null empty : Operator) (ts : Tokens) :
    LooksAhead (operator.absence null empty) ts := by
  fun_cases operator.absence null empty ts with
  | case1 rest => exact .takes [.keyword .null] null fun _ _ => rfl
  | case2 s rest hempty => exact .takes [.name s] empty fun _ _ => if_pos hempty
  | case3 s rest hother =>
    refine .refuses .absence fun ts' same => ?_
    obtain ⟨rest', rfl⟩ := List.head?_eq_some_iff.mp same.head?.symm
    exact if_neg hother
  | case4 ts hnull hname =>
    refine .refuses .absence fun ts' same => ?_
    rw [operator.absence]
    · exact same.ne_cons hnull
    · exact fun n => same.ne_cons (hname n)

lemma looksAhead_operator (ts : Tokens) : LooksAhead operator ts := by
  fun_cases operator ts
  case case15 rest hlike hilike hcontains hin =>
    refine .behind [.keyword .not] (.refuses .negatable fun _ _ => rfl) fun ts' same => ?_
    simp [operator, same.ne_cons hlike, same.ne_cons hilike, same.ne_cons hcontains,
      same.ne_cons hin]
  case case16 rest =>
    exact (looksAhead_absence _ _ rest).behind [.keyword .is, .keyword .not] fun _ _ => rfl
  case case17 rest hnot =>
    refine (looksAhead_absence .isNull .isEmpty rest).behind [.keyword .is] fun ts' same => ?_
    simp [operator, same.ne_cons hnot]
  case case18 =>
    refine .refuses .operator fun ts' same => ?_
    rw [operator]
    all_goals
      intro rest h
      exact same.ne_cons (by assumption) _ h
  case case11 | case12 | case13 | case14 => exact .takes [.keyword .not, _] _ fun _ _ => rfl
  all_goals exact .takes [_] _ fun _ _ => rfl

lemma looksAhead_literal (ts : Tokens) : LooksAhead literal ts := by
  fun_cases literal ts
  case case5 n rest hunknown =>
    refine .faults (.unknownFunction n) fun ts' same => ?_
    obtain ⟨rest', rfl⟩ : ∃ rest', ts' = .name n :: .sign .leftParen :: rest' := by
      rcases ts' with _ | ⟨t, _ | ⟨u, rest'⟩⟩ <;> simp_all [Alike]
    simp [literal, hunknown]
  case case6 n f hf rest =>
    refine .takes [.name n, .sign .leftParen, .sign .rightParen] (.function f) fun _ _ => ?_
    simp [literal, hf]
  case case7 n f hf rest hclose =>
    have hfaults : LooksAhead
        (fun ts => (.error ⟨.functionArguments f (peek ts), ts⟩ : Reading Operand)) rest :=
      .faults (.functionArguments f (peek rest)) fun ts' same => by rw [same.peek]
    refine hfaults.behind [.name n, .sign .leftParen] fun ts' same => ?_
    simp [literal, hf, same.ne_cons hclose]
  case case8 n rest hopen =>
    refine .takes [.name n] (.word n) fun ts' same => ?_
    simp [literal, same.ne_cons hopen]
  case case9 hstring hint hfloat hnull hcall hname =>
    refine .refuses .value fun ts' same => ?_
    rw [literal]
    · exact fun s => same.ne_cons (hstring s)
    · exact fun i => same.ne_cons (hint i)
    · exact fun d => same.ne_cons (hfloat d)
    · exact same.ne_cons hnull
    · exact fun n _ => same.ne_cons (hname n) _
    · exact fun n => same.ne_cons (hname n)
  all_goals exact .takes [_] _ fun _ _ => rfl

/-- Reads further items of a list, each behind a comma. -/
def afterItem (items : Tokens → Reading (List α)) (a : α) : Tokens → Reading (List α)
  | .sign .comma :: rest => (items rest).map fun r => (a :: r.1, r.2)
  | rest => .ok ([a], rest)

lemma looksAhead_separated {item : Tokens → Reading α} {items : Tokens → Reading (List α)}
    (unfolded : ∀ ts, items ts = (item ts).bind fun r => afterItem items r.1 r.2)
    (shorter : ∀ ts a rest, item ts = .ok (a, rest) → rest.length < ts.length)
    (hitem : ∀ ts, LooksAhead item ts) (ts : Tokens) : LooksAhead items ts := by
  induction hn : ts.length using Nat.strongRecOn generalizing ts with
  | ind n ih =>
    refine ((hitem ts).andThen fun a rest h => ?_).congr fun ts' _ => unfolded ts'
    have hlt := shorter ts a rest h
    refine .onToken (t := .sign .comma) (g := fun ts => .ok ([a], ts)) (fun _ => rfl) ?_ ?_ ?_
    · intro ts' hcomma
      rw [afterItem]
      exact hcomma
    · rintro more rfl
      rw [List.length_cons] at hlt
      exact (ih more.length (by omega) more rfl).map (a :: ·)
    · exact fun _ => .takes [] [a] fun _ _ => rfl

lemma literals_eq (ts : Tokens) :
    literals ts = (literal ts).bind fun r => afterItem literals r.1 r.2 := by
  rw [literals]
  split
  · rename_i h
    rw [h]
    rfl
  · rename_i h
    conv_rhs => rw [h]
    rfl
  · rename_i hcomma h
    rw [h, Except.bind, afterItem]
    exact hcomma

lemma looksAhead_literals (ts : Tokens) : LooksAhead literals ts :=
  looksAhead_separated literals_eq (fun _ _ _ => literal_length) looksAhead_literal ts

/-- Reads a list of literals behind its opening parenthesis. -/
def listEnd (ts : Tokens) : Reading Operand :=
  (literals ts).bind fun r => (sign .rightParen r.2).map fun rest => (.list r.1, rest)

lemma operand_list {op : Operator} (accepted : op.acceptsList = true) (ts : Tokens) :
    operand op (.sign .leftParen :: ts) = listEnd ts := by
  rw [operand, if_pos accepted, listEnd]
  cases literals ts <;> rfl

lemma operand_literal (op : Operator) (h : ∀ rest, ts ≠ .sign .leftParen :: rest) :
    operand op ts =
      (literal ts).map fun r => (if op.takesList then .list [r.1] else r.1, r.2) := by
  rw [operand]
  exact h

lemma looksAhead_operand (op : Operator) (ts : Tokens) : LooksAhead (operand op) ts := by
  by_cases accepted : op.acceptsList = true
  · refine .onToken (operand_list accepted) (fun _ => operand_literal op) (fun rest _ => ?_)
      fun _ => (looksAhead_literal ts).map fun o => if op.takesList then .list [o] else o
    exact (looksAhead_literals rest).andThen fun os rest _ => looksAhead_sign .rightParen _ rest
  · by_cases hparen : ∃ rest, ts = .sign .leftParen :: rest
    · obtain ⟨rest, rfl⟩ := hparen
      refine .faults (.listNotAllowed op) fun ts' same => ?_
      obtain ⟨rest', rfl⟩ := List.head?_eq_some_iff.mp same.head?.symm
      exact if_neg accepted
    · have hne := not_exists.mp hparen
      refine ((looksAhead_literal ts).map fun o => if op.takesList then .list [o] else o).congr ?_
      exact fun ts' same => operand_literal op (same.ne_cons hne)

/-- Reads what stands behind the operator of a condition. -/
def conditionEnd (property : String) (op : Operator) (ts : Tokens) : Reading RawCondition :=
  if op.isUnary then .ok (⟨property, op, none⟩, ts)
  else (operand op ts).map fun r => (⟨property, op, some r.1⟩, r.2)

lemma condition_eq (ts : Tokens) : condition ts = (path ts).bind fun p =>
    (operator p.2).bind fun op => conditionEnd p.1 op.1 op.2 := by
  unfold condition
  cases path ts with
  | error e => rfl
  | ok p =>
    simp only [Except.bind]
    cases operator p.2 <;> rfl

lemma looksAhead_condition (ts : Tokens) : LooksAhead condition ts := by
  rw [funext condition_eq]
  refine (looksAhead_path ts).andThen (k := fun property ts => (operator ts).bind fun op =>
    conditionEnd property op.1 op.2) fun property rest _ => ?_
  refine (looksAhead_operator rest).andThen (k := conditionEnd property) fun op rest _ => ?_
  by_cases unary : op.isUnary = true
  · exact .takes [] _ fun _ _ => if_pos unary
  · exact ((looksAhead_operand op rest).map fun o => (⟨property, op, some o⟩ : RawCondition)).congr
      fun _ _ => if_neg unary

/-! ### Predicates -/

/-- A junction and the tokens that are left. -/
def readJunction (j : Junction) (ts : Tokens) : Reading (Predicate RawCondition) :=
  (junction j ts).map fun r => (r.1, r.2.val)

/-- An item of a junction and the tokens that are left. -/
def readItem (j : Junction) (ts : Tokens) : Reading (Predicate RawCondition) :=
  (item j ts).map fun r => (r.1, r.2.val)

/-- Further items of a junction and the tokens that are left. -/
def readMore (j : Junction) (ts : Tokens) : Reading (List (Predicate RawCondition)) :=
  (moreItems j ts).map fun r => (r.1, r.2.val)

lemma readJunction_eq (j : Junction) (ts : Tokens) : readJunction j ts =
    (readItem j ts).bind fun p => (readMore j p.2).map fun ps => (.join j (p.1 :: ps.1), ps.2) := by
  rw [readJunction, junction, readItem]
  cases item j ts with
  | error e => rfl
  | ok p =>
    simp only [Except.map, Except.bind, readMore]
    cases moreItems j p.2.val <;> rfl

lemma readItem_or (ts : Tokens) : readItem .or ts = readJunction .and ts := by
  rw [readItem, item, readJunction]

lemma readItem_enclosed (ts : Tokens) : readItem .and (.sign .leftParen :: ts) =
    (readJunction .or ts).bind fun p => (sign .rightParen p.2).map fun rest => (p.1, rest) := by
  rw [readItem, item, readJunction]
  cases junction .or ts with
  | error e => rfl
  | ok p =>
    have hbind : ∀ f : _ → Reading (Predicate RawCondition),
        (Except.map (fun r => (r.1, r.2.val)) (Except.ok p)).bind f = f (p.1, p.2.val) :=
      fun _ => rfl
    rw [hbind]
    simp only []
    split
    all_goals
      rename_i hs
      conv_rhs => rw [hs]
      rfl

lemma readItem_condition (h : ∀ rest, ts ≠ .sign .leftParen :: rest) :
    readItem .and ts = (condition ts).map fun c => (.cond c.1, c.2) := by
  rw [readItem, item]
  · split
    all_goals
      rename_i hc
      conv_rhs => rw [hc]
      rfl
  · exact h

lemma readMore_connected (j : Junction) (ts : Tokens) :
    readMore j (.keyword j.keyword :: ts) =
      (readItem j ts).bind fun p => (readMore j p.2).map fun ps => (p.1 :: ps.1, ps.2) := by
  rw [readMore, moreItems, if_pos rfl, readItem]
  cases item j ts with
  | error e => rfl
  | ok p =>
    simp only [Except.map, Except.bind, readMore]
    cases moreItems j p.2.val <;> rfl

lemma readMore_other {j : Junction} (h : ∀ rest, ts ≠ .keyword j.keyword :: rest) :
    readMore j ts = .ok ([], ts) := by
  rw [readMore, moreItems.eq_def]
  split
  · rename_i k rest
    have hk : k ≠ j.keyword := by
      rintro rfl
      exact h rest rfl
    rw [if_neg hk]
    rfl
  · rfl

lemma predicate_of_startsPredicate (h : StartsPredicate ts) :
    predicate ts = (readJunction .or ts).map fun p => (some p.1, p.2) := by
  rw [predicate, if_neg h, readJunction]
  cases junction .or ts <;> rfl

lemma readItem_length {j : Junction} {p : Predicate RawCondition}
    (h : readItem j ts = .ok (p, rest)) : rest.length < ts.length := by
  obtain ⟨r, -, hr⟩ := exists_of_map_eq_ok h
  rw [← (Prod.mk.inj hr).2]
  exact r.2.property

/-- A reader looks two tokens ahead, as long as few tokens are left. -/
def LooksAheadUpTo (n : Nat) (reader : Tokens → Reading α) : Prop :=
  ∀ ts : Tokens, ts.length ≤ n → LooksAhead reader ts

variable {j : Junction} {n : Nat}

lemma looksAhead_readMore (hitem : LooksAheadUpTo n (readItem j)) :
    LooksAheadUpTo n (readMore j) := by
  intro ts hle
  induction hm : ts.length using Nat.strongRecOn generalizing ts with
  | ind m ih =>
    refine .onToken (readMore_connected j) (fun _ => readMore_other) ?_
      fun _ => .takes [] [] fun _ _ => rfl
    rintro more rfl
    rw [List.length_cons] at hle hm
    refine (hitem more (by omega)).both (fun p ps => p :: ps) fun p rest h => ?_
    have hlt := readItem_length h
    exact ih rest.length (by omega) rest (by omega) rfl

lemma looksAhead_readJunction (hitem : LooksAheadUpTo n (readItem j)) :
    LooksAheadUpTo n (readJunction j) := by
  intro ts hle
  rw [funext (readJunction_eq j)]
  refine (hitem ts hle).both (fun p ps => Predicate.join j (p :: ps)) fun p rest h => ?_
  have hlt := readItem_length h
  exact looksAhead_readMore hitem rest (by omega)

/-- A junction is read from fewer tokens when it stands in parentheses. -/
lemma looksAhead_readItem_and (h : ∀ m < n, LooksAheadUpTo m (readJunction .or)) :
    LooksAheadUpTo n (readItem .and) := by
  intro ts hle
  refine .onToken readItem_enclosed (fun _ => readItem_condition) ?_
    fun _ => (looksAhead_condition ts).map Predicate.cond
  rintro more rfl
  rw [List.length_cons] at hle
  exact (h more.length (by omega) more (Nat.le_refl _)).andThen fun p rest _ =>
    looksAhead_sign .rightParen p rest

lemma looksAhead_readJunction_or (n : Nat) : LooksAheadUpTo n (readJunction .or) := by
  induction n using Nat.strongRecOn with
  | ind n ih =>
    have hand := looksAhead_readJunction (looksAhead_readItem_and ih)
    rw [← funext readItem_or] at hand
    exact looksAhead_readJunction hand

lemma looksAhead_predicate (ts : Tokens) : LooksAhead predicate ts := by
  have hcondition : ∀ ts', Alike ts ts' →
      ((ts.peek = .endOfInput ∨ ts.startsOrders) ↔ (ts'.peek = .endOfInput ∨ ts'.startsOrders)) :=
    fun ts' same => by rw [same.peek, same.startsOrders]
  by_cases hnone : ts.peek = .endOfInput ∨ ts.startsOrders
  · exact .takes [] none fun ts' same => if_pos ((hcondition ts' same).mp hnone)
  · refine ((looksAhead_readJunction_or _ ts (Nat.le_refl _)).map some).congr fun ts' same => ?_
    exact predicate_of_startsPredicate (mt (hcondition ts' same).mpr hnone)

/-! ### Sort clauses and queries -/

/-- Reads the direction of a sort clause. -/
def orderEnd (property : String) (ts : Tokens) : Reading (Order String) :=
  if ts.startsWith "asc" then .ok (⟨property, .ascending⟩, ts.tail)
  else if ts.startsWith "desc" then .ok (⟨property, .descending⟩, ts.tail)
  else .error ⟨.missingDirection property ts.peek, ts⟩

lemma order_eq (ts : Tokens) : order ts = (path ts).bind fun p => orderEnd p.1 p.2 := by
  unfold order
  cases path ts <;> rfl

lemma looksAhead_orderEnd (property : String) (ts : Tokens) :
    LooksAhead (orderEnd property) ts := by
  by_cases hasc : ts.startsWith "asc" = true
  · obtain ⟨s, rest, rfl⟩ := exists_name_of_startsWith hasc
    exact .takes [.name s] _ fun _ _ => if_pos hasc
  · by_cases hdesc : ts.startsWith "desc" = true
    · obtain ⟨s, rest, rfl⟩ := exists_name_of_startsWith hdesc
      exact .takes [.name s] _ fun _ _ => (if_neg hasc).trans (if_pos hdesc)
    · refine .faults (.missingDirection property ts.peek) fun ts' same => ?_
      rw [same.startsWith] at hasc hdesc
      rw [orderEnd, if_neg hasc, if_neg hdesc, same.peek]

lemma looksAhead_order (ts : Tokens) : LooksAhead order ts := by
  rw [funext order_eq]
  exact (looksAhead_path ts).andThen fun property rest _ => looksAhead_orderEnd property rest

lemma orders_eq (ts : Tokens) : orders ts = (order ts).bind fun r => afterItem orders r.1 r.2 := by
  rw [orders]
  split
  · rename_i h
    rw [h]
    rfl
  · rename_i h
    conv_rhs => rw [h]
    rfl
  · rename_i hcomma h
    rw [h, Except.bind, afterItem]
    exact hcomma

lemma looksAhead_orders (ts : Tokens) : LooksAhead orders ts :=
  looksAhead_separated orders_eq (fun _ _ _ => order_length) looksAhead_order ts

lemma looksAhead_sortClauses (ts : Tokens) : LooksAhead sortClauses ts := by
  by_cases hstarts : ts.startsOrders = true
  · obtain ⟨a, b, more, rfl, -⟩ := exists_names_of_startsOrders hstarts
    exact (looksAhead_orders more).behind [.name a, .name b] fun _ _ => if_pos hstarts
  · refine .takes [] [] fun ts' same => ?_
    rw [same.startsOrders] at hstarts
    exact if_neg hstarts

/-- Reads the end of a query. -/
def queryEnd (p? : Option (Predicate RawCondition)) (os : List (Order String)) (ts : Tokens) :
    Reading RawQuery :=
  if ts.peek = .endOfInput then .ok (⟨p?, os⟩, ts)
  else refuse (if p?.isSome ∧ os = [] then .continuation else .endOfInput) ts

/-- Reads a query and returns the tokens from its end on. -/
def readQuery (ts : Tokens) : Reading RawQuery :=
  (predicate ts).bind fun p => (sortClauses p.2).bind fun os => queryEnd p.1 os.1 os.2

lemma query_eq (ts : Tokens) : query ts = (readQuery ts).map Prod.fst := by
  rw [query, readQuery]
  cases predicate ts with
  | error e => rfl
  | ok p =>
    simp only [Except.bind]
    cases sortClauses p.2 with
    | error e => rfl
    | ok os =>
      simp only [queryEnd]
      split <;> rfl

lemma looksAhead_readQuery (ts : Tokens) : LooksAhead readQuery ts := by
  refine (looksAhead_predicate ts).andThen
    (k := fun p? ts => (sortClauses ts).bind fun os => queryEnd p? os.1 os.2) fun p? rest _ => ?_
  refine (looksAhead_sortClauses rest).andThen (k := queryEnd p?) fun os rest _ => ?_
  by_cases hend : rest.peek = .endOfInput
  · refine .takes [] ⟨p?, os⟩ fun ts' same => ?_
    rw [same.peek] at hend
    exact if_pos hend
  · refine .refuses (if p?.isSome ∧ os = [] then .continuation else .endOfInput) fun ts' same => ?_
    rw [same.peek] at hend
    exact if_neg hend

/-- **Look-ahead.** Where a query is refused and why depends on no tokens but those in front and the
next two. -/
theorem query_refused {refusal : Refusal} (h : query ts = .error refusal) :
    ∃ front, ts = front ++ refusal.rest ∧ ∀ rest', Alike refusal.rest rest' →
      query (front ++ rest') = .error ⟨refusal.fault, rest'⟩ := by
  obtain ⟨front, rest, result, rfl, hstop⟩ := looksAhead_readQuery ts
  rw [query_eq, hstop rest rfl] at h
  cases result with
  | ok q => cases h
  | error fault =>
    obtain rfl := Except.error.inj h
    exact ⟨front, rfl, fun rest' same => by rw [query_eq, hstop rest' same]; rfl⟩

end EntityQuery.Tokens
