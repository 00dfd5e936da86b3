import EntityQuery.RawQuery.Read

/-!
Whole queries, read from tokens and from text.

Predicates are read by one reader for both junctions: the items of a disjunction are conjunctions,
and the items of a conjunction are conditions or predicates in parentheses.
-/

namespace EntityQuery

/-- What a reader returns that has taken something off the front of `ts`. -/
abbrev Shorter (ts : Tokens) (α : Type) :=
  Except Refusal (α × { rest : Tokens // rest.length < ts.length })

/-- What a reader returns that may leave `ts` as it is. -/
abbrev NotLonger (ts : Tokens) (α : Type) :=
  Except Refusal (α × { rest : Tokens // rest.length ≤ ts.length })

/-- The connective of a junction. -/
def Junction.keyword : Junction → Keyword
  | .and => .and
  | .or => .or

namespace Tokens

mutual

/-- Reads the items of a junction, one or more, with connectives between them. -/
def junction (j : Junction) (ts : Tokens) : Shorter ts (Predicate RawCondition) :=
  match item j ts with
  | .error e => .error e
  | .ok (p, ⟨rest, h⟩) =>
    match moreItems j rest with
    | .error e => .error e
    | .ok (ps, ⟨rest', h'⟩) => .ok (.join j (p :: ps), ⟨rest', Nat.lt_of_le_of_lt h' h⟩)
termination_by (ts.length, match j with | .or => 4 | .and => 2)
decreasing_by
  · exact Prod.Lex.right _ (by cases j <;> decide)
  · exact Prod.Lex.left _ _ h

/-- Reads further items of a junction, each after a connective. -/
def moreItems (j : Junction) (ts : Tokens) : NotLonger ts (List (Predicate RawCondition)) :=
  match ts with
  | .keyword k :: rest =>
    if k = j.keyword then
      match item j rest with
      | .error e => .error e
      | .ok (p, ⟨rest', h⟩) =>
        match moreItems j rest' with
        | .error e => .error e
        | .ok (ps, ⟨rest'', h'⟩) =>
          .ok (p :: ps, ⟨rest'', Nat.le_trans h' (Nat.le_trans (Nat.le_of_lt h) (Nat.le_succ _))⟩)
    else .ok ([], ⟨.keyword k :: rest, Nat.le_refl _⟩)
  | ts => .ok ([], ⟨ts, Nat.le_refl _⟩)
termination_by (ts.length, 0)
decreasing_by
  · exact Prod.Lex.left _ _ (by simp)
  · exact Prod.Lex.left _ _ (by simp only [List.length_cons]; omega)

/-- Reads an item of a junction. -/
def item (j : Junction) (ts : Tokens) : Shorter ts (Predicate RawCondition) :=
  match j with
  | .or => junction .and ts
  | .and =>
    match ts with
    | .sign .leftParen :: rest =>
      match junction .or rest with
      | .error e => .error e
      | .ok (p, ⟨rest', h⟩) =>
        match hs : sign .rightParen rest' with
        | .error e => .error e
        | .ok rest'' =>
          .ok (p, ⟨rest'', by
            have := sign_length hs
            simp only [List.length_cons]
            omega⟩)
    | ts =>
      match hc : condition ts with
      | .error e => .error e
      | .ok (c, rest) => .ok (.cond c, ⟨rest, condition_length hc⟩)
termination_by (ts.length, match j with | .or => 3 | .and => 1)

end

/-- Reads a sort clause. -/
def order (ts : Tokens) : Reading (Order String) :=
  match path ts with
  | .error e => .error e
  | .ok (property, rest) =>
    if rest.startsWith "asc" then .ok (⟨property, .ascending⟩, rest.tail)
    else if rest.startsWith "desc" then .ok (⟨property, .descending⟩, rest.tail)
    else .error ⟨.missingDirection property rest.peek, rest⟩

theorem order_length {ts rest : Tokens} {o : Order String} (h : order ts = .ok (o, rest)) :
    rest.length < ts.length := by
  unfold order at h
  match hp : path ts with
  | .error e => simp [hp] at h
  | .ok (property, r) =>
    have := path_length hp
    simp only [hp] at h
    split at h
    · simp only [Except.ok.injEq, Prod.mk.injEq] at h
      simp only [← h.2, List.length_tail]
      omega
    · split at h
      · simp only [Except.ok.injEq, Prod.mk.injEq] at h
        simp only [← h.2, List.length_tail]
        omega
      · simp at h

/-- Reads one sort clause or more, separated by commas. -/
def orders (ts : Tokens) : Reading (List (Order String)) :=
  match h : order ts with
  | .error e => .error e
  | .ok (o, .sign .comma :: rest) =>
    have : rest.length < ts.length := by
      have := order_length h
      simp only [List.length_cons] at this
      omega
    (orders rest).map fun (os, rest) => (o :: os, rest)
  | .ok (o, rest) => .ok ([o], rest)
termination_by ts.length

/-- Reads the predicate of a query, if it has one. -/
def predicate (ts : Tokens) : Reading (Option (Predicate RawCondition)) :=
  if ts.peek = .endOfInput ∨ ts.startsOrders then .ok (none, ts)
  else
    match junction .or ts with
    | .error e => .error e
    | .ok (p, rest) => .ok (some p, rest.val)

/-- Reads the sort clauses of a query, if it has some. -/
def sortClauses (ts : Tokens) : Reading (List (Order String)) :=
  if ts.startsOrders then orders (ts.drop 2) else .ok ([], ts)

/-- Reads a whole query. -/
def query (ts : Tokens) : Except Refusal RawQuery :=
  match predicate ts with
  | .error e => .error e
  | .ok (predicate, rest) =>
    match sortClauses rest with
    | .error e => .error e
    | .ok (orders, rest) =>
      if rest.peek = .endOfInput then .ok ⟨predicate, orders⟩
      else refuse (if predicate.isSome ∧ orders = [] then .continuation else .endOfInput) rest

end Tokens

/-- The stretch of the first of the last `count` tokens. -/
def spanOfRest (tokens : List Token) (count : Nat) : Span :=
  (((tokens.drop (tokens.length - count)).head?.or tokens.getLast?).map Token.span).getD
    (.covering .start [])

/-- Reads a query from its text. -/
def RawQuery.parse (text : String) : Except ParseError RawQuery :=
  match tokenize text with
  | .error e => .error e
  | .ok tokens =>
    match Tokens.query (tokens.map Token.kind) with
    | .error r => .error ⟨r.fault, spanOfRest tokens r.rest.length⟩
    | .ok q => .ok q

end EntityQuery
