import EntityQuery.Token.Scan

/-!
Queries read from tokens.

    query     := [ or ] [ "order" "by" order { "," order } ] end
    or        := and { OR and }
    and       := primary { AND primary }
    primary   := "(" or ")" | condition
    condition := path operator [ operand ]
    path      := name [ "[" "]" ] { "." name [ "[" "]" ] }
    order     := path ( "asc" | "desc" )

A reader takes what it wants off the front of a list of tokens and returns the rest. When it cannot,
it returns the fault together with the tokens from the offending one on.
-/

namespace EntityQuery

/-- A list of tokens, without their positions. The end of the list counts as the end of input. -/
abbrev Tokens := List TokenKind

/-- A fault, and the tokens from the offending one on. -/
structure Refusal where
  fault : ParseFault
  rest : Tokens
  deriving DecidableEq

/-- What a reader of `α` returns: a fault, or what was read and the tokens after it. -/
abbrev Reading (α : Type) := Except Refusal (α × Tokens)

namespace Tokens

/-- The next token. -/
def peek (ts : Tokens) : TokenKind :=
  ts.headD .endOfInput

/-- Refuses the next token, where something else should stand. -/
def refuse {α : Type} (expected : Expectation) (ts : Tokens) : Except Refusal α :=
  .error ⟨.unexpectedToken expected ts.peek, ts⟩

/-- Whether the next token is a name that spells a word, in whatever case. -/
def startsWith (word : String) : Tokens → Bool
  | .name s :: _ => sameWord s word
  | _ => false

/-- Whether sort clauses come next. -/
def startsOrders (ts : Tokens) : Bool :=
  ts.startsWith "order" && Tokens.startsWith "by" ts.tail

/-- Takes a sign off the front. -/
def sign (s : Sign) : Tokens → Except Refusal Tokens
  | .sign t :: rest => if t = s then .ok rest else refuse (.sign s) (.sign t :: rest)
  | ts => refuse (.sign s) ts

/-- Reads a property path as its canonical text. -/
def path : Tokens → Reading String
  | .name n :: .sign .leftBracket :: .sign .rightBracket :: .sign .dot :: rest =>
    (path rest).map fun (p, rest) => (n ++ "[]." ++ p, rest)
  | .name n :: .sign .leftBracket :: .sign .rightBracket :: rest => .ok (n ++ "[]", rest)
  | .name _ :: .sign .leftBracket :: rest => refuse (.sign .rightBracket) rest
  | .name n :: .sign .dot :: rest => (path rest).map fun (p, rest) => (n ++ "." ++ p, rest)
  | .name n :: rest => .ok (n, rest)
  | ts => refuse .propertyName ts

/-- Reads an operator. -/
def operator : Tokens → Reading Operator
  | .sign .eq :: rest => .ok (.eq, rest)
  | .sign .ne :: rest => .ok (.ne, rest)
  | .sign .lt :: rest => .ok (.lt, rest)
  | .sign .le :: rest => .ok (.le, rest)
  | .sign .gt :: rest => .ok (.gt, rest)
  | .sign .ge :: rest => .ok (.ge, rest)
  | .keyword .like :: rest => .ok (.like, rest)
  | .keyword .ilike :: rest => .ok (.ilike, rest)
  | .keyword .contains :: rest => .ok (.contains, rest)
  | .keyword .isIn :: rest => .ok (.isIn, rest)
  | .keyword .not :: .keyword .like :: rest => .ok (.notLike, rest)
  | .keyword .not :: .keyword .ilike :: rest => .ok (.notIlike, rest)
  | .keyword .not :: .keyword .contains :: rest => .ok (.notContains, rest)
  | .keyword .not :: .keyword .isIn :: rest => .ok (.notIn, rest)
  | .keyword .not :: rest => refuse .negatable rest
  | .keyword .is :: .keyword .not :: rest => absence .isNotNull .isNotEmpty rest
  | .keyword .is :: rest => absence .isNull .isEmpty rest
  | ts => refuse .operator ts
where
  /-- Reads `null` or `empty` as one of two operators. -/
  absence (null empty : Operator) : Tokens → Reading Operator
    | .keyword .null :: rest => .ok (null, rest)
    | .name s :: rest =>
      if sameWord s "empty" then .ok (empty, rest) else refuse .absence (.name s :: rest)
    | ts => refuse .absence ts

/-- Reads a literal: a string, a number, `null`, a bare word or the call of a function. -/
def literal : Tokens → Reading Operand
  | .string s :: rest => .ok (.string s, rest)
  | .int i :: rest => .ok (.integer i, rest)
  | .float d :: rest => .ok (.decimal d, rest)
  | .keyword .null :: rest => .ok (.null, rest)
  | .name n :: .sign .leftParen :: rest =>
    match Function.ofName? n with
    | none => .error ⟨.unknownFunction n, .name n :: .sign .leftParen :: rest⟩
    | some f =>
      match rest with
      | .sign .rightParen :: rest => .ok (.function f, rest)
      | rest => .error ⟨.functionArguments f (peek rest), rest⟩
  | .name n :: rest => .ok (.word n, rest)
  | ts => refuse .value ts

theorem literal_length {ts rest : Tokens} {o : Operand} (h : literal ts = .ok (o, rest)) :
    rest.length < ts.length := by
  unfold literal at h
  split at h
  case h_5 n rest' =>
    split at h
    · exact absurd h (by simp)
    · split at h
      · simp only [Except.ok.injEq, Prod.mk.injEq] at h
        simp only [← h.2, List.length_cons]
        omega
      · exact absurd h (by simp)
  case h_7 => exact absurd h (by simp [refuse])
  all_goals
    simp only [Except.ok.injEq, Prod.mk.injEq] at h
    simp [← h.2]

/-- Reads one literal or more, separated by commas. -/
def literals (ts : Tokens) : Reading (List Operand) :=
  match h : literal ts with
  | .error e => .error e
  | .ok (o, .sign .comma :: rest) =>
    have : rest.length < ts.length := by
      have := literal_length h
      simp only [List.length_cons] at this
      omega
    (literals rest).map fun (os, rest) => (o :: os, rest)
  | .ok (o, rest) => .ok ([o], rest)
termination_by ts.length

/-- Reads the operand of an operator: a literal, or a list of them where one is allowed. The operand
of an operator on lists is a list even if it is written as a single literal. -/
def operand (op : Operator) : Tokens → Reading Operand
  | .sign .leftParen :: rest =>
    if op.acceptsList then
      match literals rest with
      | .error e => .error e
      | .ok (os, rest) => (sign .rightParen rest).map fun rest => (.list os, rest)
    else .error ⟨.listNotAllowed op, .sign .leftParen :: rest⟩
  | ts =>
    (literal ts).map fun (o, rest) => (if op.takesList then .list [o] else o, rest)

/-- Reads a condition. -/
def condition (ts : Tokens) : Reading RawCondition :=
  match path ts with
  | .error e => .error e
  | .ok (property, rest) =>
    match operator rest with
    | .error e => .error e
    | .ok (op, rest) =>
      if op.isUnary then .ok (⟨property, op, none⟩, rest)
      else (operand op rest).map fun (o, rest) => (⟨property, op, some o⟩, rest)

/-! ### Readers take something off the front -/

theorem sign_length {s : Sign} {ts rest : Tokens} (h : sign s ts = .ok rest) :
    rest.length < ts.length := by
  unfold sign at h
  split at h
  · split at h
    · simp only [Except.ok.injEq] at h
      simp [h]
    · exact absurd h (by simp [refuse])
  · exact absurd h (by simp [refuse])

theorem path_length {ts rest : Tokens} {p : String} (h : path ts = .ok (p, rest)) :
    rest.length < ts.length := by
  fun_induction path ts generalizing p with
  | case1 n more ih | case4 n more ih =>
    match hp : path more with
    | .error e => simp [hp, Except.map] at h
    | .ok (q, r) =>
      simp only [hp, Except.map, Except.ok.injEq, Prod.mk.injEq] at h
      have := ih (h.2 ▸ hp)
      simp only [List.length_cons]
      omega
  | case2 | case5 =>
    simp only [Except.ok.injEq, Prod.mk.injEq] at h
    simp only [← h.2, List.length_cons]
    omega
  | case3 | case6 => exact absurd h (by simp [refuse])

theorem absence_length {a b op : Operator} {ts rest : Tokens}
    (h : operator.absence a b ts = .ok (op, rest)) : rest.length < ts.length := by
  unfold operator.absence at h
  split at h
  · simp only [Except.ok.injEq, Prod.mk.injEq] at h
    simp [h.2]
  · split at h
    · simp only [Except.ok.injEq, Prod.mk.injEq] at h
      simp [h.2]
    · exact absurd h (by simp [refuse])
  · exact absurd h (by simp [refuse])

theorem operator_length {ts rest : Tokens} {op : Operator} (h : operator ts = .ok (op, rest)) :
    rest.length < ts.length := by
  unfold operator at h
  split at h
  case h_15 => exact absurd h (by simp [refuse])
  case h_16 | h_17 =>
    have := absence_length h
    simp only [List.length_cons]
    omega
  case h_18 => exact absurd h (by simp [refuse])
  all_goals
    simp only [Except.ok.injEq, Prod.mk.injEq] at h
    simp only [← h.2, List.length_cons]
    omega

theorem literals_length {ts rest : Tokens} {os : List Operand}
    (h : literals ts = .ok (os, rest)) : rest.length < ts.length := by
  fun_induction literals ts generalizing os with
  | case1 => simp at h
  | case2 ts o more hl _ ih =>
    have := literal_length hl
    match hp : literals more with
    | .error e => simp [hp, Except.map] at h
    | .ok (q, r) =>
      simp only [hp, Except.map, Except.ok.injEq, Prod.mk.injEq] at h
      have := ih (h.2 ▸ hp)
      simp only [List.length_cons] at *
      omega
  | case3 ts o more hne hl =>
    have := literal_length hl
    simp only [Except.ok.injEq, Prod.mk.injEq] at h
    simpa [← h.2] using this

theorem operand_length {op : Operator} {ts rest : Tokens} {o : Operand}
    (h : operand op ts = .ok (o, rest)) : rest.length < ts.length := by
  unfold operand at h
  split at h
  · split at h
    · split at h
      · simp at h
      · next more _ os r hl =>
        match hs : sign .rightParen r with
        | .error e => simp [hs, Except.map] at h
        | .ok r' =>
          simp only [hs, Except.map, Except.ok.injEq, Prod.mk.injEq] at h
          have h1 := literals_length hl
          have h2 := sign_length hs
          simp only [List.length_cons, ← h.2]
          omega
    · simp at h
  · match hl : literal ts with
    | .error e => simp [hl, Except.map] at h
    | .ok (q, r) =>
      simp only [hl, Except.map, Except.ok.injEq, Prod.mk.injEq] at h
      exact literal_length (h.2 ▸ hl)

theorem condition_length {ts rest : Tokens} {c : RawCondition}
    (h : condition ts = .ok (c, rest)) : rest.length < ts.length := by
  unfold condition at h
  match hp : path ts with
  | .error e => simp [hp] at h
  | .ok (property, r) =>
    match ho : operator r with
    | .error e => simp [hp, ho] at h
    | .ok (op, r') =>
      have h1 := path_length hp
      have h2 := operator_length ho
      simp only [hp, ho] at h
      split at h
      · simp only [Except.ok.injEq, Prod.mk.injEq] at h
        have := h.2
        subst this
        omega
      · match hd : operand op r' with
        | .error e => simp [hd, Except.map] at h
        | .ok (o, r'') =>
          simp only [hd, Except.map, Except.ok.injEq, Prod.mk.injEq] at h
          have h3 := operand_length hd
          have := h.2
          subst this
          omega

end Tokens

end EntityQuery
