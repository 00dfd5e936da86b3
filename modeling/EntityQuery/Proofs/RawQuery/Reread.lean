import EntityQuery.Proofs.RawQuery.WellFormed
import EntityQuery.RawQuery.Parse

/-!
# Written queries are read back

The text of a well-formed query has the tokens that the readers want: each part of the query is read
back from its own tokens, whatever follows them that does not belong to the part.
-/

namespace EntityQuery

/-- What may stand behind a part of a query. -/
def Boundary (rest : List Char) : Prop :=
  ∀ c ∈ rest.head?, c = ' ' ∨ c = ',' ∨ c = ')'

/-- A text is written with some tokens. -/
def Spells (text : String) (ts : Tokens) : Prop :=
  ∀ rest ks, Boundary rest → Lexes rest ks → Lexes (text.toList ++ rest) (ts ++ ks)

namespace Boundary

variable {rest : List Char}

lemma endsName (h : Boundary rest) : Lexeme.EndsName rest := by
  intro c hc
  rcases h c hc with rfl | rfl | rfl <;>
    exact Lexeme.continuesName_eq_false (by decide) rfl (by decide)

lemma endsNumber (h : Boundary rest) : Lexeme.EndsNumber rest := by
  intro c hc
  rcases h c hc with rfl | rfl | rfl <;> decide

lemma cons {c : Char} (h : c = ' ' ∨ c = ',' ∨ c = ')') : Boundary (c :: rest) := by
  intro d hd
  obtain rfl : c = d := by simpa using hd
  exact h

end Boundary

namespace Spells

variable {text text' : String} {ts ts' : Tokens}

lemma joined (h : Spells text ts) (h' : Spells text' ts') :
    Spells (text ++ " " ++ text') (ts ++ ts') := by
  intro rest ks stop hrest
  have hspace := (h' rest ks stop hrest).space
  have hlexes := h _ _ (.cons (.inl rfl)) hspace
  simpa using hlexes

lemma separated (h : Spells text ts) (h' : Spells text' ts') :
    Spells (text ++ ", " ++ text') (ts ++ .sign .comma :: ts') := by
  intro rest ks stop hrest
  have hcomma : Lexes (',' :: [] ++ (' ' :: (text'.toList ++ rest)))
      (.sign .comma :: (ts' ++ ks)) :=
    .cons rfl rfl (h' rest ks stop hrest).space
  have hlexes := h _ _ (.cons (.inr (.inl rfl))) hcomma
  simpa using hlexes

lemma enclosed (h : Spells text ts) :
    Spells ("(" ++ text ++ ")") (.sign .leftParen :: (ts ++ [.sign .rightParen])) := by
  intro rest ks stop hrest
  have hclose : Lexes (')' :: [] ++ rest) (.sign .rightParen :: ks) := .cons rfl rfl hrest
  have hinner := h _ _ (.cons (.inr (.inr rfl))) hclose
  have hopen : Lexes ('(' :: [] ++ (text.toList ++ (')' :: [] ++ rest)))
      (.sign .leftParen :: (ts ++ .sign .rightParen :: ks)) := .cons rfl rfl hinner
  simpa using hopen

/-- Words of ASCII letters, as the renderer writes them. -/
lemma word {c : Char} {cs : List Char} {kind : TokenKind} (hc : Lexeme.startsName c = true)
    (hcs : cs.all Lexeme.continuesName = true)
    (hkind : Lexeme.wordKind (c :: cs) = kind) (htext : text.toList = c :: cs) :
    Spells text [kind] := by
  intro rest ks stop hrest
  rw [htext, ← hkind]
  exact .word hc (List.all_eq_true.mp hcs) stop.endsName hrest

end Spells

namespace Tokens

/-- A reader takes a value off the front of the tokens of a text, whatever tokens follow that do not
belong to it. -/
def Retrieves {α : Type} (reader : Tokens → Reading α) (ends : Tokens → Prop) (text : String)
    (a : α) : Prop :=
  ∃ ts, Spells text ts ∧ ∀ more, ends more → reader (ts ++ more) = .ok (a, more)

/-- What is said of the next token is said of the first one. -/
lemma forall_mem_head? {P : TokenKind → Prop} {t : TokenKind} {ts : Tokens} (h : P t) :
    ∀ u ∈ (t :: ts).head?, P u := by
  intro u hu
  obtain rfl := Option.some.inj hu
  exact h

/-! ### Paths and operators -/

/-- The tokens of a step of a path. -/
def ofStep (name : String) (indexed : Bool) : Tokens :=
  .name name :: if indexed then [.sign .leftBracket, .sign .rightBracket] else []

lemma lexes_step {n : String} (hn : IsName n) (indexed : Bool) {rest : List Char} {ks : Tokens}
    (stop : Lexeme.EndsName rest) (h : Lexes rest ks) :
    Lexes ((stepText n indexed).toList ++ rest) (ofStep n indexed ++ ks) := by
  cases indexed with
  | false =>
    have hname := Lexes.name hn stop h
    simpa [stepText, ofStep] using hname
  | true =>
    have hclose : Lexes (']' :: [] ++ rest) (.sign .rightBracket :: ks) := .cons rfl rfl h
    have hopen : Lexes ('[' :: [] ++ (']' :: [] ++ rest))
        (.sign .leftBracket :: .sign .rightBracket :: ks) := .cons rfl rfl hclose
    have hbracket : Lexeme.EndsName ('[' :: [] ++ (']' :: [] ++ rest)) :=
      .cons (by decide) rfl (by decide)
    have hname := Lexes.name hn hbracket hopen
    simpa [stepText, ofStep] using hname

/-- No path goes on with these tokens. -/
def EndsPath (more : Tokens) : Prop :=
  ∀ t ∈ more.head?, t ≠ .sign .leftBracket ∧ t ≠ .sign .dot

lemma path_last (n : String) (indexed : Bool) {more : Tokens} (stop : EndsPath more) :
    path (ofStep n indexed ++ more) = .ok (stepText n indexed, more) := by
  have hdot : ∀ rest, more ≠ .sign .dot :: rest := by
    rintro rest rfl
    exact (stop _ rfl).2 rfl
  have hbracket : ∀ rest, more ≠ .sign .leftBracket :: rest := by
    rintro rest rfl
    exact (stop _ rfl).1 rfl
  cases indexed with
  | false =>
    have hpath : path (.name n :: more) = .ok (n, more) := by
      unfold path
      split <;> simp_all
    simpa [ofStep, stepText] using hpath
  | true =>
    have hpath : path (.name n :: .sign .leftBracket :: .sign .rightBracket :: more) =
        .ok (n ++ "[]", more) := by
      rw [path]
      exact hdot
    simpa [ofStep, stepText] using hpath

lemma path_step (n p : String) (indexed : Bool) {ts more : Tokens} (h : path ts = .ok (p, more)) :
    path (ofStep n indexed ++ .sign .dot :: ts) = .ok (stepText n indexed ++ "." ++ p, more) := by
  cases indexed with
  | false =>
    have hpath : path (.name n :: .sign .dot :: ts) = .ok (n ++ "." ++ p, more) := by
      rw [path, h]
      rfl
    simpa [ofStep, stepText] using hpath
  | true =>
    have hpath : path (.name n :: .sign .leftBracket :: .sign .rightBracket :: .sign .dot :: ts) =
        .ok (n ++ "[]." ++ p, more) := by
      rw [path, h]
      rfl
    rw [← stepText_true_dot]
    exact hpath

/-- **Paths** are read back. -/
lemma retrieves_path {p : String} (h : IsPath p) : Retrieves path EndsPath p p := by
  induction h with
  | @last n indexed name =>
    exact ⟨ofStep n indexed, fun rest ks stop h => lexes_step name indexed stop.endsName h,
      fun more stop => path_last n indexed stop⟩
  | @step n p indexed name _ ih =>
    obtain ⟨ts, hspells, hpath⟩ := ih
    refine ⟨ofStep n indexed ++ .sign .dot :: ts, fun rest ks stop h => ?_, fun more stop => ?_⟩
    · have hdot : Lexes ('.' :: [] ++ (p.toList ++ rest)) (.sign .dot :: (ts ++ ks)) :=
        .cons rfl rfl (hspells rest ks stop h)
      have hstop : Lexeme.EndsName ('.' :: [] ++ (p.toList ++ rest)) :=
        .cons (by decide) rfl (by decide)
      have hstep := lexes_step name indexed hstop hdot
      simpa using hstep
    · rw [List.append_assoc]
      exact path_step n p indexed (hpath more stop)

/-- The tokens of an operator. -/
def ofOperator : Operator → Tokens
  | .eq => [.sign .eq]
  | .ne => [.sign .ne]
  | .gt => [.sign .gt]
  | .ge => [.sign .ge]
  | .lt => [.sign .lt]
  | .le => [.sign .le]
  | .like => [.keyword .like]
  | .notLike => [.keyword .not, .keyword .like]
  | .ilike => [.keyword .ilike]
  | .notIlike => [.keyword .not, .keyword .ilike]
  | .contains => [.keyword .contains]
  | .notContains => [.keyword .not, .keyword .contains]
  | .isIn => [.keyword .isIn]
  | .notIn => [.keyword .not, .keyword .isIn]
  | .isNull => [.keyword .is, .keyword .null]
  | .isNotNull => [.keyword .is, .keyword .not, .keyword .null]
  | .isEmpty => [.keyword .is, .name "empty"]
  | .isNotEmpty => [.keyword .is, .keyword .not, .name "empty"]

lemma endsPath_ofOperator (op : Operator) (more : Tokens) : EndsPath (ofOperator op ++ more) := by
  cases op <;> exact forall_mem_head? (by decide)

lemma operator_ofOperator (op : Operator) (more : Tokens) :
    operator (ofOperator op ++ more) = .ok (op, more) := by
  cases op <;> rfl

lemma spells_operator (op : Operator) : Spells op.token (ofOperator op) := by
  have hnot : Spells "not" [.keyword .not] := .word rfl rfl rfl rfl
  have his : Spells "is" [.keyword .is] := .word rfl rfl rfl rfl
  have hlike : Spells "like" [.keyword .like] := .word rfl rfl rfl rfl
  have hilike : Spells "ilike" [.keyword .ilike] := .word rfl rfl rfl rfl
  have hcontains : Spells "contains" [.keyword .contains] := .word rfl rfl rfl rfl
  have hin : Spells "in" [.keyword .isIn] := .word rfl rfl rfl rfl
  have hnull : Spells "null" [.keyword .null] := .word rfl rfl rfl rfl
  have hempty : Spells "empty" [.name "empty"] := .word rfl rfl rfl rfl
  have hsign : ∀ (s : Sign) c cs, s.text.toList = c :: cs → Text.isSpace c = false →
      (∀ rest, Boundary rest → Lexeme.read c (cs ++ rest) = .ok (.sign s, cs.length)) →
      Spells s.text [.sign s] := by
    intro s c cs htext hspace hread rest ks stop hrest
    rw [htext]
    exact .cons hspace (hread rest stop) hrest
  have hpair : ∀ {text text' whole : String} {ts ts' : Tokens}, Spells text ts →
      Spells text' ts' → text ++ " " ++ text' = whole → Spells whole (ts ++ ts') := by
    rintro text text' whole ts ts' h h' rfl
    exact h.joined h'
  have hisNot : Spells "is not" [.keyword .is, .keyword .not] := hpair his hnot (by simp)
  have hcompare : ∀ rest, Boundary rest → Lexeme.read '<' rest = .ok (.sign .lt, 0) ∧
      Lexeme.read '>' rest = .ok (.sign .gt, 0) := by
    intro rest stop
    cases rest with
    | nil => exact ⟨rfl, rfl⟩
    | cons c rest => rcases stop c rfl with rfl | rfl | rfl <;> exact ⟨rfl, rfl⟩
  cases op with
  | eq => exact hsign .eq '=' [] rfl rfl fun _ _ => rfl
  | ne => exact hsign .ne '!' ['='] rfl rfl fun _ _ => rfl
  | gt => exact hsign .gt '>' [] rfl rfl fun rest stop => (hcompare rest stop).2
  | ge => exact hsign .ge '>' ['='] rfl rfl fun _ _ => rfl
  | lt => exact hsign .lt '<' [] rfl rfl fun rest stop => (hcompare rest stop).1
  | le => exact hsign .le '<' ['='] rfl rfl fun _ _ => rfl
  | like => exact hlike
  | notLike => exact hpair hnot hlike (by simp [Operator.token])
  | ilike => exact hilike
  | notIlike => exact hpair hnot hilike (by simp [Operator.token])
  | contains => exact hcontains
  | notContains => exact hpair hnot hcontains (by simp [Operator.token])
  | isIn => exact hin
  | notIn => exact hpair hnot hin (by simp [Operator.token])
  | isNull => exact hpair his hnull (by simp [Operator.token])
  | isNotNull => exact hpair hisNot hnull (by simp [Operator.token])
  | isEmpty => exact hpair his hempty (by simp [Operator.token])
  | isNotEmpty => exact hpair hisNot hempty (by simp [Operator.token])

/-! ### Operands -/

/-- No literal goes on with these tokens. -/
def EndsLiteral (more : Tokens) : Prop :=
  ∀ t ∈ more.head?, t ≠ .sign .leftParen

lemma literal_word (n : String) {more : Tokens} (stop : EndsLiteral more) :
    literal (.name n :: more) = .ok (.word n, more) := by
  unfold literal
  split <;> simp_all [EndsLiteral]

lemma spells_function (f : Function) :
    Spells f.call [.name f.name, .sign .leftParen, .sign .rightParen] := by
  intro rest ks stop hrest
  have hname : IsName f.name := by
    cases f <;> decide
  have hclose : Lexes (')' :: [] ++ rest) (.sign .rightParen :: ks) := .cons rfl rfl hrest
  have hopen : Lexes ('(' :: [] ++ (')' :: [] ++ rest))
      (.sign .leftParen :: .sign .rightParen :: ks) := .cons rfl rfl hclose
  have hparen : Lexeme.EndsName ('(' :: [] ++ (')' :: [] ++ rest)) :=
    .cons (by decide) rfl (by decide)
  have hcall := Lexes.name hname hparen hopen
  simpa [Function.call] using hcall

/-- **Literals** are read back. -/
lemma retrieves_literal {o : Operand} (h : o.IsLiteral) :
    Retrieves literal EndsLiteral o.text o := by
  cases h with
  | null =>
    have hnull : Spells "NULL" [.keyword .null] := .word rfl rfl rfl rfl
    exact ⟨[.keyword .null], hnull, fun _ _ => rfl⟩
  | string s => exact ⟨[.string s], fun _ _ _ h => .string s h, fun _ _ => rfl⟩
  | integer i =>
    exact ⟨[.int i], fun _ _ stop h => .integer i stop.endsNumber h, fun _ _ => rfl⟩
  | @decimal d finite =>
    exact ⟨[.float d], fun _ _ stop h => .decimal finite stop.endsNumber h, fun _ _ => rfl⟩
  | @word s name =>
    exact ⟨[.name s], fun _ _ stop h => .name name stop.endsName h,
      fun _ stop => literal_word s stop⟩
  | function f =>
    refine ⟨[.name f.name, .sign .leftParen, .sign .rightParen], spells_function f, fun _ _ => ?_⟩
    cases f <;> rfl

/-- No list of literals goes on with these tokens. -/
def EndsLiterals (more : Tokens) : Prop :=
  ∀ t ∈ more.head?, t ≠ .sign .leftParen ∧ t ≠ .sign .comma

lemma literals_last {ts more : Tokens} {o : Operand} (h : literal ts = .ok (o, more))
    (stop : EndsLiterals more) : literals ts = .ok ([o], more) := by
  have hcomma : ∀ rest, more ≠ .sign .comma :: rest := by
    rintro rest rfl
    exact (stop _ rfl).2 rfl
  rw [literals]
  split
  · simp_all
  · rename_i o' rest ho
    rw [h] at ho
    exact absurd (Prod.mk.inj (Except.ok.inj ho)).2 (hcomma rest)
  · simp_all

lemma literals_cons {ts rest more : Tokens} {o : Operand} {os : List Operand}
    (h : literal ts = .ok (o, .sign .comma :: rest)) (hrest : literals rest = .ok (os, more)) :
    literals ts = .ok (o :: os, more) := by
  rw [literals]
  split <;> simp_all [Except.map]

/-- Lists of literals are read back. -/
lemma retrieves_literals {texts : List String} {os : List Operand} (hne : os ≠ [])
    (h : List.Forall₂ (Retrieves literal EndsLiteral) texts os) :
    Retrieves literals EndsLiterals (String.intercalate ", " texts) os := by
  induction h with
  | nil => exact absurd rfl hne
  | @cons text o texts os hliteral hrest ih =>
    obtain ⟨ts, hspells, hread⟩ := hliteral
    cases hrest with
    | nil =>
      refine ⟨ts, by simpa using hspells, fun more stop => ?_⟩
      exact literals_last (hread more fun t ht => (stop t ht).1) stop
    | @cons text' o' texts os =>
      obtain ⟨ts', hspells', hread'⟩ := ih (by simp)
      refine ⟨ts ++ .sign .comma :: ts', ?_, fun more stop => ?_⟩
      · rw [String.intercalate_cons_cons]
        exact hspells.separated hspells'
      · have hcomma : EndsLiteral (.sign .comma :: (ts' ++ more)) :=
          forall_mem_head? (by decide)
        rw [List.append_assoc]
        exact literals_cons (hread _ hcomma) (hread' more stop)

/-- A literal on its own is the operand of an operator that takes no list. -/
lemma retrieves_single {op : Operator} {text : String} {o : Operand} (single : op.takesList = false)
    (h : Retrieves literal EndsLiteral text o) : Retrieves (operand op) EndsLiteral text o := by
  obtain ⟨ts, hspells, hread⟩ := h
  refine ⟨ts, hspells, fun more stop => ?_⟩
  have hmore := hread more stop
  generalize ts ++ more = all at hmore ⊢
  unfold operand
  split
  · cases hmore
  · rw [hmore, single]
    rfl

/-- A list of literals in parentheses is the operand of an operator that accepts one. -/
lemma retrieves_list {op : Operator} {texts : List String} {os : List Operand}
    (accepts : op.acceptsList = true) (hne : os ≠ [])
    (h : List.Forall₂ (Retrieves literal EndsLiteral) texts os) :
    Retrieves (operand op) EndsLiteral (Text.bracketed "(" ")" texts) (.list os) := by
  obtain ⟨ts, hspells, hread⟩ := retrieves_literals hne h
  rw [Text.bracketed]
  refine ⟨.sign .leftParen :: (ts ++ [.sign .rightParen]), hspells.enclosed, fun more _ => ?_⟩
  have hparen : EndsLiterals (.sign .rightParen :: more) := forall_mem_head? (by decide)
  have hmore := hread _ hparen
  rw [List.cons_append, List.append_assoc, List.singleton_append, operand, if_pos accepts, hmore]
  rfl

lemma retrieves_literals_all {os : List Operand} (h : ∀ o ∈ os, o.IsLiteral) :
    List.Forall₂ (Retrieves literal EndsLiteral) (Operand.texts os) os := by
  induction os with
  | nil => exact .nil
  | cons o os ih =>
    rw [List.forall_mem_cons] at h
    exact .cons (retrieves_literal h.1) (ih h.2)

/-- **Operands** are read back. -/
lemma retrieves_operand {op : Operator} {o : Operand} (h : op.Takes (some o)) :
    Retrieves (operand op) EndsLiteral o.text o := by
  cases h with
  | literal _ single hliteral => exact retrieves_single single (retrieves_literal hliteral)
  | list accepts filled literals =>
    exact retrieves_list accepts filled (retrieves_literals_all literals)

/-! ### Conditions -/

variable {property : String} {op : Operator}

lemma retrieves_unary (hproperty : IsPath property) (unary : op.isUnary = true) :
    Retrieves condition EndsLiteral (property ++ " " ++ op.token) ⟨property, op, none⟩ := by
  obtain ⟨ts, hspells, hpath⟩ := retrieves_path hproperty
  refine ⟨ts ++ ofOperator op, hspells.joined (spells_operator op), fun more _ => ?_⟩
  rw [List.append_assoc]
  simp only [condition, hpath _ (endsPath_ofOperator op more), operator_ofOperator, unary, if_true]

lemma retrieves_binary {text : String} {o : Operand} (hproperty : IsPath property)
    (binary : op.isUnary = false) (h : Retrieves (operand op) EndsLiteral text o) :
    Retrieves condition EndsLiteral (property ++ " " ++ op.token ++ " " ++ text)
      ⟨property, op, some o⟩ := by
  obtain ⟨ts, hspells, hpath⟩ := retrieves_path hproperty
  obtain ⟨ts', hspells', hread⟩ := h
  refine ⟨ts ++ ofOperator op ++ ts', (hspells.joined (spells_operator op)).joined hspells',
    fun more stop => ?_⟩
  rw [List.append_assoc, List.append_assoc]
  simp only [condition, hpath _ (endsPath_ofOperator op (ts' ++ more)), operator_ofOperator, binary,
    Bool.false_eq_true, if_false, hread more stop, Except.map]

/-- **Conditions** are read back. -/
lemma retrieves_condition {c : RawCondition} (h : c.WellFormed) :
    Retrieves condition EndsLiteral c.text c := by
  obtain ⟨property, op, operand?⟩ := c
  obtain ⟨hproperty, hoperand⟩ := h
  cases operand? with
  | none =>
    have hunary : op.isUnary = true := by
      cases hoperand
      assumption
    have htext : RawCondition.text ⟨property, op, none⟩ = property ++ " " ++ op.token := by
      simp [RawCondition.text]
    rw [htext]
    exact retrieves_unary hproperty hunary
  | some o =>
    have hbinary : op.isUnary = false := by
      cases hoperand with
      | literal binary => exact binary
      | list accepts => cases op <;> simp_all [Operator.acceptsList, Operator.isUnary]
    have htext : RawCondition.text ⟨property, op, some o⟩ =
        property ++ " " ++ op.token ++ " " ++ o.text := by
      simp [RawCondition.text, String.append_assoc]
    rw [htext]
    exact retrieves_binary hproperty hbinary (retrieves_operand hoperand)

end Tokens

end EntityQuery
