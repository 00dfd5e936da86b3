import EntityQuery.Proofs.Predicate.Flat
import EntityQuery.Proofs.RawQuery.Reread

/-!
# The grammar of queries

Which tokens are which part of a query, as relations between a phrase and what it stands for. They
say nothing about how a phrase is found among other tokens. The tree that a phrase stands for is that
of its derivation: every `or` and every `and` of the grammar is a junction in it, with a single item
or many.
-/

namespace EntityQuery.Grammar

open Tokens

/-- A property path: names with dots between them, each with or without brackets. -/
inductive Path : Tokens → String → Prop where
  | last (n : String) (indexed : Bool) : Path (ofStep n indexed) (stepText n indexed)
  | step (n : String) (indexed : Bool) {ts : Tokens} {p : String} (rest : Path ts p) :
      Path (ofStep n indexed ++ .sign .dot :: ts) (stepText n indexed ++ "." ++ p)

/-- The spellings of an operator. The word `empty` is no reserved word, so its case is left. -/
inductive Spelling : Tokens → Operator → Prop where
  | operator (op : Operator) : Spelling (ofOperator op) op
  | isEmpty {s : String} (empty : sameWord s "empty" = true) :
      Spelling [.keyword .is, .name s] .isEmpty
  | isNotEmpty {s : String} (empty : sameWord s "empty" = true) :
      Spelling [.keyword .is, .keyword .not, .name s] .isNotEmpty

/-- A single value: a string, a number, `null`, a bare word or the call of a function. -/
inductive Literal : Tokens → Operand → Prop where
  | string (s : String) : Literal [.string s] (.string s)
  | integer (i : Int64) : Literal [.int i] (.integer i)
  | decimal (d : Double) : Literal [.float d] (.decimal d)
  | null : Literal [.keyword .null] .null
  | word (s : String) : Literal [.name s] (.word s)
  | call (f : Function) {s : String} (name : sameWord f.name s = true) :
      Literal [.name s, .sign .leftParen, .sign .rightParen] (.function f)

/-- Single values with commas between them. -/
inductive Literals : Tokens → List Operand → Prop where
  | last {ts : Tokens} {o : Operand} (literal : Literal ts o) : Literals ts [o]
  | more {ts ts' : Tokens} {o : Operand} {os : List Operand} (literal : Literal ts o)
      (rest : Literals ts' os) : Literals (ts ++ .sign .comma :: ts') (o :: os)

/-- What stands behind an operator: nothing if it is unary, and else a single value, or a list in
parentheses if it accepts one. A single value counts as a list where one is wanted. -/
inductive Argument (op : Operator) : Tokens → Option Operand → Prop where
  | nothing (unary : op.isUnary = true) : Argument op [] none
  | single {ts : Tokens} {o : Operand} (binary : op.isUnary = false)
      (plain : op.takesList = false) (literal : Literal ts o) : Argument op ts (some o)
  | alone {ts : Tokens} {o : Operand} (wanted : op.takesList = true) (literal : Literal ts o) :
      Argument op ts (some (.list [o]))
  | list {ts : Tokens} {os : List Operand} (accepted : op.acceptsList = true)
      (literals : Literals ts os) :
      Argument op (.sign .leftParen :: (ts ++ [.sign .rightParen])) (some (.list os))

/-- A path, an operator and what stands behind the operator. -/
inductive Condition : Tokens → RawCondition → Prop where
  | mk {ts ts' ts'' : Tokens} {p : String} {op : Operator} {o? : Option Operand}
      (property : Path ts p) (operator : Spelling ts' op) (operand : Argument op ts'' o?) :
      Condition (ts ++ ts' ++ ts'') ⟨p, op, o?⟩

mutual

/-- An item of a junction. Those of a disjunction are conjunctions, and those of a conjunction are
conditions and disjunctions in parentheses. -/
inductive Item : Junction → Tokens → Predicate RawCondition → Prop where
  | condition {ts : Tokens} {c : RawCondition} (h : Condition ts c) : Item .and ts (.cond c)
  | enclosed {ts : Tokens} {ps : List (Predicate RawCondition)} (h : Items .or ts ps) :
      Item .and (.sign .leftParen :: (ts ++ [.sign .rightParen])) (.or ps)
  | conjunction {ts : Tokens} {ps : List (Predicate RawCondition)} (h : Items .and ts ps) :
      Item .or ts (.and ps)

/-- The items of a junction, with connectives between them. -/
inductive Items : Junction → Tokens → List (Predicate RawCondition) → Prop where
  | last {j : Junction} {ts : Tokens} {p : Predicate RawCondition} (item : Item j ts p) :
      Items j ts [p]
  | more {j : Junction} {ts ts' : Tokens} {p : Predicate RawCondition}
      {ps : List (Predicate RawCondition)} (item : Item j ts p) (rest : Items j ts' ps) :
      Items j (ts ++ .keyword j.keyword :: ts') (p :: ps)

end

/-- A sort clause: a path and its direction, which is not left out. -/
inductive Clause : Tokens → Order String → Prop where
  | ascending {ts : Tokens} {p s : String} (property : Path ts p)
      (word : sameWord s "asc" = true) : Clause (ts ++ [.name s]) ⟨p, .ascending⟩
  | descending {ts : Tokens} {p s : String} (property : Path ts p)
      (word : sameWord s "desc" = true) : Clause (ts ++ [.name s]) ⟨p, .descending⟩

/-- Sort clauses with commas between them. -/
inductive Clauses : Tokens → List (Order String) → Prop where
  | last {ts : Tokens} {o : Order String} (clause : Clause ts o) : Clauses ts [o]
  | more {ts ts' : Tokens} {o : Order String} {os : List (Order String)} (clause : Clause ts o)
      (rest : Clauses ts' os) : Clauses (ts ++ .sign .comma :: ts') (o :: os)

/-- The predicate of a query, which may be left out. -/
inductive Selection : Tokens → Option (Predicate RawCondition) → Prop where
  | nothing : Selection [] none
  | items {ts : Tokens} {ps : List (Predicate RawCondition)} (h : Items .or ts ps) :
      Selection ts (some (.or ps))

/-- The sort clauses of a query, which may be left out together with the words before them. -/
inductive Sorting : Tokens → List (Order String) → Prop where
  | nothing : Sorting [] []
  | clauses {ts : Tokens} {a b : String} {os : List (Order String)}
      (order : sameWord a "order" = true) (by' : sameWord b "by" = true) (h : Clauses ts os) :
      Sorting (.name a :: .name b :: ts) os

/-- A whole query: its predicate, its sort clauses and the end of the text. -/
inductive Sentence : Tokens → RawQuery → Prop where
  | mk {ts ts' : Tokens} {p? : Option (Predicate RawCondition)} {os : List (Order String)}
      (selection : Selection ts p?) (sorting : Sorting ts' os) :
      Sentence (ts ++ ts' ++ [.endOfInput]) ⟨p?, os⟩

/-! ### Derivations have no empty junctions -/

lemma Items.ne_nil {j : Junction} {ts : Tokens} {ps : List (Predicate RawCondition)}
    (h : Items j ts ps) : ps ≠ [] := by
  cases h <;> simp

mutual

lemma Item.filled {j : Junction} {ts : Tokens} {p : Predicate RawCondition} :
    Item j ts p → p.Filled
  | .condition _ => .cond _
  | .enclosed h => .junction .or h.ne_nil h.filled
  | .conjunction h => .junction .and h.ne_nil h.filled

lemma Items.filled {j : Junction} {ts : Tokens} {ps : List (Predicate RawCondition)} :
    Items j ts ps → ∀ p ∈ ps, p.Filled
  | .last h => List.forall_mem_singleton.mpr h.filled
  | .more h rest => List.forall_mem_cons.mpr ⟨h.filled, rest.filled⟩

end

lemma Selection.filled {ts : Tokens} {p? : Option (Predicate RawCondition)} (h : Selection ts p?) :
    ∀ p ∈ p?, p.Filled := by
  rintro p hp
  cases h with
  | nothing => cases hp
  | items h =>
    obtain rfl := Option.some.inj hp
    exact .junction .or h.ne_nil h.filled

/-! ### The end of the text stands at the end only -/

variable {ts : Tokens}

lemma end_notMem_step (n : String) (indexed : Bool) : .endOfInput ∉ ofStep n indexed := by
  cases indexed <;> simp [ofStep]

lemma Path.end_notMem {p : String} (h : Path ts p) : .endOfInput ∉ ts := by
  induction h with
  | last n indexed => exact end_notMem_step n indexed
  | step n indexed _ ih => simp [end_notMem_step n indexed, ih]

lemma Spelling.end_notMem {op : Operator} (h : Spelling ts op) : .endOfInput ∉ ts := by
  cases h with
  | operator => cases op <;> simp [ofOperator]
  | isEmpty => simp
  | isNotEmpty => simp

lemma Literal.end_notMem {o : Operand} (h : Literal ts o) : .endOfInput ∉ ts := by
  cases h <;> simp

lemma Literals.end_notMem {os : List Operand} (h : Literals ts os) : .endOfInput ∉ ts := by
  induction h with
  | last literal => exact literal.end_notMem
  | more literal _ ih => simp [literal.end_notMem, ih]

lemma Argument.end_notMem {op : Operator} {o? : Option Operand} (h : Argument op ts o?) :
    .endOfInput ∉ ts := by
  cases h with
  | nothing => simp
  | single _ _ literal => exact literal.end_notMem
  | alone _ literal => exact literal.end_notMem
  | list _ literals => simp [literals.end_notMem]

lemma Condition.end_notMem {c : RawCondition} (h : Condition ts c) : .endOfInput ∉ ts := by
  obtain ⟨property, operator, operand⟩ := h
  simp [property.end_notMem, operator.end_notMem, operand.end_notMem]

mutual

lemma Item.end_notMem {j : Junction} {ts : Tokens} {p : Predicate RawCondition} :
    Item j ts p → .endOfInput ∉ ts
  | .condition h => h.end_notMem
  | .enclosed h => by simp [h.end_notMem]
  | .conjunction h => h.end_notMem

lemma Items.end_notMem {j : Junction} {ts : Tokens} {ps : List (Predicate RawCondition)} :
    Items j ts ps → .endOfInput ∉ ts
  | .last h => h.end_notMem
  | .more h rest => by simp [h.end_notMem, rest.end_notMem]

end

lemma Clause.end_notMem {o : Order String} (h : Clause ts o) : .endOfInput ∉ ts := by
  cases h with
  | ascending property => simp [property.end_notMem]
  | descending property => simp [property.end_notMem]

lemma Clauses.end_notMem {os : List (Order String)} (h : Clauses ts os) : .endOfInput ∉ ts := by
  induction h with
  | last clause => exact clause.end_notMem
  | more clause _ ih => simp [clause.end_notMem, ih]

lemma Selection.end_notMem {p? : Option (Predicate RawCondition)} (h : Selection ts p?) :
    .endOfInput ∉ ts := by
  cases h with
  | nothing => simp
  | items h => exact h.end_notMem

lemma Sorting.end_notMem {os : List (Order String)} (h : Sorting ts os) : .endOfInput ∉ ts := by
  cases h with
  | nothing => simp
  | clauses _ _ h => simp [h.end_notMem]

end EntityQuery.Grammar
