import EntityQuery.Proofs.Grammar.Phrases
import EntityQuery.Proofs.RawQuery.RereadWhole

/-!
# Phrases are read

Each reader takes a phrase of its part of the grammar off the front of any tokens that do not go on
with it. Of the tree of a predicate it returns the flat form.
-/

namespace EntityQuery

/-- The query with its predicate flattened. -/
def RawQuery.flattened (q : RawQuery) : RawQuery :=
  ⟨q.predicate.map Predicate.flattened, q.orders⟩

namespace Grammar

open Tokens

variable {ts more : Tokens}

/-! ### Conditions -/

lemma Path.read {p : String} (h : Path ts p) (stop : EndsPath more) :
    path (ts ++ more) = .ok (p, more) := by
  induction h with
  | last n indexed => exact path_last n indexed stop
  | step n indexed _ ih =>
    rw [List.append_assoc]
    exact path_step n _ indexed ih

lemma Spelling.endsPath {op : Operator} (h : Spelling ts op) : EndsPath (ts ++ more) := by
  cases h with
  | operator => exact endsPath_ofOperator op more
  | isEmpty => exact forall_mem_head? (by decide)
  | isNotEmpty => exact forall_mem_head? (by decide)

lemma Spelling.read {op : Operator} (h : Spelling ts op) :
    Tokens.operator (ts ++ more) = .ok (op, more) := by
  cases h with
  | operator => exact operator_ofOperator op more
  | isEmpty empty => simp [Tokens.operator, operator.absence, empty]
  | isNotEmpty empty => simp [Tokens.operator, operator.absence, empty]

lemma sameWord_iff {a b : String} :
    sameWord a b = true ↔ a.toList.map Char.toLower = b.toList.map Char.toLower :=
  beq_iff_eq

lemma ofName?_eq_some {f : Function} {s : String} :
    Function.ofName? s = some f ↔ sameWord f.name s = true := by
  constructor
  · intro h
    have hfind : Function.all.find? (fun g => sameWord g.name s) = some f := h
    simpa using List.find?_some hfind
  · intro h
    -- the three names differ, so the first function of this name is the only one
    have hfind : Function.all.find? (fun g => sameWord g.name s) =
        Function.all.find? fun g => sameWord g.name f.name := by
      simp only [sameWord, sameWord_iff.mp h]
    rw [Function.ofName?, hfind]
    cases f <;> rfl

lemma Literal.read {o : Operand} (h : Literal ts o) (stop : EndsLiteral more) :
    literal (ts ++ more) = .ok (o, more) := by
  cases h with
  | word s => exact literal_word s stop
  | call f name => simp [literal, ofName?_eq_some.mpr name]
  | _ => rfl

lemma Literals.read {os : List Operand} (h : Literals ts os) (stop : EndsLiterals more) :
    literals (ts ++ more) = .ok (os, more) := by
  induction h with
  | last literal => exact literals_last (literal.read fun t ht => (stop t ht).1) stop
  | more literal _ ih =>
    rw [List.append_assoc]
    exact literals_cons (literal.read (forall_mem_head? (by decide))) ih

/-- A literal does not begin with a parenthesis. -/
lemma operand_of_literal {op : Operator} {o : Operand} (h : literal ts = .ok (o, more)) :
    operand op ts = .ok (if op.takesList then .list [o] else o, more) := by
  unfold operand
  split
  · cases h
  · rw [h]
    rfl

lemma Argument.read {op : Operator} {o : Operand} (h : Argument op ts (some o))
    (stop : EndsLiteral more) : operand op (ts ++ more) = .ok (o, more) := by
  cases h with
  | single _ plain literal =>
    rw [operand_of_literal (literal.read stop), plain]
    rfl
  | alone wanted literal =>
    rw [operand_of_literal (literal.read stop), if_pos wanted]
  | list accepted literals =>
    have hparen : EndsLiterals (.sign .rightParen :: more) := forall_mem_head? (by decide)
    rw [List.cons_append, List.append_assoc, List.singleton_append, operand, if_pos accepted,
      literals.read hparen]
    rfl

lemma Argument.binary {op : Operator} {o : Operand} (h : Argument op ts (some o)) :
    op.isUnary = false := by
  cases h with
  | single binary => exact binary
  | alone wanted => cases op <;> first | rfl | cases wanted
  | list accepted => cases op <;> first | rfl | cases accepted

/-- **Conditions** of the grammar are read. -/
lemma Condition.read {c : RawCondition} (h : Condition ts c) (stop : EndsLiteral more) :
    condition (ts ++ more) = .ok (c, more) := by
  obtain @⟨ts, ts', ts'', p, op, o?, property, operator, operand⟩ := h
  have hpath : path (ts ++ (ts' ++ (ts'' ++ more))) = .ok (p, ts' ++ (ts'' ++ more)) :=
    property.read operator.endsPath
  have hoperator : Tokens.operator (ts' ++ (ts'' ++ more)) = .ok (op, ts'' ++ more) :=
    operator.read
  simp only [List.append_assoc, condition, hpath, hoperator]
  cases o? with
  | none =>
    obtain ⟨unary⟩ := operand
    rw [if_pos unary, List.nil_append]
  | some o =>
    rw [operand.binary, if_neg (by decide), operand.read stop]
    rfl

/-! ### Predicates -/

/-- Neither an item of a junction nor what is read inside it goes on with these tokens. -/
structure EndsItem (j : Junction) (more : Tokens) : Prop where
  literal : EndsLiteral more
  inner : j = .or → EndsItems .and more

lemma EndsItem.connective (j : Junction) : EndsItem j (.keyword j.keyword :: more) := by
  refine ⟨forall_mem_head? (by simp), ?_⟩
  rintro rfl
  exact forall_mem_head? (by decide)

lemma readsJunction_flattened {j : Junction} {ps : List (Predicate RawCondition)}
    (h : Items j ts ps)
    (hread : ReadsMore j (.keyword j.keyword :: (ts ++ more)) (ps.map Predicate.flattened) more) :
    ReadsJunction j (ts ++ more) (Predicate.junction j ps).flattened more := by
  rw [Predicate.flattened_junction]
  exact readsJunction_of_readsMore (by simpa using h.ne_nil) hread

mutual

/-- **Items** of the grammar are read. -/
lemma Item.read {j : Junction} {ts more : Tokens} {p : Predicate RawCondition} :
    Item j ts p → EndsItem j more → ReadsItem j (ts ++ more) p.flattened more
  | .condition h, stop => by
    rw [Predicate.flattened]
    exact readsItem_condition (h.read stop.literal)
  | .enclosed h, _ => by
    have hparen : EndsItem .or (.sign .rightParen :: more) :=
      ⟨forall_mem_head? (by decide), fun _ => forall_mem_head? (by decide)⟩
    have hread := readsJunction_flattened h (h.read hparen (forall_mem_head? (by decide)))
    rw [List.cons_append, List.append_assoc]
    exact readsItem_enclosed hread
  | .conjunction h, stop => by
    have hand : EndsItem .and more := ⟨stop.literal, by simp⟩
    exact readsItem_or (readsJunction_flattened h (h.read hand (stop.inner rfl)))

/-- Further items of the grammar are read. -/
lemma Items.read {j : Junction} {ts more : Tokens} {ps : List (Predicate RawCondition)} :
    Items j ts ps → EndsItem j more → EndsItems j more →
      ReadsMore j (.keyword j.keyword :: (ts ++ more)) (ps.map Predicate.flattened) more
  | .last h, stop, stops => readsMore_cons (h.read stop) (readsMore_nil stops)
  | .more h rest, stop, stops => by
    rw [List.append_assoc]
    exact readsMore_cons (h.read (.connective j)) (rest.read stop stops)

end

/-! ### Sort clauses and queries -/

lemma Clause.read {o : Order String} (h : Clause ts o) : order (ts ++ more) = .ok (o, more) := by
  cases h with
  | @ascending ts p s property word =>
    have hstop : EndsPath (.name s :: more) := forall_mem_head? (by simp)
    simp [order, property.read hstop, startsWith, word]
  | @descending ts p s property word =>
    have hstop : EndsPath (.name s :: more) := forall_mem_head? (by simp)
    have hasc : sameWord s "asc" = false := by
      rw [sameWord, sameWord_iff.mp word]
      rfl
    simp [order, property.read hstop, startsWith, word, hasc]

lemma Clauses.read {os : List (Order String)} (h : Clauses ts os) :
    orders (ts ++ [.endOfInput]) = .ok (os, [.endOfInput]) := by
  induction h with
  | last clause => exact orders_last clause.read (by simp)
  | more clause _ ih =>
    rw [List.append_assoc]
    exact orders_cons clause.read ih

lemma Sorting.ends {os : List (Order String)} (h : Sorting ts os) :
    Ends (ts ++ [.endOfInput]) os := by
  cases h with
  | nothing => exact ends_nil
  | @clauses ts a b os order by' h =>
    have hstarts : startsOrders (.name a :: .name b :: ts ++ [.endOfInput]) = true := by
      simp [startsOrders, startsWith, order, by']
    refine ⟨.cons (by simp) (by simp), not_not.mpr (.inr hstarts), ?_⟩
    rw [sortClauses, if_pos hstarts]
    exact h.read

/-- **Queries** of the grammar are read, and what is read is flat. -/
theorem Sentence.read {q : RawQuery} (h : Sentence ts q) : query ts = .ok q.flattened := by
  obtain @⟨ts, ts', p?, os, selection, sorting⟩ := h
  have hends := sorting.ends
  rw [List.append_assoc]
  cases selection with
  | nothing => exact query_none hends
  | items h =>
    have hread := h.read ⟨hends.1.literal, fun _ => hends.1.items .and⟩ (hends.1.items .or)
    exact query_some (readsJunction_flattened h hread) hends

end Grammar

end EntityQuery
