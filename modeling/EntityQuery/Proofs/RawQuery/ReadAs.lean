import EntityQuery.Proofs.RawQuery.RereadWhole

/-!
# Conditions are read as their operators want

A condition may be written with any operator and any operand. An operator on lists takes a literal on
its own as a list of one. Where an operator takes no operand, or no list, the text is no query.
-/

namespace EntityQuery

namespace Operand

/-- An operand that can be written: a literal, or a list of some. -/
def IsWritten : Operand → Prop
  | list items => items ≠ [] ∧ ∀ o ∈ items, o.IsLiteral
  | o => o.IsLiteral

lemma IsLiteral.isWritten {o : Operand} (h : o.IsLiteral) : o.IsWritten := by
  cases h with
  | word name => exact .word name
  | decimal finite => exact .decimal finite
  | _ => constructor

end Operand

/-- What an operator takes a written operand for. -/
def Operator.readAs? (op : Operator) (o : Operand) : Option Operand :=
  if op.isUnary then none
  else
    match o with
    | .list items => if op.acceptsList then some (.list items) else none
    | o => some (if op.takesList then .list [o] else o)

lemma Operator.isUnary_eq_false_of_readAs? {op : Operator} {o o' : Operand}
    (h : op.readAs? o = some o') : op.isUnary = false := by
  unfold readAs? at h
  split at h
  · cases h
  · rename_i hunary
    simpa using hunary

/-- Only lists are refused by operators that take an operand. -/
lemma Operator.exists_list_of_readAs? {op : Operator} {o : Operand} (binary : op.isUnary = false)
    (h : op.readAs? o = none) : ∃ items, o = .list items ∧ op.acceptsList = false := by
  cases o with
  | list items => exact ⟨items, rfl, by simpa [readAs?, binary] using h⟩
  | _ => simp [readAs?, binary] at h

namespace Tokens

variable {op : Operator} {text property : String} {o : Operand} {ts rest more : Tokens}

/-- A literal on its own is the only element of the list that an operator wants. -/
lemma retrieves_wrapped (list : op.takesList = true) (h : Retrieves literal EndsLiteral text o) :
    Retrieves (operand op) EndsLiteral text (.list [o]) := by
  obtain ⟨ts, hspells, hread⟩ := h
  refine ⟨ts, hspells, fun more stop => ?_⟩
  have hmore := hread more stop
  generalize ts ++ more = all at hmore ⊢
  unfold operand
  split
  · cases hmore
  · rw [hmore, list]
    rfl

/-- What an operator takes an operand for is read from the operand's text. -/
lemma retrieves_readAs {o' : Operand} (written : o.IsWritten) (h : op.readAs? o = some o') :
    Retrieves (operand op) EndsLiteral o.text o' := by
  have hliteral : o.IsLiteral → (if op.takesList then .list [o] else o) = o' →
      Retrieves (operand op) EndsLiteral o.text o' := by
    rintro hliteral rfl
    cases hlist : op.takesList with
    | true => exact retrieves_wrapped hlist (retrieves_literal hliteral)
    | false => exact retrieves_single hlist (retrieves_literal hliteral)
  unfold Operator.readAs? at h
  split at h
  · cases h
  · split at h
    · rename_i items
      split at h
      · rename_i accepts
        obtain rfl := Option.some.inj h
        exact retrieves_list accepts written.1 (retrieves_literals_all written.2)
      · cases h
    · exact hliteral (by cases o <;> first | exact written | simp_all) (Option.some.inj h)

/-- The tokens of an operand that could not be the end of a query. -/
def Leftover (ts : Tokens) : Prop :=
  (∀ j, EndsItems j ts) ∧ ts.startsOrders = false ∧ ts.peek ≠ .endOfInput

lemma leftover_of_literal (h : literal ts = .ok (o, [.endOfInput])) : Leftover ts := by
  refine ⟨fun j t ht hj => ?_, Bool.eq_false_iff.mpr fun horders => ?_, fun hend => ?_⟩
  · cases ts with
    | nil => cases ht
    | cons u ts =>
      obtain rfl := Option.some.inj ht
      subst hj
      cases j <;> cases h
  · rw [startsOrders, Bool.and_eq_true] at horders
    obtain ⟨a, ts, rfl⟩ := exists_name_of_startsWith horders.1
    obtain ⟨b, ts, rfl⟩ := exists_name_of_startsWith horders.2
    cases h
  · cases ts with
    | nil => cases h
    | cons u ts =>
      obtain rfl : u = .endOfInput := hend
      cases h

lemma leftover_leftParen (ts : Tokens) : Leftover (.sign .leftParen :: ts) :=
  ⟨fun j => forall_mem_head? (by cases j <;> decide), rfl, by simp [peek]⟩

/-- The tokens of a written operand, which no query ends with unless they are taken. -/
lemma exists_leftover (written : o.IsWritten) :
    ∃ ts, Spells o.text ts ∧ Leftover (ts ++ [.endOfInput]) ∧
      ∀ items, o = .list items → ∃ ts', ts = .sign .leftParen :: ts' := by
  have hliteral : o.IsLiteral → ∃ ts, Spells o.text ts ∧ Leftover (ts ++ [.endOfInput]) := by
    intro h
    obtain ⟨ts, hspells, hread⟩ := retrieves_literal h
    exact ⟨ts, hspells, leftover_of_literal (hread _ (forall_mem_head? (by decide)))⟩
  cases o with
  | list items =>
    obtain ⟨ts, hspells, -⟩ := retrieves_literals written.1 (retrieves_literals_all written.2)
    exact ⟨_, hspells.enclosed, leftover_leftParen _, fun _ _ => ⟨_, rfl⟩⟩
  | _ =>
    obtain ⟨ts, hspells, hleft⟩ := hliteral written
    exact ⟨ts, hspells, hleft, fun _ h => by cases h⟩

lemma startsPredicate_of_path (h : path ts = .ok (property, ofOperator op ++ rest)) :
    StartsPredicate ts := by
  have hname : ∀ n more, ofOperator op ++ rest ≠ .name n :: more := by
    cases op <;> simp [ofOperator]
  rintro (hend | horders)
  · cases ts with
    | nil => cases h
    | cons t ts =>
      obtain rfl : t = .endOfInput := hend
      cases h
  · rw [startsOrders, Bool.and_eq_true] at horders
    obtain ⟨a, ts, rfl⟩ := exists_name_of_startsWith horders.1
    obtain ⟨b, ts, rfl⟩ := exists_name_of_startsWith horders.2
    have hends : EndsPath (.name b :: ts) := forall_mem_head? (by simp)
    have hpath := path_last a false hends
    exact hname b ts (congrArg Prod.snd (Except.ok.inj (h.symm.trans hpath)))

lemma ReadsMore.of_ends {j : Junction} {ps : List (Predicate RawCondition)} (h : ReadsMore j ts ps more)
    (ends : EndsItems j ts) : more = ts := by
  rcases h.nil_or_cons with ⟨-, rfl⟩ | ⟨ts', q, qs, rest, rfl, -⟩
  · rfl
  · exact absurd rfl (ends _ rfl)

/-- A query that begins with a path and an operator begins with a condition, and what is left of it
could be left. -/
lemma exists_condition_of_query {q : RawQuery} (h : query ts = .ok q)
    (hread : path ts = .ok (property, ofOperator op ++ rest)) :
    ∃ c more, condition ts = .ok (c, more) ∧ ¬ Leftover more := by
  have hstarts := startsPredicate_of_path hread
  rw [query, predicate, if_neg hstarts] at h
  cases hjunction : junction .or ts with
  | error e => simp [hjunction] at h
  | ok first =>
    obtain ⟨p, final, hlt⟩ := first
    obtain ⟨p', qs, rest', hitem, hor, -⟩ := ReadsJunction.exists_items ⟨hlt, hjunction⟩
    obtain ⟨p'', qs', more, hitem', hand, -⟩ := hitem.junction.exists_items
    rcases hitem'.enclosed_or_condition with ⟨ts', rfl, -⟩ | ⟨c, hcondition, -⟩
    · cases hread
    · refine ⟨c, more, hcondition, ?_⟩
      rintro ⟨hends, horders, hend⟩
      obtain rfl := hand.of_ends (hends .and)
      obtain rfl := hor.of_ends (hends .or)
      simp [hjunction, sortClauses, horders, hend, refuse] at h

end Tokens

open Tokens

namespace RawQuery

/-- **The text of a condition**, with any operator and any operand, is a query with what the operator
takes the operand for. It is none where the operator takes no such operand. -/
theorem parse_conditionText {property : String} {op : Operator} {o : Operand} {q : RawQuery}
    (hproperty : IsPath property) (written : o.IsWritten) :
    parse (RawCondition.text ⟨property, op, some o⟩) = .ok q ↔
      ∃ o', op.readAs? o = some o' ∧ q = .of (.cond ⟨property, op, some o'⟩) := by
  have htext : RawCondition.text ⟨property, op, some o⟩ =
      property ++ " " ++ op.token ++ " " ++ o.text := by
    simp [RawCondition.text, String.append_assoc]
  rw [htext]
  cases hread : op.readAs? o with
  | some o' =>
    obtain ⟨ts, hspells, hcondition⟩ := retrieves_binary hproperty
      (Operator.isUnary_eq_false_of_readAs? hread) (retrieves_readAs written hread)
    have hitem := readsItem_condition (hcondition [.endOfInput] (forall_mem_head? (by decide)))
    have hjunction := readsJunction_of_item (.cond trivial) hitem ends_nil.1
    rw [parse_of_spells hspells (query_some hjunction ends_nil)]
    simp [Query.of, eq_comm]
  | none =>
    obtain ⟨ts, hspells, hpath⟩ := retrieves_path hproperty
    obtain ⟨ts', hspells', hleft, hlist⟩ := exists_leftover written
    have hwhole := (hspells.joined (spells_operator op)).joined hspells'
    have hread' : path (ts ++ ofOperator op ++ ts' ++ [.endOfInput]) =
        .ok (property, ofOperator op ++ (ts' ++ [.endOfInput])) := by
      rw [List.append_assoc, List.append_assoc]
      exact hpath _ (endsPath_ofOperator op _)
    refine iff_of_false (fun hparse => ?_) (by simp)
    obtain ⟨c, more, hcondition, hstays⟩ :=
      exists_condition_of_query (query_of_spells hwhole hparse) hread'
    simp only [condition, hread', operator_ofOperator] at hcondition
    split at hcondition
    · -- an operator without an operand leaves what follows it
      obtain rfl := congrArg Prod.snd (Except.ok.inj hcondition)
      exact hstays hleft
    · rename_i hbinary
      obtain ⟨items, rfl, hrefuses⟩ := Operator.exists_list_of_readAs? (by simpa using hbinary) hread
      obtain ⟨ts', rfl⟩ := hlist _ rfl
      simp [operand, hrefuses, Except.map] at hcondition

end RawQuery

end EntityQuery
