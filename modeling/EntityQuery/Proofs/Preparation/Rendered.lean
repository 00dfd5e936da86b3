import EntityQuery.Proofs.Preparation.Supplied
import EntityQuery.Proofs.Token.Extended

/-!
# Prepared queries are read from their text

A prepared condition is written with the path that it was resolved to and the literals of its
operands. If the names of properties are names of the query language, and each literal is read as an
operand on its own, then the whole query is read: as the same tree of conditions on the texts of
their paths, with the operands that their literals are read as.
-/

namespace EntityQuery

variable {r : Registry} {context : QueryContext} {entity : String}

/-! ### Literals -/

/-- The operand that the literal of a value is read as, if it is one on its own. -/
def Value.operand? (v : Value) : Option Operand :=
  match tokenize v.literal with
  | .error _ => none
  | .ok tokens =>
    match Tokens.literal (tokens.map Token.kind) with
    | .ok (o, [.endOfInput]) => some o
    | _ => none

lemma Boundary.endsAny {rest : List Char} (h : Boundary rest) : Lexeme.EndsAny rest where
  name := h.endsName
  number := h.endsNumber
  sign c hc := by
    rcases h c hc with rfl | rfl | rfl <;> decide

/-- The tokens of a text on its own are its tokens in a query. -/
lemma exists_spells_of_tokenize {text : String} {tokens : List Token}
    (h : tokenize text = .ok tokens) :
    ∃ ts, tokens.map Token.kind = ts ++ [.endOfInput] ∧ Spells text ts := by
  obtain ⟨ts, hkinds, hlexes⟩ := Lexes.exists_append h
  exact ⟨ts, hkinds, fun rest ks stop hrest => hlexes rest ks stop.endsAny hrest⟩

namespace Tokens

/-- A literal in front of the end is one in front of whatever does not go on with it. -/
lemma literal_append {ts more : Tokens} {o : Operand}
    (h : literal (ts ++ [.endOfInput]) = .ok (o, [.endOfInput])) (stop : EndsLiteral more) :
    literal (ts ++ more) = .ok (o, more) := by
  have hsingle : ∀ t, ts ++ [.endOfInput] = [t] ++ [.endOfInput] → ts = [t] :=
    fun _ => List.append_cancel_right
  unfold literal at h
  split at h
  case h_5 n rest heq =>
    cases hf : Function.ofName? n with
    | none => simp [hf] at h
    | some f =>
      simp only [hf] at h
      split at h
      · obtain ⟨rfl, rfl⟩ := Prod.mk.inj (Except.ok.inj h)
        have hcall : ts = [.name n, .sign .leftParen] ++ [.sign .rightParen] :=
          List.append_cancel_right heq
        simp [hcall, literal, hf]
      · cases h
  case h_6 n rest _ heq =>
    obtain ⟨rfl, rfl⟩ := Prod.mk.inj (Except.ok.inj h)
    obtain rfl := hsingle _ heq
    exact literal_word n stop
  case h_7 => cases h
  all_goals
    rename_i heq
    obtain ⟨rfl, rfl⟩ := Prod.mk.inj (Except.ok.inj h)
    obtain rfl := hsingle _ heq
    rfl

end Tokens

open Tokens

/-- The literal of a value that is an operand on its own is this operand in a query. -/
lemma Value.retrieves_operand? {v : Value} {o : Operand} (h : v.operand? = some o) :
    Retrieves Tokens.literal EndsLiteral v.literal o := by
  unfold operand? at h
  split at h
  · cases h
  · rename_i tokens htokens
    split at h
    · rename_i o' hliteral
      obtain rfl := Option.some.inj h
      obtain ⟨ts, hkinds, hspells⟩ := exists_spells_of_tokenize htokens
      rw [hkinds] at hliteral
      exact ⟨ts, hspells, fun more stop => literal_append hliteral stop⟩
    · cases h

/-! ### Conditions -/

lemma Operator.acceptsList_of_takesList {operator : Operator} (h : operator.takesList = true) :
    operator.acceptsList = true := by
  cases operator <;> simp_all [takesList, acceptsList]

namespace Condition

variable {c : Condition}

/-- A prepared condition as it is read from its text. -/
def raw (c : Condition) : RawCondition where
  property := c.property.text
  operator := c.operator
  operand? :=
    if c.operator.isUnary then none
    else
      match c.operator.takesList, c.operands with
      | false, [v] => v.operand?
      | _, vs => some (.list (vs.filterMap Value.operand?))

/-- The literal of each operand is an operand on its own. -/
def Readable (c : Condition) : Prop :=
  ∀ v ∈ c.operands, ∃ o, v.operand? = some o

lemma forall₂_retrieves {vs : List Value} (h : ∀ v ∈ vs, ∃ o, v.operand? = some o) :
    List.Forall₂ (Retrieves literal EndsLiteral) (Value.literals vs)
      (vs.filterMap Value.operand?) := by
  induction vs with
  | nil => exact .nil
  | cons v vs ih =>
    rw [List.forall_mem_cons] at h
    obtain ⟨⟨o, ho⟩, hrest⟩ := h
    rw [Value.literals, List.filterMap_cons_some ho]
    exact .cons (Value.retrieves_operand? ho) (ih hrest)

/-- The operands of a condition are read from their text. -/
lemma exists_operand (shape : c.WellShaped) (readable : c.Readable)
    (binary : c.operator.isUnary = false) : ∃ o, c.raw.operand? = some o ∧
      Retrieves (operand c.operator) EndsLiteral c.operandText o := by
  cases htakes : c.operator.takesList with
  | true =>
    have haccepts := Operator.acceptsList_of_takesList htakes
    have htexts := forall₂_retrieves readable
    have hfilled : c.operands.filterMap Value.operand? ≠ [] := by
      intro hnil
      rw [hnil] at htexts
      have hlength := htexts.length_eq
      obtain ⟨v, vs, hvs⟩ := List.exists_cons_of_ne_nil (shape.list htakes)
      rw [hvs] at hlength
      cases hlength
    refine ⟨.list (c.operands.filterMap Value.operand?), ?_, ?_⟩
    · simp [raw, binary, htakes]
    · simp only [operandText, htakes]
      exact retrieves_list haccepts hfilled htexts
  | false =>
    obtain ⟨v, hv⟩ := shape.single binary htakes
    obtain ⟨o, ho⟩ := readable v (by simp [hv])
    refine ⟨o, ?_, ?_⟩
    · simp [raw, binary, htakes, hv, ho]
    · simp only [operandText, htakes, hv]
      exact retrieves_single htakes (Value.retrieves_operand? ho)

/-- **Prepared conditions** are read from their text. -/
lemma rereads (path : IsPath c.property.text) (shape : c.WellShaped) (readable : c.Readable) :
    Rereads text raw c := by
  cases hunary : c.operator.isUnary with
  | true =>
    have htext : c.text = c.property.text ++ " " ++ c.operator.token := by simp [text, hunary]
    have hraw : c.raw = ⟨c.property.text, c.operator, none⟩ := by simp [raw, hunary]
    rw [Rereads, htext, hraw]
    exact retrieves_unary path hunary
  | false =>
    obtain ⟨o, ho, hretrieves⟩ := exists_operand shape readable hunary
    have htext : c.text = c.property.text ++ " " ++ c.operator.token ++ " " ++ c.operandText := by
      simp [text, hunary, String.append_assoc]
    have hraw : c.raw = ⟨c.property.text, c.operator, some o⟩ := by
      rw [← ho]
      rfl
    rw [Rereads, htext, hraw]
    exact retrieves_binary path hunary hretrieves

end Condition

/-! ### Queries -/

/-- The names of all properties are names of the query language. -/
def Registry.Named (r : Registry) : Prop :=
  ∀ e ∈ r.entities, ∀ p ∈ e.properties, IsName p.name

namespace Registry

lemma Named.isName_of_declares {s : PathSegment} {p : PropertyDef} (named : r.Named)
    (h : r.Declares s p) : IsName s.name := by
  obtain ⟨e, he, hp⟩ := Option.bind_eq_some_iff.mp h.found
  have hname : p.name = s.name := (declared_of_property? h.found).1
  exact hname ▸ named e (List.mem_of_find?_eq_some he) p (List.mem_of_find?_eq_some hp)

/-- The text of a path that a registry of names admits is a path of the query language. -/
lemma Named.isPath_of_admits {path : PropertyPath} (named : r.Named) (h : r.Admits entity path) :
    IsPath path.text := by
  obtain ⟨parents, leaf⟩ := path
  obtain ⟨definition, hleaf⟩ : ∃ definition, r.Declares leaf definition := h.leaf
  have hparents : r.Leads entity parents leaf.owner := h.parents
  clear h
  generalize leaf.owner = owner at hparents
  induction hparents with
  | here => exact .of_isName (named.isName_of_declares hleaf)
  | @step _ _ _ s rest _ _ declared _ _ ih =>
    have htext : PropertyPath.text ⟨s :: rest, leaf⟩ =
        stepText s.name s.indexed ++ "." ++ PropertyPath.text ⟨rest, leaf⟩ := by
      rw [PropertyPath.text, List.foldr_cons, PathSegment.text, stepText]
      cases s.indexed <;> simp [PropertyPath.text]
    rw [htext]
    exact .step (named.isName_of_declares declared) ih

/-- **Prepared text is read again**: the same tree of conditions as they are read, and the same sort
clauses. -/
theorem parse_text_of_prepareText {text : String} {p : PreparedQuery} (named : r.Named)
    (h : r.prepareText context entity text = .ok p)
    (readable : ∀ t ∈ p.predicate, ∀ c ∈ t.conditions, c.Readable) :
    RawQuery.parse p.text = .ok ⟨p.predicate.map (Predicate.turned false Condition.raw),
      p.orders.map (readOrder PropertyPath.text)⟩ := by
  obtain ⟨q, -, hprepare⟩ := prepareText_eq_ok.mp h
  obtain ⟨e, he, horders, -⟩ := RawQuery.exists_of_prepare hprepare
  refine RawQuery.parse_queryText (fun t ht => ?_) fun o ho => ?_
  · refine (flat_of_prepareText h t ht).imp fun c hc _ => ?_
    have hprepared := RawQuery.prepared_of_prepare hprepare ht c hc
    exact Condition.rereads (named.isPath_of_admits hprepared.admitted) hprepared.wellShaped
      (readable t ht c hc)
  · obtain ⟨o', -, hpath, -⟩ := exists_of_prepareOrders horders o ho
    exact named.isPath_of_admits (admits_of_pathOf hpath)

end Registry

end EntityQuery
