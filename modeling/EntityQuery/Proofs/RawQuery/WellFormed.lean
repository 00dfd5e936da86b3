import EntityQuery.Proofs.Predicate.Flat
import EntityQuery.Proofs.Token.Lexes
import EntityQuery.RawQuery

/-!
# Well-formed queries

A query is well formed if it could have been read from a text: its junctions are flat and have two
children at least, its paths are made of names, and its operators have the operands they are written
with.
-/

namespace EntityQuery

/-- A step of a path as it is written. -/
def stepText (name : String) (indexed : Bool) : String :=
  name ++ if indexed then "[]" else ""

lemma stepText_false (n : String) : stepText n false = n :=
  String.append_empty

lemma stepText_true_dot (n : String) : n ++ "[]." = stepText n true ++ "." := by
  rw [stepText, if_pos rfl, String.append_assoc]
  rfl

/-- A path of names, each with or without brackets, and dots between them. -/
inductive IsPath : String → Prop where
  | last {n : String} {indexed : Bool} (name : IsName n) : IsPath (stepText n indexed)
  | step {n p : String} {indexed : Bool} (name : IsName n) (rest : IsPath p) :
      IsPath (stepText n indexed ++ "." ++ p)

lemma IsPath.of_isName {n : String} (h : IsName n) : IsPath n := by
  rw [← stepText_false n]
  exact .last h

namespace Operand

/-- A literal: an operand that is written as one value. -/
inductive IsLiteral : Operand → Prop where
  | null : IsLiteral .null
  | string (s : String) : IsLiteral (.string s)
  | integer (i : Int64) : IsLiteral (.integer i)
  | decimal {d : Double} (finite : d.isFinite = true) : IsLiteral (.decimal d)
  | word {s : String} (name : IsName s) : IsLiteral (.word s)
  | function (f : Function) : IsLiteral (.function f)

mutual

/-- The decimals of an operand. -/
def decimals : Operand → List Double
  | decimal d => [d]
  | list items => decimalsOfAll items
  | _ => []

/-- The decimals of a list of operands. -/
def decimalsOfAll : List Operand → List Double
  | [] => []
  | o :: os => decimals o ++ decimalsOfAll os

end

lemma mem_decimalsOfAll {os : List Operand} {d : Double} :
    d ∈ decimalsOfAll os ↔ ∃ o ∈ os, d ∈ decimals o := by
  induction os with
  | nil => simp [decimalsOfAll]
  | cons o os ih => simp [decimalsOfAll, ih]

end Operand

/-- The operands that an operator is written with: none for a unary one, a list for one that takes a
list, and else a literal, or also a list if one is accepted. -/
inductive Operator.Takes : Operator → Option Operand → Prop where
  | nothing {op : Operator} (unary : op.isUnary = true) : Takes op none
  | literal {op : Operator} {o : Operand} (binary : op.isUnary = false)
      (single : op.takesList = false) (literal : o.IsLiteral) : Takes op (some o)
  | list {op : Operator} {os : List Operand} (accepts : op.acceptsList = true) (filled : os ≠ [])
      (literals : ∀ o ∈ os, o.IsLiteral) : Takes op (some (.list os))

/-- A condition on a path, with the operands that its operator is written with. -/
structure RawCondition.WellFormed (c : RawCondition) : Prop where
  property : IsPath c.property
  operand : c.operator.Takes c.operand?

/-- The decimals of a condition. -/
def RawCondition.decimals (c : RawCondition) : List Double :=
  (c.operand?.map Operand.decimals).getD []

namespace RawQuery

/-- A query of well-formed conditions in flat junctions, sorted on paths. -/
structure WellFormed (q : RawQuery) : Prop where
  predicate : ∀ p ∈ q.predicate, p.Flat RawCondition.WellFormed
  orders : ∀ o ∈ q.orders, IsPath o.property

/-- The decimals of a query. -/
def decimals (q : RawQuery) : List Double :=
  (q.predicate.map fun p => p.conditions.flatMap RawCondition.decimals).getD []

end RawQuery

end EntityQuery
