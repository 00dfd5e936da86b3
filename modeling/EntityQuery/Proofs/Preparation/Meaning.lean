import EntityQuery.Proofs.Execution.Decided
import EntityQuery.Proofs.Like.Spelled

/-!
# What conditions mean

The meaning of a condition on a single value is written down for the operator and the operands as
they are given, nulls and empty texts among them. Nothing here depends on the rules that take such a
condition apart, or on the matchers that test what remains of it.
-/

namespace EntityQuery

variable {r : Registry}

/-! ### Meanings -/

namespace Value

/-- Null and collections without elements are absent, everything else is present. -/
def isAbsent : Value → Bool
  | null => true
  | list items => items.isEmpty
  | _ => false

/-- Equality with a value that is compared with; texts may disregard case. -/
def equals (ignoreCase : Bool) : Value → Value → Bool
  | text s, text t => sameText ignoreCase t s
  | v, x => v.sameAs x

/-- Whether a text spells what a pattern describes. -/
def isLike (ignoreCase : Bool) : Value → Value → Bool
  | text s, text pattern => patternSpells ignoreCase pattern s
  | _, _ => false

/-- Whether a text contains another one, or a collection contains an element. -/
def includes (ignoreCase : Bool) : Value → Value → Bool
  | text s, text t => occursIn ignoreCase t s
  | list items, x => items.any (·.sameAs x)
  | _, _ => false

/-- Whether a value stands in an order to another one. -/
def isOrdered (v x : Value) (orderings : List Ordering) : Bool :=
  (v.compare? x).any (orderings.contains ·)

end Value

namespace Condition

/-- Whether equality with the operand holds of absent values: null stands for absence, and on text
so does the empty text. -/
def namesAbsence (c : Condition) : Bool :=
  match c.operands.headD .null with
  | .null => true
  | .text s => c.property.kind == .text && s == ""
  | _ => false

/-- What a condition says about the value of its property, as it is given. -/
def meaning (ignoreCase : Bool) (v : Value) (c : Condition) : Bool :=
  let x := c.operands.headD .null
  let asksForAbsence := c.operands.any Value.isNull
  let someOperand (test : Value → Bool) := c.operands.any fun x => !x.isNull && test x
  match c.operator with
  | .isNull | .isEmpty => v.isAbsent
  | .isNotNull | .isNotEmpty => !v.isAbsent
  | .eq => (c.namesAbsence && v.isAbsent) || v.equals ignoreCase x
  | .ne => !v.isAbsent && !v.equals ignoreCase x
  | .gt => v.isOrdered x [.gt]
  | .ge => v.isOrdered x [.gt, .eq]
  | .lt => v.isOrdered x [.lt]
  | .le => v.isOrdered x [.lt, .eq]
  | .like => v.isLike ignoreCase x
  | .notLike => !v.isAbsent && !v.isLike ignoreCase x
  | .ilike => v.isLike true x
  | .notIlike => !v.isAbsent && !v.isLike true x
  | .isIn => (asksForAbsence && v.isAbsent) || someOperand v.sameAs
  | .notIn => !v.isAbsent && !someOperand v.sameAs
  | .contains => (asksForAbsence && v.isAbsent) || someOperand (v.includes ignoreCase)
  | .notContains =>
    if c.property.kind = .collection then
      !v.isNull && !someOperand (v.includes ignoreCase) && !(asksForAbsence && v.isAbsent)
    else !v.isAbsent && !someOperand (v.includes ignoreCase)

/-- A condition on a path with the operands that its operator is written with, which are texts only
where the property holds texts. -/
structure Suited (path : PropertyPath) (c : Condition) : Prop where
  property : c.property = path
  unary : c.operator.isUnary = true → c.operands = []
  single : c.operator.isUnary = false → c.operator.acceptsList = false → ∃ x, c.operands = [x]
  some : c.operator.acceptsList = true → c.operands ≠ []
  typed : ∀ s, .text s ∈ c.operands → path.kind = .text ∨ path.kind = .collection

end Condition

/-! ### Values -/

namespace Value

variable {ignoreCase : Bool} {v : Value}

@[simp] lemma sameAs_null (v : Value) : v.sameAs .null = false := by
  unfold sameAs
  generalize v.identity = a
  cases a <;> rfl

@[simp] lemma equals_null (v : Value) : v.equals ignoreCase .null = false := by
  cases v <;> simp [equals]

lemma null_sameAs (x : Value) : null.sameAs x = false := by
  simp [sameAs, identity]

lemma list_sameAs_text (items : List Value) (s : String) :
    (list items).sameAs (text s) = false := by
  simp [sameAs, identity, BEq.beq, beq]

lemma text_sameAs_text (s t : String) : (text s).sameAs (text t) = (s == t) := by
  simp [sameAs, identity, BEq.beq, beq]

lemma Fits.isAbsent_of_scalar {type : PropertyType} (h : v.Fits r type)
    (hk : type.kind ≠ .collection) : v.isAbsent = v.isNull := by
  cases h <;> first | rfl | exact absurd rfl hk

end Value

end EntityQuery
