import EntityQuery.Preparation.Error

/-!
Rules that replace prepared conditions by simpler ones, until none applies any more.

The rules that hold for every property come first: the absence of a value is spelled one way, null
stands nowhere among operands, and comparisons with lists, with parts of a text and with the empty
text are broken up. The property's own translator comes last. Whenever a rule changes a condition,
the conditions it yields start again from the first rule; only a copy of the condition goes on with
the next one.
-/

namespace EntityQuery

/-- A rule that holds for every property; none where it has nothing to say. -/
abbrev Rule := Condition → Option (Predicate Condition)

namespace Rule

/-- Emptiness of a single value is its absence; absence of a collection is its emptiness. -/
def absence : Rule := fun c =>
  match c.operator, c.property.kind with
  | .isNull, .collection => some (.cond (c.replace .isEmpty []))
  | .isNotNull, .collection => some (.cond (c.replace .isNotEmpty []))
  | .isEmpty, .collection | .isNotEmpty, .collection => none
  | .isEmpty, _ => some (.cond (c.replace .isNull []))
  | .isNotEmpty, _ => some (.cond (c.replace .isNotNull []))
  | _, _ => none

/-- Comparison with null is a test for absence. -/
def nullComparison : Rule := fun c =>
  match c.operator, c.operands with
  | .eq, [.null] => some (.cond (c.replace .isNull []))
  | .ne, [.null] => some (.cond (c.replace .isNotNull []))
  | _, _ => none

/-- Null in a list of values is a test for absence beside the list of the other values. -/
def nullInList : Rule := fun c =>
  if c.operator.takesList && c.operands.any Value.isNull then
    let values := c.operands.filter fun v => !v.isNull
    let rest := if values.isEmpty then [] else [.cond (c.replace c.operator values)]
    if c.operator == .notIn then some (.allOf (.cond (c.replace .isNotNull []) :: rest))
    else some (.anyOf (.cond (c.replace .isNull []) :: rest))
  else none

/-- The part of `contains` that one value of a list makes; null asks for the absence of elements. -/
def containsPart (c : Condition) (v : Value) : Predicate Condition :=
  .cond (if v.isNull then
      c.replace (if c.operator == .notContains then .isNotEmpty else .isEmpty) []
    else c.replace c.operator [v])

/-- `contains` with a list is `contains` with any of its values, and the negation with every one. -/
def containsList : Rule := fun c =>
  let single : Bool := match c.operands with
    | [v] => !v.isNull
    | _ => false
  match c.operator with
  | .contains => if single then none else some (.anyOf (c.operands.map (containsPart c)))
  | .notContains => if single then none else some (.allOf (c.operands.map (containsPart c)))
  | _ => none

/-- The pattern of the texts that contain a text. -/
def containsPattern (s : String) : String :=
  "%" ++ escapeLike s ++ "%"

/-- A text contains the texts that match it between two runs of any characters. -/
def textContains : Rule := fun c =>
  match c.property.kind, c.operator, c.text? with
  | .text, .contains, some s => some (.cond (c.replace .like [.text (containsPattern s)]))
  | .text, .notContains, some s => some (.cond (c.replace .notLike [.text (containsPattern s)]))
  | _, _, _ => none

/-- The empty text and the absence of a text are the same. -/
def emptyText : Rule := fun c =>
  match c.property.kind, c.operator, c.text? with
  | .text, .eq, some "" => some (.anyOf [.cond (c.replace .isNull []), .cond c])
  | .text, .ne, some "" => some (.allOf [.cond (c.replace .isNotNull []), .cond c])
  | _, _, _ => none

/-- The rules that hold for every property, in the order in which they are tried. -/
def all : List Rule :=
  [absence, nullComparison, nullInList, containsList, textContains, emptyText]

end Rule

/-- A rule that may fail. -/
abbrev Stage := Condition → Except PrepareError (Option (Predicate Condition))

namespace Stage

/-- A rule that never fails. -/
def ofRule (f : Rule) : Stage :=
  fun c => .ok (f c)

/-- The translator of a condition's property. -/
def translator (r : Registry) : Stage := fun c =>
  match (r.entity? c.property.leaf.owner).bind fun e => e.property? c.property.leaf.name with
  | some ⟨_, _, _, some t⟩ =>
    match t.translate r c with
    | .error e => .error (.translator e)
    | .ok p => .ok (some p)
  | _ => .ok none

/-- All rules for conditions, in the order in which they are tried. -/
def all (r : Registry) : List Stage :=
  Rule.all.map ofRule ++ [translator r]

/-- The first stage that changes a condition, by its number, and what it makes of it. The stages
given are those from number `n` on. -/
def firstChange (c : Condition) (n : Nat) :
    List Stage → Except PrepareError (Option (Nat × Predicate Condition))
  | [] => .ok none
  | stage :: rest =>
    match stage c with
    | .error e => .error e
    | .ok none => firstChange c (n + 1) rest
    | .ok (some p) => if p == .cond c then firstChange c (n + 1) rest else .ok (some (n, p))

/-- Applies the stages to a condition, from number `start` on, until nothing changes, and checks
what remains. The first argument bounds how deeply stages may nest. -/
def settle (stages : List Stage) (check : Condition → Except PrepareError Unit) :
    Nat → Nat → Condition → Except PrepareError (Predicate Condition)
  | 0, _, c => .error (.unsettled c.property)
  | depth + 1, start, c =>
    match firstChange c start (stages.drop start) with
    | .error e => .error e
    | .ok none => (check c).map fun _ => .cond c
    | .ok (some (n, p)) =>
      p.mapM fun d => settle stages check depth (if d == c then n + 1 else 0) d

end Stage

end EntityQuery
