import EntityQuery.Condition
import EntityQuery.Like
import EntityQuery.Registry.Resolve

/-!
Translators: what the declaration of a property turns conditions on it into.
-/

namespace EntityQuery

/-- Why a condition cannot be translated. -/
inductive TranslatorError where
  | resolve (e : ResolveError)
  /-- A property that stands for no properties at all. -/
  | emptyExpansion (condition : Condition)

/-- The wording of a translator's error. -/
def TranslatorError.message : TranslatorError → String
  | resolve e => e.message
  | emptyExpansion c => "Cannot translate '" ++ c.text ++ "': no properties to expand into"

namespace Registry

/-- The path of another property of the entity type that declares the property of a condition: it
starts with the associations that the condition follows. -/
def sibling (r : Registry) (c : Condition) (name : String) : Except ResolveError PropertyPath :=
  (r.resolve c.property.leaf.owner name).map fun q =>
    ⟨c.property.parents ++ q.path.parents, q.path.leaf⟩

end Registry

namespace Translator

/-- Comparisons of text with the case disregarded: equality becomes a pattern without wildcards. -/
def disregardCase (c : Condition) : Condition :=
  match c.operator, c.text? with
  | .eq, some s => c.replace .ilike [.text (escapeLike s)]
  | .ne, some s => c.replace .notIlike [.text (escapeLike s)]
  | .like, some _ => c.replace .ilike c.operands
  | .notLike, some _ => c.replace .notIlike c.operands
  | _, _ => c

/-- The conditions on several siblings in place of one. -/
def siblingConditions (r : Registry) (c : Condition) :
    List String → Except ResolveError (List (Predicate Condition))
  | [] => .ok []
  | name :: names =>
    match r.sibling c name with
    | .error e => .error e
    | .ok path =>
      (siblingConditions r c names).map fun ps => .cond ⟨path, c.operator, c.operands⟩ :: ps

/-- Turns a condition into others. A property that stands for others is compared through all of
them: one has to satisfy an assertion, and every one a negation. -/
def translate (r : Registry) (c : Condition) :
    Translator → Except TranslatorError (Predicate Condition)
  | ignoreCase => .ok (.cond (disregardCase c))
  | expand [] => .error (.emptyExpansion c)
  | expand names =>
    match siblingConditions r c names with
    | .error e => .error (.resolve e)
    | .ok ps => .ok (if c.operator.isNegation then .allOf ps else .anyOf ps)

end Translator

end EntityQuery
