import EntityQuery.Dataset.Store
import EntityQuery.Registry

/-!
Records and their values as a shell shows them.
-/

namespace EntityQuery

/-- An id without quotes. -/
def Value.idText (id : Value) : String :=
  match id.identity with
  | .text s => s
  | v => v.literal

namespace Value

mutual

/-- The value for display: text in plain double quotes, a reference with its entity type. -/
def shown : Value → String
  | text s => "\"" ++ s ++ "\""
  | ref entity id => entity ++ "#" ++ id.idText
  | list items => Text.bracketed "[" "]" (shownItems items)
  | v => v.literal

/-- The values of a list for display. -/
def shownItems : List Value → List String
  | [] => []
  | v :: vs => shown v :: shownItems vs

end

end Value

/-- The record for display: its entity type, its id and the other properties in declared order. -/
def Record.described (e : EntityDef) (r : Record) : String :=
  let properties := (e.properties.filter fun p => p.name != e.idProperty).map fun p =>
    p.name ++ ": " ++ (r.valueOf p.name).shown
  e.name ++ " " ++ (r.valueOf e.idProperty).idText ++ " "
    ++ Text.bracketed "\x7b" "\x7d" properties

end EntityQuery
