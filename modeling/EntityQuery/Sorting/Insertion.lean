/-!
Sorting by insertion.

An item that is inserted passes the items that it is less than, from the end of a list on, and stops
at the first one that it is not less than. So equal items keep their order, and where some items do
not compare it is the place of the others that decides.
-/

namespace EntityQuery.Sorting

variable {α : Type} (less : α → α → Bool)

/-- Inserts an item into a list that stands in reverse. -/
def insertReversed (x : α) : List α → List α
  | [] => [x]
  | y :: ys => if less x y then y :: insertReversed x ys else x :: y :: ys

/-- Inserts items one after the other into a list. -/
def insertAll (sorted items : List α) : List α :=
  (items.foldl (fun reversed x => insertReversed less x reversed) sorted.reverse).reverse

/-- Sorts by insertion. -/
def byInsertion (items : List α) : List α :=
  insertAll less [] items

end EntityQuery.Sorting
