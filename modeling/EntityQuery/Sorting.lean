import EntityQuery.Sorting.Partition
import EntityQuery.Sorting.Run

/-!
Sorting by a comparison that leaves equal items in their order.

The comparison need not be an order: values of different families do not compare and count as equal,
so that an item may equal two others of which one is less than the other. Which items are compared
then decides about the result, and the steps below are part of what sorting means. A short list is
sorted by insertion. A longer one is cut into runs that are merged; runs that still have to be
sorted are divided by one of their items until few are left.
-/

namespace EntityQuery.Sorting

variable {α : Type} (less : α → α → Bool)

/-- Sorts a list by runs of which each is sorted at once. -/
def byShortRuns (block : Block) (items : List α) : List α :=
  joinAll less id items.length (cut less block true (keptLength items.length) items)

/-- Sorts a list by dividing it, at most `depth` times in a row. `bound?` is an item that no item of
the list is less than, if one is known. Where the pivot equals it, or where no item is less than the
pivot, the items that the pivot is not less than go first and are in place. -/
def byDivision (block : Block) (depth : Nat) (bound? : Option α) (items : List α) : List α :=
  if items.length ≤ few then sortFew less block items
  else
    match depth with
    | 0 => byShortRuns less block items
    | depth + 1 =>
      let place := pivotPlace less items.toArray
      match items[place]? with
      | none => items
      | some pivot =>
        let equalsBound := bound?.any fun bound => !less bound pivot
        let (left, right) := divide (fun x => less x pivot) place false items
        if equalsBound || left.isEmpty then
          let (equal, greater) := divide (fun x => !less pivot x) place true items
          equal ++ byDivision block depth none greater
        else byDivision block depth bound? left ++ byDivision block depth (some pivot) right

/-- Sorts a list by dividing it. -/
def byDivisions (block : Block) (items : List α) : List α :=
  byDivision less block (2 * items.length.log2) none items

/-- The length up to which a list is sorted by insertion. -/
def shortLength : Nat :=
  20

/-- Sorts a list. -/
def sort (block : Block) (items : List α) : List α :=
  if items.length ≤ shortLength then byInsertion less items
  else
    joinAll less (byDivisions less block) items.length
      (cut less block (items.length ≤ 2 * few) (keptLength items.length) items)

end EntityQuery.Sorting
