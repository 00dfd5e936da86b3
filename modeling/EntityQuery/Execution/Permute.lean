/-!
Reordering an array in place by a permutation.

Position `i` is to hold the item that was at `perm[i]`. Each cycle is followed from its smallest
position, swapping items as it goes; a position that has its item is marked by pointing to itself.
-/

namespace EntityQuery.Permute

universe u

variable {α : Type u}

/-- Follows the cycle of `start` on from position `current`. There is no result if a position lies
outside the array, or if the steps given do not suffice to come back. -/
def closeCycle? (start : Nat) :
    Nat → Nat → Array α × Array Nat → Option (Array α × Array Nat)
  | 0, _, _ => none
  | steps + 1, current, (items, perm) =>
    match perm[current]? with
    | none => none
    | some next =>
      if next = start then some (items, perm.setIfInBounds current current)
      else if current < items.size ∧ next < items.size then
        closeCycle? start steps next
          (items.swapIfInBounds current next, perm.setIfInBounds current current)
      else none

/-- Closes the cycles of the positions from `start` on. -/
def closeCycles? : List Nat → Array α × Array Nat → Option (Array α × Array Nat)
  | [], state => some state
  | start :: starts, state =>
    (closeCycle? start state.2.size start state).bind (closeCycles? starts)

/-- The array with the item of `perm[i]` at every position `i`. -/
def rearrange? (items : Array α) (perm : Array Nat) : Option (Array α) :=
  (closeCycles? (List.range perm.size) (items, perm)).map Prod.fst

end EntityQuery.Permute
