/-!
Merging two sorted lists: from the front, from the back, and from both ends towards the middle.

The three agree where the comparison is an order. Where some items do not compare, each has a result
of its own.
-/

namespace EntityQuery.Sorting

variable {α : Type} (less : α → α → Bool)

/-- Merges from the front: the lesser of the two first items goes first, the left one if neither is
less. -/
def mergeForward (left right : List α) : List α :=
  left.merge right fun a b => !less b a

/-- Merges from the back: the greater of the two last items goes last, the right one if neither is
less. -/
def mergeBackward (left right : List α) : List α :=
  (right.reverse.merge left.reverse fun b a => !less b a).reverse

/-- Merges from the end where the shorter list is used up sooner. -/
def merge (left right : List α) : List α :=
  if left.length ≤ right.length then mergeForward less left right
  else mergeBackward less left right

/-- Compares items that carry a mark. -/
def lessMarked (a b : α × Bool) : Bool :=
  less a.1 b.1

/-- The items of two lists, those of the left one marked. -/
def marked (left right : List α) : List (α × Bool) × List (α × Bool) :=
  (left.map (·, true), right.map (·, false))

/-- Merges from both ends: as many items as the left list has are taken from either end, and the one
that may be left over stands in the middle. Both ends may want the same item if the comparison
contradicts itself; then the merge from the front counts. -/
def mergeInward (left right : List α) : List α :=
  let (l, r) := marked left right
  let front := (mergeForward (lessMarked less) l r).take left.length
  let back := (mergeBackward (lessMarked less) l r).drop right.length
  let fromLeft := front.countP Prod.snd
  let leftEnd := left.length - back.countP Prod.snd
  let middle := (left.take leftEnd).drop fromLeft
    ++ (right.take (right.length - leftEnd)).drop (left.length - fromLeft)
  if middle.length + 2 * left.length = left.length + right.length then
    front.map Prod.fst ++ middle ++ back.map Prod.fst
  else mergeForward less left right

end EntityQuery.Sorting
