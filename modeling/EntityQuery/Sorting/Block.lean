import EntityQuery.Sorting.Insertion
import EntityQuery.Sorting.Merge

/-!
Sorting a few items: either half starts with a block that is put in order by fixed comparisons, its
other items are inserted, and the halves are merged.
-/

namespace EntityQuery.Sorting

variable {α : Type} (less : α → α → Bool)

/-- The largest block that is put in order by fixed comparisons. -/
inductive Block where
  | four
  | eight
  deriving DecidableEq

/-- Puts two items in order. -/
def sortTwo (a b : α) : α × α :=
  if less b a then (b, a) else (a, b)

/-- Puts four items in order: two pairs, then their least and their greatest items, then the two
that remain. -/
def sortFour (a b c d : α) : List α :=
  let (a, b) := sortTwo less a b
  let (c, d) := sortTwo less c d
  match less c a, less d b with
  | false, false =>
    let (low, high) := sortTwo less b c
    [a, low, high, d]
  | false, true =>
    let (low, high) := sortTwo less c d
    [a, low, high, b]
  | true, false =>
    let (low, high) := sortTwo less a b
    [c, low, high, d]
  | true, true =>
    let (low, high) := sortTwo less a d
    [c, low, high, b]

/-- Puts a list of four items in order. -/
def sortFourItems : List α → List α
  | [a, b, c, d] => sortFour less a b c d
  | items => items

/-- Puts a list of eight items in order. -/
def sortEightItems (items : List α) : List α :=
  mergeInward less (sortFourItems less (items.take 4)) (sortFourItems less (items.drop 4))

/-- Sorts half of some items of the given number. -/
def sortHalf (block : Block) (count : Nat) (half : List α) : List α :=
  if block = .eight ∧ 16 ≤ count then
    insertAll less (sortEightItems less (half.take 8)) (half.drop 8)
  else if 8 ≤ count then insertAll less (sortFourItems less (half.take 4)) (half.drop 4)
  else byInsertion less half

/-- Sorts a few items. -/
def sortFew (block : Block) (items : List α) : List α :=
  let half := items.length / 2
  mergeInward less (sortHalf less block items.length (items.take half))
    (sortHalf less block items.length (items.drop half))

/-- How many items count as few. -/
def few : Nat :=
  32

end EntityQuery.Sorting
