/-!
Choosing an item of a list and dividing the list by it.
-/

namespace EntityQuery.Sorting

variable {α : Type} (less : α → α → Bool)

/-- Compares the items at two places. -/
def lessAt (items : Array α) (i j : Nat) : Bool :=
  match items[i]?, items[j]? with
  | some x, some y => less x y
  | _, _ => false

/-- The place among three of the item in the middle. -/
def middleOf (items : Array α) (a b c : Nat) : Nat :=
  let ab := lessAt less items a b
  if ab = lessAt less items a c then
    if lessAt less items b c = ab then b else c
  else a

/-- How many items make a sample that is worth a choice of its own. -/
def largeSample : Nat :=
  64

/-- The place of an item near the middle of three samples that start at the given places. Large
samples are replaced by an item near their own middle. -/
def middleOfSamples (items : Array α) (size a b c : Nat) : Nat :=
  if _h : largeSample ≤ size * 8 then
    let part := size / 8
    let sample (start : Nat) :=
      middleOfSamples items part start (start + part * 4) (start + part * 7)
    middleOf less items (sample a) (sample b) (sample c)
  else middleOf less items a b c
termination_by size
decreasing_by
  simp only [largeSample] at _h
  omega

/-- The place of the item by which a list is divided. -/
def pivotPlace (items : Array α) : Nat :=
  let part := items.size / 8
  if items.size < largeSample then middleOf less items 0 (part * 4) (part * 7)
  else middleOfSamples less items part 0 (part * 4) (part * 7)

/-- Divides a list without changing the order on either side: the item at the given place goes to
the given side, the others as the test says. -/
def divide (toLeft : α → Bool) (place : Nat) (placeToLeft : Bool) (items : List α) :
    List α × List α :=
  let before := (items.take place).partition toLeft
  let pivot := ((items.drop place).take 1).partition fun _ => placeToLeft
  let after := (items.drop (place + 1)).partition toLeft
  (before.1 ++ pivot.1 ++ after.1, before.2 ++ pivot.2 ++ after.2)

end EntityQuery.Sorting
