import EntityQuery.Sorting.Block

/-!
Runs: a list is cut into stretches, sorted or still to be sorted, and these are merged in pairs.

Which neighbours are merged first follows from where they meet. A meeting point has a depth, the
number of leading binary digits in which the middles of its two runs agree as fractions of the whole
list, and deeper points are merged before those further up.
-/

namespace EntityQuery.Sorting

variable {α : Type} (less : α → α → Bool)

/-- A stretch of a list. -/
structure Run (α : Type) where
  items : List α
  sorted : Bool

/-- How many more items follow an item such that each is less than the one before. -/
def fallLength (x : α) : List α → Nat
  | [] => 0
  | y :: ys => if less y x then fallLength y ys + 1 else 0

/-- How many more items follow an item such that none is less than the one before. -/
def riseLength (x : α) : List α → Nat
  | [] => 0
  | y :: ys => if less y x then 0 else riseLength y ys + 1

/-- The run at the front of a list that is sorted as it stands, or sorted in reverse. -/
def naturalRun (items : List α) : Run α :=
  match items with
  | x :: y :: rest =>
    if less y x then ⟨(items.take (fallLength less y rest + 2)).reverse, true⟩
    else ⟨items.take (riseLength less y rest + 2), true⟩
  | _ => ⟨items, true⟩

/-- About the square root of a number, from its number of binary digits. -/
def roughSqrt (n : Nat) : Nat :=
  let shift := (1 + n.log2) / 2
  (Nat.pow 2 shift + n / Nat.pow 2 shift) / 2

/-- How many items of a list of the given length a natural run needs to be kept. -/
def keptLength (total : Nat) : Nat :=
  if total ≤ 64 * 64 then min (total - total / 2) 64 else roughSqrt total

/-- The first run of a list of which natural runs of a length are kept. In place of a shorter one
stands a few items, sorted at once if `eager`, or so many items to be sorted later. -/
def firstRun (block : Block) (eager : Bool) (kept : Nat) (items : List α) : Run α :=
  let natural := naturalRun less items
  if kept ≤ items.length ∧ kept ≤ natural.items.length then natural
  else if eager then ⟨sortFew less block (items.take few), true⟩
  else ⟨items.take kept, false⟩

/-- Cuts a list into runs. -/
def cut (block : Block) (eager : Bool) (kept : Nat) (items : List α) : List (Run α) :=
  match _h : items with
  | [] => []
  | first :: rest =>
    let run := firstRun less block eager kept (first :: rest)
    run :: cut block eager kept (rest.drop (run.items.length - 1))
termination_by items.length
decreasing_by
  simp only [List.length_drop, List.length_cons]
  omega

/-- Joins two neighbouring runs: they are merged if one of them is sorted. `settle` sorts the other
one. -/
def join (settle : List α → List α) (left right : Run α) : Run α :=
  let settled (run : Run α) := if run.sorted then run.items else settle run.items
  if left.sorted || right.sorted then ⟨merge less (settled left) (settled right), true⟩
  else ⟨left.items ++ right.items, false⟩

/-- The depth of the point in a list of `total` items where the run from `start` to `mid` meets the
run from `mid` to `stop`. -/
def meetingDepth (total start mid stop : Nat) : Nat :=
  let scale := (Nat.pow 2 62 + total - 1) / total
  63 - ((scale * (start + mid)) ^^^ (scale * (mid + stop))).log2

/-- Joins a run with those to its left that meet their right neighbour at the given depth or deeper:
what comes of it, and the runs that are left over. -/
def joinLeft (settle : List α → List α) (depth : Nat) (run : Run α) :
    List (Run α × Nat) → Run α × List (Run α × Nat)
  | [] => (run, [])
  | (left, leftDepth) :: rest =>
    if depth ≤ leftDepth then joinLeft settle depth (join less settle left run) rest
    else (run, (left, leftDepth) :: rest)

/-- Joins runs: `last` is the latest one, which ends at `scanned`, and `waiting` are those to the
left of it, each with the depth at which it meets its right neighbour. -/
def joinFrom (settle : List α → List α) (total scanned : Nat) (last : Run α)
    (waiting : List (Run α × Nat)) : List (Run α) → Run α
  | [] => (joinLeft less settle 0 last waiting).1
  | next :: rest =>
    let stop := scanned + next.items.length
    let depth := meetingDepth total (scanned - last.items.length) scanned stop
    let (joined, waiting) := joinLeft less settle depth last waiting
    joinFrom settle total stop next ((joined, depth) :: waiting) rest

/-- Sorts a list that is cut into runs. -/
def joinAll (settle : List α → List α) (total : Nat) : List (Run α) → List α
  | [] => []
  | first :: rest =>
    let run := joinFrom less settle total first.items.length first [] rest
    if run.sorted then run.items else settle run.items

end EntityQuery.Sorting
