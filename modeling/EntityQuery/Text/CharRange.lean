/-!
Sets of characters given as ranges of code points.
-/

namespace EntityQuery.Text

/-- Membership in a list of closed ranges of code points. -/
def inRanges (ranges : List (Nat × Nat)) (c : Char) : Bool :=
  ranges.any fun (first, last) => first ≤ c.toNat && c.toNat ≤ last

end EntityQuery.Text
