import EntityQuery.Number.Double

/-!
The shortest decimal of a double: the fewest significant digits that read back as the same double
and, among those, the nearest to it. Two of them may be equally near.
-/

namespace EntityQuery

/-- A decimal number `digits * 10 ^ exponent`. -/
structure Decimal where
  digits : Nat
  exponent : Int
  deriving DecidableEq, Repr

namespace Decimal

/-- The same number without zeros at the end of its digits. -/
def strip (digits : Nat) (exponent : Int) : Decimal :=
  if digits = 0 then ⟨0, 0⟩
  else if digits % 10 = 0 then strip (digits / 10) (exponent + 1)
  else ⟨digits, exponent⟩
  termination_by digits

/-- The exponent of the leading digit. -/
def leading (d : Decimal) : Int :=
  Text.digitCount d.digits - 1 + d.exponent

end Decimal

/-- Which of two neighbouring decimals is taken at equal distance. -/
inductive DecimalTie where
  | upper
  /-- The one with an even last digit. -/
  | even
  deriving DecidableEq

/-- Whether the lower of two neighbours is taken, given its digits and the distances of the two. -/
def DecimalTie.takesLower (tie : DecimalTie) (digits below above : Nat) : Bool :=
  below < above || (below == above && tie == .even && digits % 2 == 0)

namespace Double

/-- Whether a decimal with 1074 places is read as the given multiple of the least positive double:
one unit in its last place is `5 ^ -1074` of them. -/
def readsAs (units places : Nat) : Bool :=
  nearest places (Nat.pow 5 1074) == units

/-- The decimal with `count` digits next to `exact` that reads back, if there is one: of the two
neighbours the nearer. Numbers are counted in `10 ^ -1074`. -/
def withDigits? (tie : DecimalTie) (units exact count : Nat) : Option Nat :=
  let step := Nat.pow 10 (Text.digitCount exact - count)
  let low := exact / step * step
  let high := low + step
  if low = exact then some exact
  else
    match readsAs units low, readsAs units high with
    | true, true =>
      some (if tie.takesLower (low / step) (exact - low) (high - exact) then low else high)
    | true, false => some low
    | false, true => some high
    | false, false => none

/-- The shortest decimal of a multiple of the least positive double. The exact decimal always reads
back, and no double needs more than 17 digits to be told apart. -/
def shortest (tie : DecimalTie) (units : Nat) : Decimal :=
  let exact := units * Nat.pow 5 1074
  let places := ((List.range' 1 17).findSome? (withDigits? tie units exact)).getD exact
  Decimal.strip places (-1074)

end Double

end EntityQuery
