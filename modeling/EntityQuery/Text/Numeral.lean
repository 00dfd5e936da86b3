/-!
Decimal numerals of natural numbers and of 64-bit integers, written and read.
-/

namespace EntityQuery.Text

/-- The numeral of a number below ten. -/
def digitChar (d : Nat) : Char :=
  Char.ofNat ('0'.toNat + d)

/-- The number a digit stands for. -/
def digitValue (c : Char) : Nat :=
  c.toNat - '0'.toNat

/-- The decimal numeral of a natural number, without leading zeros. -/
def numeral (n : Nat) : List Char :=
  if n < 10 then [digitChar n] else numeral (n / 10) ++ [digitChar (n % 10)]

/-- How many digits the numeral of a number has. -/
def digitCount (n : Nat) : Nat :=
  if n < 10 then 1 else digitCount (n / 10) + 1

/-- The numeral with zeros in front, up to the given width. -/
def padded (width n : Nat) : List Char :=
  List.replicate (width - digitCount n) '0' ++ numeral n

/-- The number that a run of digits denotes. -/
def digitsValue (cs : List Char) : Nat :=
  cs.foldl (fun n c => 10 * n + digitValue c) 0

/-- Reads a text of one or more digits. -/
def readNat? (cs : List Char) : Option Nat :=
  if cs ≠ [] ∧ cs.all Char.isDigit then some (digitsValue cs) else none

/-- A sign, if there is one, and what follows it. -/
def splitSign : List Char → Bool × List Char
  | '-' :: cs => (true, cs)
  | '+' :: cs => (false, cs)
  | cs => (false, cs)

/-- The integer in 64 bits, if it fits. -/
def fitInt64? (i : Int) : Option Int64 :=
  if Int64.minValue.toInt ≤ i ∧ i ≤ Int64.maxValue.toInt then some (Int64.ofInt i) else none

/-- Reads an optional sign and one or more digits, within 64 bits. -/
def readInt64? (cs : List Char) : Option Int64 :=
  let (negative, digits) := splitSign cs
  (readNat? digits).bind fun n => fitInt64? (if negative then -n else n)

/-- The numeral of an integer, with a minus sign if it is negative. -/
def integerText (i : Int) : String :=
  String.ofList (if i < 0 then '-' :: numeral i.natAbs else numeral i.natAbs)

end EntityQuery.Text
