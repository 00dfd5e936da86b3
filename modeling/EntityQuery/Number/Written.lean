import EntityQuery.Number.Shortest

/-!
Doubles as text: three layouts of the shortest decimal, and the texts that are read.
-/

namespace EntityQuery

/-- How the digits of a double are laid out. -/
structure DoubleLayout where
  /-- The exponents of the leading digit at which the number is written without an exponent. -/
  positional : Int → Bool
  /-- Whether a whole number written without an exponent still ends in `.0`. -/
  wholePoint : Bool
  /-- The text of an exponent. -/
  exponentText : Int → String
  /-- Which of two equally near shortest decimals is written. -/
  tie : DecimalTie

namespace DoubleLayout

/-- Layout of a number as it is written in a query: exponents from `1e16` up and below `1e-4`. -/
def literal : DoubleLayout where
  positional e := -4 ≤ e && e < 16
  wholePoint := true
  exponentText e := Text.integerText e
  tie := .upper

/-- Layout without exponents; a whole number has no point. -/
def plain : DoubleLayout where
  positional _ := true
  wholePoint := false
  exponentText e := Text.integerText e
  tie := .upper

/-- Layout of numbers in JSON: exponents from `1e16` up and below `1e-5`, with a sign; the last
digit is even where two decimals are equally near. -/
def json : DoubleLayout where
  positional e := -5 ≤ e && e < 16
  wholePoint := true
  exponentText e := (if e < 0 then "" else "+") ++ Text.integerText e
  tie := .even

/-- A decimal without an exponent. -/
def positionalText (wholePoint : Bool) (d : Decimal) : String :=
  let digits := Text.numeral d.digits
  let shift := d.exponent.toNat
  let places := (-d.exponent).toNat
  if 0 ≤ d.exponent then
    String.ofList (if d.digits = 0 then digits else digits ++ List.replicate shift '0')
      ++ (if wholePoint then ".0" else "")
  else
    let digits := List.replicate (places + 1 - digits.length) '0' ++ digits
    String.ofList (digits.take (digits.length - places)) ++ "."
      ++ String.ofList (digits.drop (digits.length - places))

/-- A decimal with an exponent: one digit, a point if more follow, and the exponent. -/
def scientificText (exponentText : Int → String) (d : Decimal) : String :=
  match Text.numeral d.digits with
  | [] => ""
  | first :: rest =>
    String.singleton first ++ (if rest = [] then "" else "." ++ String.ofList rest)
      ++ "e" ++ exponentText d.leading

/-- The text of a double in a layout. -/
def text (layout : DoubleLayout) : Double → String
  | .nan => "NaN"
  | .infinite negative => if negative then "-inf" else "inf"
  | .finite negative units _ =>
    let d := Double.shortest layout.tie units
    (if negative then "-" else "")
      ++ (if d.digits = 0 ∨ layout.positional d.leading then positionalText layout.wholePoint d
          else scientificText layout.exponentText d)

end DoubleLayout

namespace Double

/-- Text of a number as a query spells it. -/
def literalText (d : Double) : String :=
  DoubleLayout.literal.text d

/-- Text of a number without an exponent. -/
def plainText (d : Double) : String :=
  DoubleLayout.plain.text d

/-- Reads an exponent: nothing, or `e` with an optional sign and one or more digits. -/
def readExponent? : List Char → Option Int
  | [] => some 0
  | e :: cs =>
    if e = 'e' ∨ e = 'E' then
      let (negative, digits) := Text.splitSign cs
      (Text.readNat? digits).map fun n => if negative then -n else n
    else none

/-- Reads an unsigned decimal: digits with an optional point, a digit on one side of it at least,
and an optional exponent. -/
def readDecimal? (negative : Bool) (cs : List Char) : Option Double :=
  let whole := cs.takeWhile Char.isDigit
  let (fraction, rest) :=
    match cs.dropWhile Char.isDigit with
    | '.' :: cs => (cs.takeWhile Char.isDigit, cs.dropWhile Char.isDigit)
    | cs => ([], cs)
  if whole ++ fraction = [] then none
  else (readExponent? rest).map fun e =>
    ofDecimal negative (Text.digitsValue (whole ++ fraction)) (e - fraction.length)

/-- Reads a double: an optional sign before a decimal or, in any case of their letters, before
`inf`, `infinity` or `nan`. -/
def ofText? (s : String) : Option Double :=
  let (negative, cs) := Text.splitSign s.toList
  let word := String.ofList (cs.map Char.toLower)
  if word = "inf" ∨ word = "infinity" then some (.infinite negative)
  else if word = "nan" then some .nan
  else readDecimal? negative cs

end Double

end EntityQuery
