/-!
White space: the twenty-five characters with the Unicode property White_Space.
-/

namespace EntityQuery.Text

/-- A character with the property White_Space. -/
def isSpace (c : Char) : Bool :=
  let n := c.toNat
  (0x9 ≤ n && n ≤ 0xD) || n == 0x20 || n == 0x85 || n == 0xA0 || n == 0x1680
    || (0x2000 ≤ n && n ≤ 0x200A) || n == 0x2028 || n == 0x2029 || n == 0x202F || n == 0x205F
    || n == 0x3000

/-- The text from its first character that is not white space on. -/
def dropSpace (cs : List Char) : List Char :=
  cs.dropWhile isSpace

/-- The characters without white space at either end. -/
def trimmed (cs : List Char) : List Char :=
  (dropSpace (dropSpace cs).reverse).reverse

/-- The text without white space at either end. -/
def trim (s : String) : String :=
  String.ofList (trimmed s.toList)

end EntityQuery.Text
