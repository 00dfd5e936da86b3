import EntityQuery.Json

/-!
Tokens of the text of a document: marks, and the values that are no containers.

A token is read from its first character and the characters after it; the reader says how many of
those belong to it.
-/

namespace EntityQuery

/-- A token of a document. -/
inductive JsonToken where
  | openArray
  | closeArray
  | openObject
  | closeObject
  | comma
  | colon
  | string (s : String)
  /-- A string with half of a surrogate pair. -/
  | illegibleString
  /-- Null, a truth value or a number. -/
  | plain (j : Json)

namespace JsonToken

/-- Whether a character may stand between tokens. -/
def isBlank (c : Char) : Bool :=
  c == ' ' || c == '\n' || c == '\t' || c == '\r'

/-- The value of a digit in base sixteen. -/
def hexDigit? (c : Char) : Option Nat :=
  if c.isDigit then some (c.toNat - '0'.toNat)
  else if 'a' ≤ c ∧ c ≤ 'f' then some (c.toNat - 'a'.toNat + 10)
  else if 'A' ≤ c ∧ c ≤ 'F' then some (c.toNat - 'A'.toNat + 10)
  else none

/-- The number of four digits in base sixteen. -/
def hexUnit? (a b c d : Char) : Option Nat := do
  return (((← hexDigit? a) * 16 + (← hexDigit? b)) * 16 + (← hexDigit? c)) * 16 + (← hexDigit? d)

/-- The character of an escape of one letter. -/
def escape? : Char → Option Char
  | '"' => some '"'
  | '\\' => some '\\'
  | '/' => some '/'
  | 'b' => some '\x08'
  | 'f' => some '\x0c'
  | 'n' => some '\n'
  | 'r' => some '\r'
  | 't' => some '\t'
  | _ => none

/-- The character of a code unit that is no surrogate. -/
def charOfUnit? (unit : Nat) : Option Char :=
  if 0xD800 ≤ unit ∧ unit < 0xE000 then none else some (Char.ofNat unit)

/-- The character of a pair of surrogates. -/
def charOfPair? (high low : Nat) : Option Char :=
  if 0xD800 ≤ high ∧ high < 0xDC00 ∧ 0xDC00 ≤ low ∧ low < 0xE000 then
    some (Char.ofNat (0x10000 + (high - 0xD800) * 0x400 + (low - 0xDC00)))
  else none

/-- One character of a string's content, from the characters at the front of a text, and how many of
them it takes up. Half of a surrogate pair is no character. -/
def contentChar? : List Char → Option (Option Char × Nat)
  | '\\' :: 'u' :: a :: b :: c :: d :: rest =>
    match hexUnit? a b c d with
    | none => none
    | some unit =>
      match charOfUnit? unit with
      | some ch => some (some ch, 6)
      | none =>
        match rest with
        | '\\' :: 'u' :: e :: f :: g :: h :: _ =>
          match (hexUnit? e f g h).bind (charOfPair? unit) with
          | some ch => some (some ch, 12)
          | none => some (none, 6)
        | _ => some (none, 6)
  | '\\' :: c :: _ => (escape? c).map fun ch => (some ch, 2)
  | c :: _ => if c = '\\' ∨ c.toNat < 0x20 then none else some (some c, 1)
  | [] => none

/-- The content of a string up to its closing quote, and how many characters it takes up with the
quote. -/
def content? (cs : List Char) : Option (List (Option Char) × Nat) :=
  match _h : cs with
  | '"' :: _ => some ([], 1)
  | [] => none
  | first :: rest =>
    match contentChar? (first :: rest) with
    | none => none
    | some (c, n) =>
      (content? (rest.drop (n - 1))).map fun (content, m) => (c :: content, max n 1 + m)
termination_by cs.length
decreasing_by
  simp only [List.length_drop, List.length_cons]
  omega

/-- The string of a content. -/
def ofContent (content : List (Option Char)) : JsonToken :=
  match content.mapM id with
  | some cs => string (String.ofList cs)
  | none => illegibleString

/-- Appends digits to a number while it stays within 64 bits, and gives the digits left over. -/
def appendDigits (n : Nat) : List Char → Nat × List Char
  | [] => (n, [])
  | c :: cs =>
    if 10 * n + Text.digitValue c < UInt64.size then appendDigits (10 * n + Text.digitValue c) cs
    else (n, c :: cs)

/-- The largest exponent of a power of ten that is a finite double. -/
def maxPower : Nat :=
  308

/-- The double nearest to a power of ten. -/
def powerOfTen (n : Nat) : Double :=
  .ofDecimal false 1 n

/-- A double moved down by decimal places, in steps of the largest power of ten, each rounded. -/
def shrink (d : Double) (places : Nat) : Double :=
  if places ≤ maxPower then d.div (powerOfTen places)
  else if d == .zero then d
  else shrink (d.div (powerOfTen maxPower)) (places - maxPower)
termination_by places
decreasing_by
  simp only [maxPower] at *
  omega

/-- A whole number scaled by a power of ten. The number, the power and their product or quotient are
each rounded, so that the result may differ from the nearest double in its last bits. -/
def scale (negative : Bool) (digits : Nat) (exponent : Int) : Double :=
  let d := Double.round negative (digits * Double.one) 1
  if exponent < 0 then shrink d exponent.natAbs
  else if digits = 0 then d
  else if exponent.toNat ≤ maxPower then d.mul (powerOfTen exponent.toNat)
  else .infinite negative

/-- A whole number: an integer if it fits into 64 bits with its sign, which minus zero does not. -/
def wholeNumber (negative : Bool) (n : Nat) : JsonNumber :=
  if negative then
    if 0 < n ∧ n ≤ Nat.pow 2 63 then .integer (-n) else .double (.round true (n * Double.one) 1)
  else .integer n

/-- The digits of a fraction, with the point in front of them, and what follows. There is none if no
point follows; a point without digits is at fault. -/
def fraction? : List Char → Option (List Char × Nat)
  | '.' :: cs =>
    let digits := cs.takeWhile Char.isDigit
    if digits = [] then none else some (digits, digits.length + 1)
  | _ => some ([], 0)

/-- The exponent at the front of a text, if there is one, and how many characters it takes up. An
exponent without digits is at fault. -/
def exponent? : List Char → Option (Option Int × Nat)
  | e :: cs =>
    if e = 'e' ∨ e = 'E' then
      let (negative, rest) := Text.splitSign cs
      let digits := rest.takeWhile Char.isDigit
      if digits = [] then none
      else
        let n : Int := Text.digitsValue digits
        some (some (if negative then -n else n), 1 + (cs.length - rest.length) + digits.length)
    else some (none, 0)
  | [] => some (none, 0)

/-- Reads a number after its sign, and counts its characters. The digits beyond 64 bits only count
for the size of the number. -/
def number? (negative : Bool) (cs : List Char) : Option (JsonNumber × Nat) :=
  let whole := cs.takeWhile Char.isDigit
  if whole = [] ∨ (whole.head? = some '0' ∧ whole.length ≠ 1) then none
  else do
    let (fraction, fractionLength) ← fraction? (cs.drop whole.length)
    let (exponent, exponentLength) ← exponent? (cs.drop (whole.length + fractionLength))
    let (n, beyond) := appendDigits 0 whole
    let length := whole.length + fractionLength + exponentLength
    if fraction = [] ∧ exponent = none ∧ beyond = [] then
      return (wholeNumber negative n, length)
    else
      let (n, dropped) := appendDigits n fraction
      let places : Int := fraction.length - dropped.length
      return (.double (scale negative n (exponent.getD 0 + beyond.length - places)), length)

/-- The token of a number. -/
def ofNumber (n : JsonNumber) : JsonToken :=
  plain (if n.isFinite then .number n else .illegible)

/-- Reads a word of which the first letter has been read. -/
def word? (j : Json) (rest : List Char) (cs : List Char) : Option (JsonToken × Nat) :=
  if rest.isPrefixOf cs then some (plain j, rest.length) else none

/-- Reads a token from its first character and what follows, and counts the characters after the
first that belong to it. -/
def read? (first : Char) (cs : List Char) : Option (JsonToken × Nat) :=
  match first with
  | '[' => some (openArray, 0)
  | ']' => some (closeArray, 0)
  | '\x7b' => some (openObject, 0)
  | '\x7d' => some (closeObject, 0)
  | ',' => some (comma, 0)
  | ':' => some (colon, 0)
  | '"' => (content? cs).map fun (content, n) => (ofContent content, n)
  | 'n' => word? .null ['u', 'l', 'l'] cs
  | 't' => word? (.bool true) ['r', 'u', 'e'] cs
  | 'f' => word? (.bool false) ['a', 'l', 's', 'e'] cs
  | '-' => (number? true cs).map fun (n, length) => (ofNumber n, length)
  | c => (number? false (c :: cs)).map fun (n, length) => (ofNumber n, length - 1)

/-- The tokens of a text. -/
def all? (cs : List Char) : Option (List JsonToken) :=
  match _h : cs.dropWhile isBlank with
  | [] => some []
  | c :: rest =>
    match read? c rest with
    | none => none
    | some (token, n) => (all? (rest.drop n)).map (token :: ·)
termination_by cs.length
decreasing_by
  have : (cs.dropWhile isBlank).length ≤ cs.length := (List.dropWhile_suffix isBlank).length_le
  simp only [_h, List.length_cons] at this
  simp only [List.length_drop]
  omega

end JsonToken

end EntityQuery
