import EntityQuery.Number.Written

/-!
JSON documents and their compact text.

Numbers are integers of 64 bits, with or without a sign, or doubles. The members of an object keep
the order of the document and may repeat a name; in the text they stand by name, the last one of
each.
-/

namespace EntityQuery

/-- A number of a document. -/
inductive JsonNumber where
  | integer (i : Int)
  | double (d : Double)
  deriving Inhabited

/-- A document. -/
inductive Json where
  | null
  | bool (b : Bool)
  | number (n : JsonNumber)
  | string (s : String)
  | array (items : List Json)
  | object (members : List (String × Json))
  /-- A part that is well formed and stands for nothing: a number too large for a double, a string
  with half of a surrogate pair, or an object with such a name. It does no harm where it is passed
  over. -/
  | illegible
  deriving Inhabited

namespace JsonNumber

/-- The text of a number. -/
def text : JsonNumber → String
  | integer i => Text.integerText i
  | double d => DoubleLayout.json.text d

/-- The integer of 64 bits with a sign, if the number is one. -/
def int? : JsonNumber → Option Int64
  | integer i => Text.fitInt64? i
  | double _ => none

/-- The nearest double. -/
def toDouble : JsonNumber → Double
  | integer i => .ofInt i
  | double d => d

/-- Whether the number is finite; one too large for a double is not. -/
def isFinite : JsonNumber → Bool
  | double (.finite ..) | integer _ => true
  | double _ => false

end JsonNumber

namespace Json

/-- The characters for one character inside a string. -/
def escapedChar (c : Char) : List Char :=
  match c with
  | '"' => ['\\', '"']
  | '\\' => ['\\', '\\']
  | '\x08' => ['\\', 'b']
  | '\x0c' => ['\\', 'f']
  | '\n' => ['\\', 'n']
  | '\r' => ['\\', 'r']
  | '\t' => ['\\', 't']
  | c =>
    if c.toNat < 0x20 then
      let digits := Nat.toDigits 16 c.toNat
      '\\' :: 'u' :: List.replicate (4 - digits.length) '0' ++ digits
    else [c]

/-- The text of a string. -/
def stringText (s : String) : String :=
  String.ofList ('"' :: s.toList.flatMap escapedChar ++ ['"'])

/-- Puts a named item among others that are sorted by name, in place of one of the same name. -/
def insertByName {α : Type} (name : String) (a : α) : List (String × α) → List (String × α)
  | [] => [(name, a)]
  | (other, b) :: rest =>
    match compare name other with
    | .lt => (name, a) :: (other, b) :: rest
    | .eq => (name, a) :: rest
    | .gt => (other, b) :: insertByName name a rest

/-- Named items sorted by name; the last one of a name counts. -/
def byName {α : Type} (items : List (String × α)) : List (String × α) :=
  items.foldl (fun sorted (name, a) => insertByName name a sorted) []

mutual

/-- The compact text of a document. -/
def text : Json → String
  | null => "null"
  | bool b => if b then "true" else "false"
  | number n => n.text
  | string s => stringText s
  | array items => "[" ++ String.intercalate "," (texts items) ++ "]"
  | illegible => ""
  | object members =>
    "\x7b" ++ String.intercalate ","
      ((byName (memberTexts members)).map fun (name, t) => stringText name ++ ":" ++ t) ++ "\x7d"

/-- The texts of the items of an array. -/
def texts : List Json → List String
  | [] => []
  | j :: js => text j :: texts js

/-- The texts of the members of an object. -/
def memberTexts : List (String × Json) → List (String × String)
  | [] => []
  | (name, j) :: rest => (name, text j) :: memberTexts rest

end

mutual

/-- Whether every part of a document is legible and no container lies deeper than the given number
of levels. -/
def isLegible (levels : Nat) : Json → Bool
  | array items => levels != 0 && areLegible (levels - 1) items
  | object members => levels != 0 && membersLegible (levels - 1) members
  | illegible => false
  | _ => true

/-- Whether documents are legible within the given number of levels. -/
def areLegible (levels : Nat) : List Json → Bool
  | [] => true
  | j :: js => isLegible levels j && areLegible levels js

/-- Whether the values of members are legible within the given number of levels. -/
def membersLegible (levels : Nat) : List (String × Json) → Bool
  | [] => true
  | (_, j) :: rest => isLegible levels j && membersLegible levels rest

end

end Json

end EntityQuery
