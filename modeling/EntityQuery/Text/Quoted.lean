import EntityQuery.Text.Hidden

/-!
Quoted text: the literal of the query language, and the form that diagnostics show.
-/

namespace EntityQuery.Text

/-- A backslash in front of every backslash and single quote. -/
def escapeQuotes : List Char → List Char
  | [] => []
  | c :: cs => if c = '\\' ∨ c = '\'' then '\\' :: c :: escapeQuotes cs else c :: escapeQuotes cs

/-- The string literal of a text, in single quotes. -/
def quote (s : String) : String :=
  String.ofList ('\'' :: escapeQuotes s.toList ++ ['\''])

/-- A number in base sixteen, in lower case. -/
def hexNumeral (n : Nat) : List Char :=
  Nat.toDigits 16 n

/-- The diagnostic form of a character: escapes for controls, quotes and backslashes, and the code
point of a character that has no shape of its own. -/
def shownChar (c : Char) : List Char :=
  match c with
  | '\x00' => ['\\', '0']
  | '\t' => ['\\', 't']
  | '\r' => ['\\', 'r']
  | '\n' => ['\\', 'n']
  | '"' => ['\\', '"']
  | '\\' => ['\\', '\\']
  | c => if isHidden c then '\\' :: 'u' :: '\x7b' :: hexNumeral c.toNat ++ ['\x7d'] else [c]

/-- The diagnostic form of a text, in double quotes. -/
def shown (s : String) : String :=
  String.ofList ('"' :: s.toList.flatMap shownChar ++ ['"'])

/-- Texts in brackets, separated by commas. -/
def bracketed (opening closing : String) (items : List String) : String :=
  opening ++ String.intercalate ", " items ++ closing

/-- The diagnostic form of a list of texts. -/
def shownList (items : List String) : String :=
  bracketed "[" "]" (items.map shown)

end EntityQuery.Text
