import EntityQuery.Number.Written

/-!
Tokens of the query language, and their positions in a text.
-/

namespace EntityQuery

/-- The reserved words. -/
inductive Keyword where
  | and
  | or
  | not
  | isIn
  | like
  | ilike
  | contains
  | is
  | null
  deriving DecidableEq, Inhabited

namespace Keyword

/-- Every reserved word. -/
def all : List Keyword :=
  [and, or, not, isIn, like, ilike, contains, is, null]

/-- The word in capitals. -/
def word : Keyword → String
  | and => "AND"
  | or => "OR"
  | not => "NOT"
  | isIn => "IN"
  | like => "LIKE"
  | ilike => "ILIKE"
  | contains => "CONTAINS"
  | is => "IS"
  | null => "NULL"

/-- The capital of a character, as far as reserved words go: besides the ASCII letters, the dotless
i and the long s are written with a capital that occurs in them. -/
def capital (c : Char) : Char :=
  if c = '\u0131' then 'I' else if c = '\u017F' then 'S' else c.toUpper

/-- The reserved word that a name spells, in whatever case. -/
def ofName? (name : List Char) : Option Keyword :=
  all.find? fun k => name.map capital == k.word.toList

end Keyword

/-- Punctuation and comparison signs. -/
inductive Sign where
  | leftParen
  | rightParen
  | leftBracket
  | rightBracket
  | comma
  | dot
  | eq
  | ne
  | lt
  | le
  | gt
  | ge
  deriving DecidableEq, Inhabited

/-- The sign in its canonical spelling. -/
def Sign.text : Sign → String
  | leftParen => "("
  | rightParen => ")"
  | leftBracket => "["
  | rightBracket => "]"
  | comma => ","
  | dot => "."
  | eq => "="
  | ne => "!="
  | lt => "<"
  | le => "<="
  | gt => ">"
  | ge => ">="

/-- What a token is, apart from its position. -/
inductive TokenKind where
  | keyword (k : Keyword)
  | name (s : String)
  | int (i : Int64)
  | float (f : Double)
  | string (s : String)
  | sign (s : Sign)
  | endOfInput
  deriving DecidableEq, Inhabited

namespace TokenKind

/-- The name of a kind of token. -/
def label : TokenKind → String
  | keyword k => k.word
  | name _ => "identifier"
  | int _ => "integer"
  | float _ => "number"
  | string _ => "string"
  | sign s => "'" ++ s.text ++ "'"
  | endOfInput => "end of input"

/-- The name of a token with its content. -/
def describe : TokenKind → String
  | name s => "identifier '" ++ s ++ "'"
  | int i => "integer " ++ Text.integerText i.toInt
  | float f => "number " ++ f.plainText
  | string s => "string '" ++ s ++ "'"
  | t => t.label

/-- Whether the token is a reserved word. -/
def isKeyword : TokenKind → Bool
  | keyword _ => true
  | _ => false

end TokenKind

/-- A place in a text: its offset in bytes, its line and its column in characters. -/
structure Position where
  offset : Nat
  line : Nat
  column : Nat
  deriving DecidableEq

namespace Position

/-- The beginning of a text. -/
def start : Position :=
  ⟨0, 1, 1⟩

/-- The place after a character. -/
def step (p : Position) (c : Char) : Position :=
  if c = '\n' then ⟨p.offset + c.utf8Size, p.line + 1, 1⟩
  else ⟨p.offset + c.utf8Size, p.line, p.column + 1⟩

/-- The place after some characters. -/
def after (p : Position) (cs : List Char) : Position :=
  cs.foldl step p

end Position

/-- A stretch of a text: the offsets of its ends, and the line and column where it starts. -/
structure Span where
  start : Nat
  stop : Nat
  line : Nat
  column : Nat
  deriving DecidableEq

/-- The stretch that some characters take up from a place on. -/
def Span.covering (p : Position) (cs : List Char) : Span :=
  ⟨p.offset, (p.after cs).offset, p.line, p.column⟩

/-- A token in a text. -/
structure Token where
  kind : TokenKind
  span : Span
  deriving DecidableEq

end EntityQuery
