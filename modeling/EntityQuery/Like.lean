import EntityQuery.Strategy

/-!
Patterns of text. A percent sign stands for any run of characters, an underscore for one character,
and a backslash takes the next character literally.

A pattern is matched by following all ways of reading it at once: after each piece, the texts that
may remain are suffixes of one another, and are kept longest first.
-/

namespace EntityQuery

/-- A piece of a pattern. -/
inductive PatternPiece where
  /-- Any run of characters, the empty one too. -/
  | run
  /-- Any one character. -/
  | one
  /-- The character itself. -/
  | literal (c : Char)
  deriving DecidableEq

/-- Escapes the characters with a meaning in patterns. -/
def escapePattern : List Char → List Char
  | [] => []
  | c :: cs =>
    if c = '\\' ∨ c = '%' ∨ c = '_' then '\\' :: c :: escapePattern cs
    else c :: escapePattern cs

/-- The pattern that stands for a text itself. -/
def escapeLike (s : String) : String :=
  String.ofList (escapePattern s.toList)

namespace Pattern

/-- The pieces of a pattern; none if it ends in a backslash that escapes nothing. -/
def pieces? : List Char → Option (List PatternPiece)
  | [] => some []
  | '\\' :: [] => none
  | '\\' :: c :: cs => (pieces? cs).map (.literal c :: ·)
  | '%' :: cs => (pieces? cs).map (.run :: ·)
  | '_' :: cs => (pieces? cs).map (.one :: ·)
  | c :: cs => (pieces? cs).map (.literal c :: ·)

/-- Equality of characters, up to the case of ASCII letters if so wanted. -/
def sameChar (ignoreCase : Bool) (a b : Char) : Bool :=
  if ignoreCase then a.toLower == b.toLower else a == b

/-- A text and what is left of it as characters are taken off the front, down to nothing. -/
def suffixes : List Char → List (List Char)
  | [] => [[]]
  | c :: cs => (c :: cs) :: suffixes cs

/-- The texts that may remain after a piece, given those that may remain before it. -/
def advance (ignoreCase : Bool) (remaining : List (List Char)) : PatternPiece → List (List Char)
  | .run => (remaining.head?.map suffixes).getD []
  | .one => remaining.filterMap List.tail?
  | .literal c => remaining.filterMap fun
    | [] => none
    | d :: ds => if sameChar ignoreCase c d then some ds else none

/-- Whether the pieces describe the whole text. -/
def describes (ignoreCase : Bool) (pieces : List PatternPiece) (text : List Char) : Bool :=
  (pieces.foldl (advance ignoreCase) [text]).any List.isEmpty

end Pattern

/-- The text of the error about a pattern's last backslash. -/
def danglingEscape : String :=
  "pattern ends with a dangling escape"

/-- Accepts the patterns whose every backslash escapes a character. -/
def checkPattern (pattern : String) : Except EvaluationError Unit :=
  match Pattern.pieces? pattern.toList with
  | some _ => .ok ()
  | none => .error (.invalidPattern pattern danglingEscape)

/-- A pattern that has been read. -/
structure LikePattern where
  pieces : List PatternPiece
  ignoreCase : Bool
  deriving DecidableEq

namespace LikePattern

/-- Reads a pattern. -/
def compile (pattern : String) (ignoreCase : Bool) : Except EvaluationError LikePattern :=
  match Pattern.pieces? pattern.toList with
  | some pieces => .ok ⟨pieces, ignoreCase⟩
  | none => .error (.invalidPattern pattern danglingEscape)

/-- Whether the pattern describes the whole text. -/
def accepts (p : LikePattern) (text : String) : Bool :=
  Pattern.describes p.ignoreCase p.pieces text.toList

end LikePattern

end EntityQuery
