import EntityQuery.Like

/-!
Patterns as regular expressions.

A pattern may be left to a library of regular expressions: it is written as an expression that is
anchored at both ends, with whatever is meant literally escaped. Of the language of expressions,
what these use is described: flags in front, anchors, single characters and their repetition.
-/

namespace EntityQuery

namespace Regex

/-- One character of a text, as an expression describes it. -/
inductive Atom where
  | literal (c : Char)
  | any
  deriving DecidableEq

/-- A sign of an expression. -/
inductive Symbol where
  | atom (a : Atom)
  | caret
  | dollar
  | star
  deriving DecidableEq

/-- A part of an expression. -/
inductive Part where
  /-- The beginning of the text. -/
  | beginning
  /-- The end of the text. -/
  | ending
  | once (a : Atom)
  /-- Any number of characters of one description, none too. -/
  | repeated (a : Atom)
  deriving DecidableEq

/-- An expression: its flags, and its parts one after the other. -/
structure Expression where
  ignoreCase : Bool
  /-- Whether any character may be a line feed. -/
  dotAll : Bool
  parts : List Part
  deriving DecidableEq

/-! ### Syntax -/

/-- Whether a backslash takes the meaning away from a character: it does from ASCII punctuation,
angle brackets apart. -/
def isEscapable (c : Char) : Bool :=
  c.toNat < 0x80 && !c.isAlphanum && c != '<' && c != '>'

/-- What a character stands for, if it stands for a sign that is described here. -/
def symbol? : Char → Option Symbol
  | '.' => some (.atom .any)
  | '^' => some .caret
  | '$' => some .dollar
  | '*' => some .star
  | '\\' | '+' | '?' | '(' | ')' | '|' | '[' | '{' => none
  | c => some (.atom (.literal c))

/-- The signs of an expression. -/
def symbols? : List Char → Option (List Symbol)
  | [] => some []
  | '\\' :: [] => none
  | '\\' :: c :: cs =>
    if isEscapable c then (symbols? cs).map (.atom (.literal c) :: ·) else none
  | c :: cs => (symbol? c).bind fun s => (symbols? cs).map (s :: ·)

/-- The parts that signs make: a star repeats what stands before it. -/
def parts? : List Symbol → Option (List Part)
  | [] => some []
  | .atom a :: .star :: rest => (parts? rest).map (.repeated a :: ·)
  | .atom a :: rest => (parts? rest).map (.once a :: ·)
  | .caret :: rest => (parts? rest).map (.beginning :: ·)
  | .dollar :: rest => (parts? rest).map (.ending :: ·)
  | .star :: _ => none

/-- Reads an expression; flags stand in front of it. -/
def Expression.read? (source : List Char) : Option Expression :=
  match source with
  | '(' :: '?' :: cs =>
    let flags := cs.takeWhile (· != ')')
    if flags.all fun f => f == 'i' || f == 's' then
      ((symbols? ((cs.dropWhile (· != ')')).drop 1)).bind parts?).map
        fun parts => ⟨flags.contains 'i', flags.contains 's', parts⟩
    else none
  | cs => ((symbols? cs).bind parts?).map fun parts => ⟨false, false, parts⟩

/-! ### Meaning -/

/-- Reads as many characters as it takes for the rest of an expression to be found behind them. -/
def repeatedThen (takes : Char → Bool) (next : Bool → List Char → Bool) :
    Bool → List Char → Bool
  | atStart, [] => next atStart []
  | atStart, c :: cs =>
    next atStart (c :: cs) || (takes c && repeatedThen takes next false cs)

namespace Expression

/-- Whether a character is as an atom describes it. Letters are the same up to the case of ASCII. -/
def takes (x : Expression) : Atom → Char → Bool
  | .literal c, d => Pattern.sameChar x.ignoreCase c d
  | .any, d => x.dotAll || d != '\n'

/-- Whether parts are found right at a place of a text, given whether the text starts there and its
characters from there on. -/
def foundAt (x : Expression) : List Part → Bool → List Char → Bool
  | [], _, _ => true
  | .beginning :: ps, atStart, cs => atStart && foundAt x ps atStart cs
  | .ending :: ps, atStart, cs => cs.isEmpty && foundAt x ps atStart cs
  | .once _ :: _, _, [] => false
  | .once a :: ps, _, c :: cs => x.takes a c && foundAt x ps false cs
  | .repeated a :: ps, atStart, cs => repeatedThen (x.takes a) (foundAt x ps) atStart cs

/-- Whether the expression is found at some place from one on. -/
def foundFrom (x : Expression) : Bool → List Char → Bool
  | atStart, [] => x.foundAt x.parts atStart []
  | atStart, c :: cs => x.foundAt x.parts atStart (c :: cs) || foundFrom x false cs

/-- Whether the expression is found anywhere in a text. -/
def foundIn (x : Expression) (text : String) : Bool :=
  x.foundFrom true text.toList

end Expression

/-- A library of regular expressions. -/
structure Library where
  /-- The expressions it has read. -/
  Compiled : Type
  /-- A character so that it is taken literally. -/
  escape : Char → List Char
  /-- Whether an expression keeps within the size that it takes. -/
  fits : List Char → Prop
  /-- Reads an expression, or says what is wrong with it. -/
  compile : List Char → Except String Compiled
  /-- Whether an expression is found in a text. -/
  isMatch : Compiled → String → Bool

/-- What a library documents: escaped characters are literal ones, and the expressions described
here are read and found as described, if they are not too large. -/
structure Library.Documented (l : Library) : Prop where
  escaped (c : Char) (rest : List Char) :
    symbols? (l.escape c ++ rest) = (symbols? rest).map (.atom (.literal c) :: ·)
  compiled {source : List Char} {x : Expression} (read : Expression.read? source = some x)
    (fits : l.fits source) :
    ∃ compiled, l.compile source = .ok compiled ∧ ∀ text, l.isMatch compiled text = x.foundIn text

end Regex

namespace LikePattern

/-- The expression of a pattern between its anchors. -/
def regexBody (escape : Char → List Char) : List Char → List Char
  | [] => []
  | '%' :: cs => '.' :: '*' :: regexBody escape cs
  | '_' :: cs => '.' :: regexBody escape cs
  | '\\' :: [] => []
  | '\\' :: c :: cs => escape c ++ regexBody escape cs
  | c :: cs => escape c ++ regexBody escape cs

/-- The expression of a pattern. -/
def regex (escape : Char → List Char) (ignoreCase : Bool) (pattern : String) : List Char :=
  (if ignoreCase then "(?is)^" else "(?s)^").toList ++ regexBody escape pattern.toList ++ ['$']

/-- Reads a pattern as an expression of a library. -/
def compileRegex (l : Regex.Library) (pattern : String) (ignoreCase : Bool) :
    Except EvaluationError l.Compiled :=
  match checkPattern pattern with
  | .error e => .error e
  | .ok () =>
    match l.compile (regex l.escape ignoreCase pattern) with
    | .error message => .error (.invalidPattern pattern message)
    | .ok compiled => .ok compiled

end LikePattern

end EntityQuery
