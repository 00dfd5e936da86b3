import EntityQuery.ParseError
import EntityQuery.Text.Letter
import EntityQuery.Text.Space

/-!
Tokens of a text.

A lexeme is read from its first character and the characters after it; the reader says how many of
those belong to it. The lexemes of a text, and the white space between them, are the whole text.
-/

namespace EntityQuery

namespace Lexeme

/-- The content of a string up to its closing quote, and how many characters it takes up with the
quote. A backslash takes away the meaning of a quote or a backslash; before any other character it
stands for itself. -/
def stringBody? (quote : Char) : List Char → Option (List Char × Nat)
  | [] => none
  | '\\' :: [] => none
  | '\\' :: c :: cs =>
    (stringBody? quote cs).map fun (body, n) =>
      (if c = quote ∨ c = '\\' then (c :: body, n + 2) else ('\\' :: c :: body, n + 2))
  | c :: cs =>
    if c = quote then some ([], 1)
    else (stringBody? quote cs).map fun (body, n) => (c :: body, n + 1)

/-- The point and the digits that go on a number: a point counts only before a digit. -/
def fraction : List Char → List Char
  | '.' :: d :: cs => if d.isDigit then '.' :: d :: cs.takeWhile Char.isDigit else []
  | _ => []

/-- The exponent at the front of a text, as far as it goes: its mark with an optional sign, and its
digits. -/
def exponent : List Char → List Char × List Char
  | e :: cs =>
    if e = 'e' ∨ e = 'E' then
      match cs with
      | '+' :: ds => (['e', '+'], ds.takeWhile Char.isDigit)
      | '-' :: ds => (['e', '-'], ds.takeWhile Char.isDigit)
      | ds => (['e'], ds.takeWhile Char.isDigit)
    else ([], [])
  | [] => ([], [])

/-- Reads a number from its first character, a digit or a minus sign, and what follows. -/
def number (first : Char) (cs : List Char) : Except (ParseFault × Nat) (TokenKind × Nat) :=
  let whole := cs.takeWhile Char.isDigit
  let fraction := fraction (cs.dropWhile Char.isDigit)
  let (mark, digits) := exponent ((cs.dropWhile Char.isDigit).drop fraction.length)
  let further := whole ++ fraction ++ mark ++ digits
  let text := String.ofList (first :: further)
  let value? : Option TokenKind :=
    if mark ≠ [] ∧ digits = [] then none
    else if fraction = [] ∧ mark = [] then (Text.readInt64? text.toList).map .int
    else (Double.ofText? text).map .float
  match value? with
  | some kind => .ok (kind, further.length)
  | none => .error (.invalidNumber text, further.length)

/-- Whether a name may start with a character. -/
def startsName (c : Char) : Bool :=
  c == '_' || Text.isLetter c

/-- Whether a name may go on with a character. -/
def continuesName (c : Char) : Bool :=
  c == '_' || Text.isLetterOrNumber c

/-- Reads a name or a reserved word. -/
def word (first : Char) (cs : List Char) : TokenKind × Nat :=
  let further := cs.takeWhile continuesName
  match Keyword.ofName? (first :: further) with
  | some k => (.keyword k, further.length)
  | none => (.name (String.ofList (first :: further)), further.length)

/-- Reads a lexeme from its first character and what follows, and counts the characters after the
first that belong to it. A fault comes with the characters that it takes up. -/
def read (first : Char) (cs : List Char) : Except (ParseFault × Nat) (TokenKind × Nat) :=
  match first, cs with
  | '(', _ => .ok (.sign .leftParen, 0)
  | ')', _ => .ok (.sign .rightParen, 0)
  | '[', _ => .ok (.sign .leftBracket, 0)
  | ']', _ => .ok (.sign .rightBracket, 0)
  | ',', _ => .ok (.sign .comma, 0)
  | '.', _ => .ok (.sign .dot, 0)
  | '=', _ => .ok (.sign .eq, 0)
  | '<', '=' :: _ => .ok (.sign .le, 1)
  | '<', '>' :: _ => .ok (.sign .ne, 1)
  | '<', _ => .ok (.sign .lt, 0)
  | '>', '=' :: _ => .ok (.sign .ge, 1)
  | '>', _ => .ok (.sign .gt, 0)
  | '!', '=' :: _ => .ok (.sign .ne, 1)
  | c, cs =>
    if c = '\'' ∨ c = '"' then
      match stringBody? c cs with
      | some (body, n) => .ok (.string (String.ofList body), n)
      | none => .error (.unterminatedString, cs.length)
    else if c.isDigit ∨ (c = '-' ∧ (cs.head?.any Char.isDigit)) then number c cs
    else if startsName c then .ok (word c cs)
    else .error (.unexpectedCharacter c, 0)

end Lexeme

/-- The tokens from a place on; the last one is the end of the text. -/
def tokensFrom (p : Position) (cs : List Char) : Except ParseError (List Token) :=
  let p := p.after (cs.takeWhile Text.isSpace)
  match _h : Text.dropSpace cs with
  | [] => .ok [⟨.endOfInput, .covering p []⟩]
  | c :: rest =>
    match Lexeme.read c rest with
    | .error (fault, n) => .error ⟨fault, .covering p (c :: rest.take n)⟩
    | .ok (kind, n) =>
      match tokensFrom (p.after (c :: rest.take n)) (rest.drop n) with
      | .error e => .error e
      | .ok tokens => .ok (⟨kind, .covering p (c :: rest.take n)⟩ :: tokens)
termination_by cs.length
decreasing_by
  have : (Text.dropSpace cs).length ≤ cs.length := by
    simpa [Text.dropSpace] using (List.dropWhile_suffix Text.isSpace).length_le
  simp only [_h, List.length_cons] at this
  simp only [List.length_drop]
  omega

/-- The tokens of a text; the last one is its end. -/
def tokenize (text : String) : Except ParseError (List Token) :=
  tokensFrom .start text.toList

end EntityQuery
