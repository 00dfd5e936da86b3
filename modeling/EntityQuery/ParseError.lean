import EntityQuery.RawQuery
import EntityQuery.Token

/-!
Faults of a query's text.
-/

namespace EntityQuery

/-- What the grammar asks for at some place. -/
inductive Expectation where
  | propertyName
  | operator
  | value
  | negatable
  | absence
  | sign (s : Sign)
  /-- A connective, sort clauses or the end, after a predicate. -/
  | continuation
  | endOfInput
  deriving DecidableEq

/-- What an expectation is called. -/
def Expectation.text : Expectation → String
  | propertyName => "property name"
  | operator => "operator"
  | value => "value"
  | negatable => "LIKE, ILIKE, CONTAINS or IN after NOT"
  | absence => "NULL or EMPTY after IS"
  | sign s => (TokenKind.sign s).label
  | continuation => "AND, OR, ORDER BY or end of input"
  | endOfInput => "end of input"

/-- Why a text is no query. -/
inductive ParseFault where
  | unexpectedToken (expected : Expectation) (found : TokenKind)
  | unexpectedCharacter (c : Char)
  | unterminatedString
  | invalidNumber (text : String)
  | unknownFunction (name : String)
  | functionArguments (function : Function) (found : TokenKind)
  /-- A list after an operator that compares with one value. -/
  | listNotAllowed (operator : Operator)
  /-- A sort clause without a direction. -/
  | missingDirection (property : String) (found : TokenKind)
  deriving DecidableEq

namespace ParseFault

/-- The wording of a fault. -/
def message : ParseFault → String
  | unexpectedToken expected found => "expected " ++ expected.text ++ ", found " ++ found.describe
  | unexpectedCharacter c => "unexpected character '" ++ String.singleton c ++ "'"
  | unterminatedString => "unterminated string literal"
  | invalidNumber text => "invalid number literal '" ++ text ++ "'"
  | unknownFunction name =>
    "unknown function '" ++ name ++ "', known: "
      ++ String.intercalate ", " (Function.all.map Function.call)
  | functionArguments function found =>
    "function '" ++ function.name ++ "' takes no arguments, found " ++ found.describe
  | listNotAllowed operator => "a list of values is not allowed after '" ++ operator.token ++ "'"
  | missingDirection property found =>
    "expected ASC or DESC after '" ++ property ++ "', found " ++ found.describe

/-- What stands at the place of the fault, where something was read there. -/
def found? : ParseFault → Option String
  | unexpectedToken _ found | functionArguments _ found | missingDirection _ found =>
    some found.describe
  | invalidNumber text | unknownFunction text => some text
  | _ => none

end ParseFault

/-- A fault and its place. -/
structure ParseError where
  fault : ParseFault
  span : Span
  deriving DecidableEq

/-- The wording of an error, with its place. -/
def ParseError.message (e : ParseError) : String :=
  "Parse error at line " ++ Text.integerText e.span.line ++ ", column "
    ++ Text.integerText e.span.column ++ ": " ++ e.fault.message

end EntityQuery
