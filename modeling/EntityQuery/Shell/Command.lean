import EntityQuery.Text.Space

/-!
The commands of the shell, as they are recognised in a line.
-/

namespace EntityQuery

/-- A command. -/
inductive ShellCommand where
  /-- A blank line or a comment. -/
  | nothing
  /-- Query another entity type, or tell which one is queried. -/
  | entity (name : String)
  /-- Set or clear the current user. -/
  | user (name : String)
  /-- Set the clock, or reset it. -/
  | now (text : String)
  /-- Show the prepared form of a query. -/
  | prepared (query : String)
  /-- Run a query. -/
  | query (text : String)
  deriving DecidableEq

/-- The command of a line: its first word says which one, the rest is the argument. Anything that
begins with no command is a query. -/
def ShellCommand.ofLine (line : String) : ShellCommand :=
  match Text.trimmed line.toList with
  | [] => nothing
  | '-' :: '-' :: _ => nothing
  | cs =>
    let argument := String.ofList (Text.trimmed (cs.dropWhile fun c => !Text.isSpace c))
    match String.ofList (cs.takeWhile fun c => !Text.isSpace c) with
    | "\\e" => entity argument
    | "\\user" => user argument
    | "\\now" => now argument
    | "\\p" => prepared argument
    | _ => query (String.ofList cs)

end EntityQuery
