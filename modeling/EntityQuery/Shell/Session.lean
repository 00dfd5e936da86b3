import EntityQuery.Shell
import EntityQuery.Text.Lines

/-!
Sessions of a shell: scripts, and conversations at a prompt.
-/

namespace EntityQuery

/-- What a session prints: answers, and errors apart from them. -/
structure Transcript where
  out : String
  err : String

namespace Transcript

/-- Nothing printed. -/
def empty : Transcript :=
  ⟨"", ""⟩

/-- One transcript after the other. -/
def append (a b : Transcript) : Transcript :=
  ⟨a.out ++ b.out, a.err ++ b.err⟩

instance : Append Transcript := ⟨append⟩

/-- Lines among the answers. -/
def ofLines (lines : List String) : Transcript :=
  ⟨String.join (lines.map (· ++ "\n")), ""⟩

/-- A line among the errors. -/
def ofError (message : String) : Transcript :=
  ⟨"", "Error: " ++ message ++ "\n"⟩

end Transcript

/-- What is printed of a reply; an empty answer is not. -/
def ShellReply.transcript (r : ShellReply) : Transcript :=
  .ofLines r.notes ++
    match r.answer with
    | .ok "" => .empty
    | .ok text => .ofLines [text]
    | .error e => .ofError e.message

namespace Shell

/-- Runs the lines of a script, one after the other. -/
def runLines (wallClock : DateTime) (s : Shell) : List String → Shell × Transcript
  | [] => (s, .empty)
  | line :: lines =>
    let r := s.execute wallClock line
    let (last, rest) := runLines wallClock r.shell lines
    (last, r.transcript ++ rest)

/-- Runs a script. -/
def runScript (wallClock : DateTime) (s : Shell) (text : String) : Shell × Transcript :=
  s.runLines wallClock (Text.lines text)

/-- The greeting of a conversation. -/
def banner : Transcript :=
  .ofLines ["EQL REPL v0.1.0", "Type 'help' for commands, 'quit' to exit", ""]

/-- The prompt. -/
def prompt (s : Shell) : Transcript :=
  ⟨"eql:" ++ s.entity ++ "> ", ""⟩

/-- Answers a line of a conversation, unless it ends the conversation. -/
def converse (wallClock : DateTime) (s : Shell) (line : String) : Option (Shell × Transcript) :=
  match (Text.trim line).toLower with
  | "quit" | "exit" | "\\q" => none
  | "help" | "\\h" => some (s, .ofLines help)
  | "types" | "\\dt" => some (s, .ofLines s.types)
  | "verbose" =>
    let (s, lines) := s.toggleVerbose
    some (s, .ofLines lines)
  | _ =>
    let r := s.execute wallClock line
    some (r.shell, r.transcript)

/-- Holds a conversation: a prompt before every line, and before the end of the lines. -/
def converseLines (wallClock : DateTime) (s : Shell) : List String → Shell × Transcript
  | [] => (s, s.prompt)
  | line :: lines =>
    match s.converse wallClock line with
    | none => (s, s.prompt)
    | some (next, printed) =>
      let (last, rest) := converseLines wallClock next lines
      (last, s.prompt ++ printed ++ rest)

/-- Holds a conversation over the lines of a text, from the greeting on. -/
def interactive (wallClock : DateTime) (s : Shell) (text : String) : Shell × Transcript :=
  let (last, printed) := s.converseLines wallClock (Text.lines text)
  (last, banner ++ printed)

end Shell

end EntityQuery
