import EntityQuery.CommandLine
import Std.Time.Format

/-!
The `eql` program.
-/

namespace EntityQuery

/-- The time of the system's clock. -/
def wallClock : IO DateTime := do
  let t ← Std.Time.PlainDateTime.now
  let date := Date.ofParts? t.year.toInt t.month.toNat t.day.toNat
  let time := TimeOfDay.ofParts? t.hour.toNat t.minute.toNat t.second.toNat t.nanosecond.toNat
  match date, time with
  | some date, some time => return ⟨date, time⟩
  | _, _ => throw (IO.userError "the clock shows no date")

/-- Why a file cannot be read. -/
def readFailure : IO.Error → String
  | .noFileOrDirectory .. => "No such file or directory (os error 2)"
  | .permissionDenied .. => "Permission denied (os error 13)"
  | .inappropriateType .. => "Is a directory (os error 21)"
  | e => toString e

/-- The text of a file, or the reason why it cannot be read. -/
def readText (path : String) : IO (Except String String) := do
  try
    return .ok (← IO.FS.readFile path)
  catch e =>
    return .error (readFailure e)

/-- Prints what a session has to say. -/
def printTranscript (t : Transcript) : IO Unit := do
  let out ← IO.getStdout
  out.putStr t.out
  out.flush
  (← IO.getStderr).putStr t.err

/-- Holds a conversation at a terminal. -/
partial def conversation (s : Shell) : IO Unit := do
  printTranscript s.prompt
  let line ← (← IO.getStdin).getLine
  if line.isEmpty then
    return
  match s.converse (← wallClock) line with
  | none => return
  | some (next, printed) =>
    printTranscript printed
    conversation next

/-- Reads all of a stream. -/
partial def readAll (stream : IO.FS.Stream) (read : String) : IO String := do
  let line ← stream.getLine
  if line.isEmpty then return read else readAll stream (read ++ line)

/-- Runs the program with its options. -/
def runProgram (o : Options) : IO UInt32 := do
  let clock ← wallClock
  let file ← readText o.data
  let stdin ← IO.getStdin
  if o.query?.isNone && (← stdin.isTty) then
    match o.shell clock file with
    | .error e =>
      printTranscript (.ofError e.message)
      return 1
    | .ok s =>
      printTranscript Shell.banner
      conversation s
      return 0
  else
    let ready := (o.shell clock file).isOk && o.query?.isNone
    let script ← if ready then readAll stdin "" else pure ""
    let result := o.run clock file script
    printTranscript result.printed
    return if result.failed then 1 else 0

end EntityQuery

/-- The entry point. -/
def main (arguments : List String) : IO UInt32 :=
  match EntityQuery.Options.ofArguments? arguments with
  | some o => EntityQuery.runProgram o
  | none => do
    (← IO.getStderr).putStrLn <| "usage: eql --data <file> [--entity <name>] [--user <name>] "
      ++ "[--now <time>] [--verbose] [query]"
    return 2
