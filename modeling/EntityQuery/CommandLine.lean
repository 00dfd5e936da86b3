import EntityQuery.Shell.Session

/-!
The command line: options, and what a run of the program prints.
-/

namespace EntityQuery

/-- The options of a run. -/
structure Options where
  /-- The file of the dataset. -/
  data : String
  entity? : Option String
  user? : Option String
  now? : Option String
  verbose : Bool
  /-- A query to run instead of a session. -/
  query? : Option String

/-- The options read so far. -/
structure PartialOptions where
  data? : Option String
  entity? : Option String
  user? : Option String
  now? : Option String
  verbose : Bool
  query? : Option String

namespace PartialOptions

/-- No options. -/
def empty : PartialOptions :=
  ⟨none, none, none, none, false, none⟩

/-- Gives an option of a long name its value; no option is given twice. -/
def set (o : PartialOptions) (name value : String) : Option PartialOptions :=
  match name with
  | "data" => if o.data?.isNone ∧ value ≠ "" then some { o with data? := some value } else none
  | "entity" => if o.entity?.isNone then some { o with entity? := some value } else none
  | "user" => if o.user?.isNone then some { o with user? := some value } else none
  | "now" => if o.now?.isNone then some { o with now? := some value } else none
  | _ => none

/-- Asks for the prepared form of queries. -/
def setVerbose (o : PartialOptions) : Option PartialOptions :=
  if o.verbose then none else some { o with verbose := true }

/-- Takes an argument that is no option as the query. -/
def setQuery (o : PartialOptions) (query : String) : Option PartialOptions :=
  if o.query?.isNone then some { o with query? := some query } else none

/-- The long name of an option's letter. -/
def longName? : Char → Option String
  | 'd' => some "data"
  | 'e' => some "entity"
  | 'u' => some "user"
  | _ => none

/-- Takes the argument after an option as its value, unless it looks like an option itself. -/
def setNext (o : PartialOptions) (name : String) :
    List String → Option (PartialOptions × List String)
  | [] => none
  | value :: rest =>
    if value.startsWith "-" ∧ value ≠ "-" then none
    else (o.set name value).map fun o => (o, rest)

/-- Reads the letters of an argument with one dash. The value of an option may follow its letter. -/
def setLetters (o : PartialOptions) (rest : List String) :
    List Char → Option (PartialOptions × List String)
  | [] => some (o, rest)
  | 'v' :: letters => o.setVerbose.bind fun o => o.setLetters rest letters
  | letter :: letters =>
    (longName? letter).bind fun name =>
      match letters with
      | [] => o.setNext name rest
      | '=' :: value => (o.set name (String.ofList value)).map fun o => (o, rest)
      | value => (o.set name (String.ofList value)).map fun o => (o, rest)

/-- Reads an argument with two dashes. -/
def setLong (o : PartialOptions) (rest : List String) (cs : List Char) :
    Option (PartialOptions × List String) :=
  let name := String.ofList (cs.takeWhile (· != '='))
  match cs.dropWhile (· != '=') with
  | _ :: value => (o.set name (String.ofList value)).map fun o => (o, rest)
  | [] =>
    if name = "verbose" then o.setVerbose.map fun o => (o, rest) else o.setNext name rest

/-- Reads an argument, and the one after it if that is its value. -/
def readArgument (o : PartialOptions) (argument : String) (rest : List String) :
    Option (PartialOptions × List String) :=
  match argument.toList with
  | '-' :: '-' :: cs => o.setLong rest cs
  | '-' :: c :: cs => o.setLetters rest (c :: cs)
  | _ => (o.setQuery argument).map fun o => (o, rest)

/-- Reads arguments, each step at least one of them. All arguments after two dashes alone are no
options. -/
def readArguments (o : PartialOptions) : Nat → List String → Option PartialOptions
  | _, [] => some o
  | 0, _ => none
  | steps + 1, argument :: rest =>
    if argument = "--" then rest.foldlM setQuery o
    else (o.readArgument argument rest).bind fun (o, rest) => o.readArguments steps rest

end PartialOptions

namespace Options

/-- The options of a run's arguments, if they are valid. -/
def ofArguments? (arguments : List String) : Option Options :=
  (PartialOptions.empty.readArguments arguments.length arguments).bind fun o =>
    o.data?.map fun data => ⟨data, o.entity?, o.user?, o.now?, o.verbose, o.query?⟩

end Options

/-- Why a run fails. -/
inductive RunError where
  | file (path reason : String)
  | dataset (e : DatasetError)
  | shell (e : ShellError)

/-- The wording of a failure. -/
def RunError.message : RunError → String
  | file path reason => "Failed to read " ++ path ++ ": " ++ reason
  | dataset e => e.message
  | shell e => e.message

/-- What a run prints, and whether it fails. -/
structure RunResult where
  printed : Transcript
  failed : Bool

namespace Options

/-- The clock and the user that the options ask for. -/
def context (o : Options) (wallClock : DateTime) : Except RunError QueryContext :=
  match o.now? with
  | none => .ok ⟨wallClock, o.user?⟩
  | some text =>
    match DateTime.ofText? text with
    | some now => .ok ⟨now, o.user?⟩
    | none => .error (.shell (.invalidDateTime text))

/-- The shell that the options ask for, over the file of the dataset: its text, or the reason why it
cannot be read. -/
def shell (o : Options) (wallClock : DateTime) (file : Except String String) :
    Except RunError Shell :=
  match file with
  | .error reason => .error (.file o.data reason)
  | .ok text =>
    match Dataset.ofText text with
    | .error e => .error (.dataset e)
    | .ok d =>
      match Shell.start d o.entity? ⟨wallClock, none⟩ with
      | .error e => .error (.shell e)
      | .ok s => (o.context wallClock).map fun context =>
          { s with context := context, verbose := o.verbose }

/-- A run that fails before it prints anything. -/
def failure (e : RunError) : RunResult :=
  ⟨.ofError e.message, true⟩

/-- Runs a single query. -/
def runQuery (s : Shell) (text : String) : RunResult :=
  let (notes, answer) := s.runQuery text
  match answer with
  | .ok answer => ⟨.ofLines (notes ++ [answer]), false⟩
  | .error e => ⟨.ofLines notes ++ .ofError e.message, true⟩

/-- Runs the program: the query of the options, or a script. -/
def run (o : Options) (wallClock : DateTime) (file : Except String String) (script : String) :
    RunResult :=
  match o.shell wallClock file with
  | .error e => failure e
  | .ok s =>
    match o.query? with
    | some text => runQuery s text
    | none => ⟨(s.runScript wallClock script).2, false⟩

end Options

end EntityQuery
