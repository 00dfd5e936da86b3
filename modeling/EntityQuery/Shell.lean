import EntityQuery.Dataset.Load
import EntityQuery.Dataset.Shown
import EntityQuery.Execution.Binding
import EntityQuery.Execution.Memory
import EntityQuery.Shell.Command

/-!
The shell: queries about one entity type of a dataset at a time, with a clock and a current user.

Only the commands for these three change them, and only when they succeed.
-/

namespace EntityQuery

/-- The state of a shell. -/
structure Shell where
  registry : Registry
  /-- The entity types that can be queried, sorted by name. -/
  bindings : List (EntityBinding Record)
  /-- The entity type that is queried. -/
  entity : String
  context : QueryContext
  /-- Whether the prepared form of every query is printed. -/
  verbose : Bool

/-- Why a shell refuses a command. -/
inductive ShellError where
  | query (e : QueryError)
  | unknownEntity (name : String)
  | invalidDateTime (text : String)
  | noEntities

/-- The wording of a refusal. -/
def ShellError.message : ShellError → String
  | query e => e.message
  | unknownEntity name => "Unknown entity type: " ++ name
  | invalidDateTime text => "Invalid date-time: " ++ text
  | noEntities => "The dataset declares no entity types"

/-- What a command leads to: the shell after it, lines printed on the way, and the answer. -/
structure ShellReply where
  shell : Shell
  notes : List String
  answer : Except ShellError String

/-- The entity types of a dataset, each bound to its records. -/
def Dataset.bindings (d : Dataset) : Except QueryError (List (EntityBinding Record)) :=
  convertAll (fun e => EntityBinding.bind e.name d.registry
    (Memory.repository ⟨d.records e.name, false⟩)) d.registry.byName

namespace Shell

/-- The binding of an entity type. -/
def binding? (s : Shell) (entity : String) : Option (EntityBinding Record) :=
  s.bindings.find? fun b => b.entity == entity

/-- Makes an entity type the one that is queried. -/
def switch (s : Shell) (entity : String) : Except ShellError Shell :=
  match s.binding? entity with
  | some _ => .ok { s with entity := entity }
  | none => .error (.unknownEntity entity)

/-- A shell over a dataset. It queries the given entity type, or the first one by name. -/
def start (d : Dataset) (entity? : Option String) (context : QueryContext) :
    Except ShellError Shell :=
  match d.bindings with
  | .error e => .error (.query e)
  | .ok bindings =>
    match entity?, bindings with
    | some entity, _ => (⟨d.registry, bindings, "", context, false⟩ : Shell).switch entity
    | none, b :: _ => (⟨d.registry, bindings, "", context, false⟩ : Shell).switch b.entity
    | none, [] => .error .noEntities

/-- The binding of the entity type that is queried. -/
def current (s : Shell) : Except ShellError (EntityBinding Record) :=
  match s.binding? s.entity with
  | some b => .ok b
  | none => .error (.unknownEntity s.entity)

/-- Reads and prepares the text of a query. -/
def prepare (s : Shell) (text : String) :
    Except ShellError (EntityBinding Record × PreparedQuery) :=
  match s.current with
  | .error e => .error e
  | .ok b =>
    match b.parse s.context text with
    | .error e => .error (.query e)
    | .ok q => .ok (b, q)

/-- The records that a query finds, one a line, and their number. -/
def found (e : EntityDef) (records : List Record) : String :=
  let count := Text.integerText records.length
  String.intercalate "\n" (records.map (Record.described e)
    ++ ["(" ++ count ++ (if records.length = 1 then " row)" else " rows)")])

/-- Runs a prepared query. -/
def answer (s : Shell) (b : EntityBinding Record) (q : PreparedQuery) :
    Except ShellError String :=
  match b.findAll q with
  | .error e => .error (.query e)
  | .ok records =>
    match s.registry.entity? s.entity with
    | none => .error (.unknownEntity s.entity)
    | some e => .ok (found e records)

/-- Runs the text of a query. -/
def runQuery (s : Shell) (text : String) : List String × Except ShellError String :=
  match s.prepare text with
  | .error e => ([], .error e)
  | .ok (b, q) => (if s.verbose then ["-- " ++ q.text] else [], s.answer b q)

/-- The shell with another clock. -/
def withNow (s : Shell) (now : DateTime) : Shell :=
  { s with context := { s.context with now := now } }

/-- The shell with another user; an empty name is none. -/
def withUser (s : Shell) (name : String) : Shell :=
  { s with context := { s.context with principal? := if name = "" then none else some name } }

/-- Sets the clock to the date-time of a text, or to the given time if there is none. -/
def setNow (s : Shell) (wallClock : DateTime) (text : String) : Except ShellError Shell :=
  if text = "" then .ok (s.withNow wallClock)
  else
    match DateTime.ofText? text with
    | some now => .ok (s.withNow now)
    | none => .error (.invalidDateTime text)

/-- A reply without notes to a command that may change the shell. -/
def reply (s : Shell) (changed : Except ShellError Shell) (text : Shell → String) : ShellReply :=
  match changed with
  | .error e => ⟨s, [], .error e⟩
  | .ok s => ⟨s, [], .ok (text s)⟩

/-- Runs a command. -/
def run (s : Shell) (wallClock : DateTime) : ShellCommand → ShellReply
  | .nothing => ⟨s, [], .ok ""⟩
  | .entity name =>
    s.reply (if name = "" then .ok s else s.switch name) fun s => "Querying " ++ s.entity
  | .user name =>
    s.reply (.ok (s.withUser name)) fun s =>
      "Current user: " ++ s.context.principal?.getD "(none)"
  | .now text =>
    s.reply (s.setNow wallClock text) fun s => "Now: " ++ s.context.now.secondText
  | .prepared text => ⟨s, [], (s.prepare text).map fun (_, q) => q.text⟩
  | .query text =>
    let (notes, answer) := s.runQuery text
    ⟨s, notes, answer⟩

/-- Runs the command of a line. -/
def execute (s : Shell) (wallClock : DateTime) (line : String) : ShellReply :=
  s.run wallClock (.ofLine line)

/-- The lines about an entity type: its properties with their types. -/
def typeLines (e : EntityDef) : List String :=
  e.name :: e.properties.map fun p =>
    "  " ++ p.name ++ ": " ++ p.type.described
      ++ (if p.name = e.idProperty then " (id)" else "")

/-- The lines about all entity types. -/
def types (s : Shell) : List String :=
  s.bindings.flatMap fun b => ((s.registry.entity? b.entity).map typeLines).getD []

/-- The lines of the help. -/
def help : List String :=
  ["EQL REPL Commands:",
    "  \\e <entity>     Query another entity type",
    "  \\dt             Show entity types",
    "  \\user [name]    Set or clear the current user",
    "  \\now [time]     Set the clock (yyyy-MM-dd HH:mm) or reset it",
    "  \\p <query>      Show the prepared query",
    "  verbose         Toggle verbose mode",
    "  help, \\h        Show this help",
    "  quit, \\q        Exit",
    "",
    "Anything else is an EQL query, for example:",
    "  name like 'A%' and group.name = 'Sales' order by created desc",
    "  representatives contains ('john', 'joe')",
    "  status in (BROKE, null)"]

/-- Prints the prepared form of queries from now on, or no longer. -/
def toggleVerbose (s : Shell) : Shell × List String :=
  ({ s with verbose := !s.verbose },
    ["Verbose mode: " ++ (if s.verbose then "false" else "true")])

end Shell

end EntityQuery
