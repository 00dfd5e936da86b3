import EntityQuery.Json.Token

/-!
Reading documents, as a one-pass scan of their tokens.

The scan keeps the containers that are open, innermost first. A value that is complete goes into the
innermost one, or is the document if none is open.
-/

namespace EntityQuery

/-- A container that is not closed yet, with what it holds so far, latest first. -/
inductive JsonFrame where
  | array (items : List Json)
  /-- An object, with the name of the member whose value is being read. -/
  | object (members : List (String × Json)) (name : String)
  /-- An object with an illegible name, of which nothing is kept. -/
  | illegible

/-- What may come next. -/
inductive JsonPhase where
  /-- A value. -/
  | value
  /-- A value or the end of an array. -/
  | firstItem
  /-- A name. -/
  | name
  /-- A name or the end of an object. -/
  | firstName
  /-- The colon after a name. -/
  | colon
  /-- A comma or the end of the innermost container. -/
  | next
  /-- Nothing: the document is complete. -/
  | done (j : Json)

/-- How far a scan has come. -/
structure JsonScan where
  opened : List JsonFrame
  phase : JsonPhase

namespace JsonScan

/-- Nothing read yet. -/
def start : JsonScan :=
  ⟨[], .value⟩

/-- Adds a complete value to the innermost container. -/
def complete (j : Json) : List JsonFrame → JsonScan
  | [] => ⟨[], .done j⟩
  | .array items :: outer => ⟨.array (j :: items) :: outer, .next⟩
  | .object members name :: outer => ⟨.object ((name, j) :: members) name :: outer, .next⟩
  | .illegible :: outer => ⟨.illegible :: outer, .next⟩

/-- Takes in the beginning of a value, or a whole value without parts. -/
def value (s : JsonScan) : JsonToken → Option JsonScan
  | .openArray => some ⟨.array [] :: s.opened, .firstItem⟩
  | .openObject => some ⟨.object [] "" :: s.opened, .firstName⟩
  | .string text => some (complete (.string text) s.opened)
  | .illegibleString => some (complete .illegible s.opened)
  | .plain j => some (complete j s.opened)
  | _ => none

/-- The innermost container before the value of a member of the given name. -/
def named (text : String) : List JsonFrame → List JsonFrame
  | .object members _ :: outer => .object members text :: outer
  | opened => opened

/-- Takes in the name of a member. -/
def name (s : JsonScan) : JsonToken → Option JsonScan
  | .string text => some ⟨named text s.opened, .colon⟩
  | .illegibleString => some ⟨.illegible :: s.opened.tail, .colon⟩
  | _ => none

/-- Takes in the end of the innermost container. -/
def close (s : JsonScan) : JsonToken → Option JsonScan
  | .closeArray =>
    match s.opened with
    | .array items :: outer => some (complete (.array items.reverse) outer)
    | _ => none
  | .closeObject =>
    match s.opened with
    | .object members _ :: outer => some (complete (.object members.reverse) outer)
    | .illegible :: outer => some (complete .illegible outer)
    | _ => none
  | _ => none

/-- Goes on to the next part of the innermost container. -/
def more (s : JsonScan) : Option JsonScan :=
  match s.opened with
  | [] => none
  | .array _ :: _ => some { s with phase := .value }
  | .object _ _ :: _ | .illegible :: _ => some { s with phase := .name }

/-- Takes in a token. -/
def step (s : JsonScan) (t : JsonToken) : Option JsonScan :=
  match s.phase, t with
  | .value, t => s.value t
  | .firstItem, .closeArray => s.close .closeArray
  | .firstItem, t => s.value t
  | .name, t => s.name t
  | .firstName, .closeObject => s.close .closeObject
  | .firstName, t => s.name t
  | .colon, .colon => some { s with phase := .value }
  | .next, .comma => s.more
  | .next, t => s.close t
  | _, _ => none

/-- The document that has been read, if it is complete. -/
def result? (s : JsonScan) : Option Json :=
  match s.phase with
  | .done j => some j
  | _ => none

end JsonScan

namespace Json

/-- Reads a document. -/
def ofText? (s : String) : Option Json :=
  (JsonToken.all? s.toList).bind fun tokens =>
    (tokens.foldlM JsonScan.step .start).bind JsonScan.result?

end Json

end EntityQuery
