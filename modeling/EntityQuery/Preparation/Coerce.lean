import EntityQuery.Preparation.Error

/-!
Operands converted to the declared types of properties.
-/

namespace EntityQuery

/-- What the functions of a query stand for. -/
structure QueryContext where
  now : DateTime
  /-- The user the query runs for, if there is one. -/
  principal? : Option String
  deriving DecidableEq

/-- An operand as far as conversion looks at it. -/
inductive Literal where
  | text (s : String)
  | int (i : Int64)
  | float (d : Double)
  | typed (v : Value)

namespace Literal

/-- The literal of a value. -/
def ofValue : Value → Literal
  | .text s => text s
  | .int i => int i
  | .float d => float d
  | v => typed v

/-- A truth value from its name, in whatever case. -/
def bool? (s : String) : Option Bool :=
  if sameWord s "true" then some true else if sameWord s "false" then some false else none

/-- The value of a type that is neither an association nor a collection. -/
def scalar? : PropertyType → Literal → Option Value
  | .text, text s => some (.text s)
  | .text, int i => some (.text (Text.integerText i.toInt))
  | .text, float d => some (.text d.plainText)
  | .int, int i => some (.int i)
  | .int, text s => (Text.readInt64? (Text.trimmed s.toList)).map .int
  | .float, int i => some (.float (.ofInt i.toInt))
  | .float, float d => some (.float d)
  | .float, text s => (Double.ofText? (Text.trim s)).map .float
  | .bool, text s => (bool? s).map .bool
  | .bool, typed (.bool b) => some (.bool b)
  | .date, text s => (Date.ofText? s).map .date
  | .date, typed (.date d) => some (.date d)
  | .date, typed (.dateTime t) => some (.date t.date)
  | .dateTime, text s => (DateTime.ofText? s).map .dateTime
  | .dateTime, typed (.dateTime t) => some (.dateTime t)
  | .dateTime, typed (.date d) => some (.dateTime (.startOf d))
  | .enum _ constants, text s => if constants.contains s then some (.enum s) else none
  | .enum _ constants, typed (.enum s) => if constants.contains s then some (.enum s) else none
  | _, _ => none

/-- What is said about a literal that has no value of a type. -/
def fault : PropertyType → Literal → OperandFault
  | .enum _ constants, text _ => .notConstant constants
  | _, _ => .unconvertible

/-- The reference that a literal is already. -/
def reference? (entity : String) : Literal → Option Value
  | typed (.ref e id) => if e = entity then some (.ref e id) else none
  | _ => none

end Literal

/-- The property an operand is for and the operand's text, as errors show them. -/
structure OperandSite where
  property : String
  operand : String

/-- The error about an operand at a place. -/
def OperandSite.error (site : OperandSite) (expected : PropertyType) (fault : OperandFault) :
    PrepareError :=
  .operand site.property site.operand expected fault

namespace Registry

/-- The entity types that a conversion has not come to yet. -/
def unvisited (r : Registry) (visited : List String) : List EntityDef :=
  r.entities.filter fun e => !visited.contains e.name

theorem unvisited_cons_lt {r : Registry} {visited : List String} {name : String}
    {type : PropertyType} (known : r.idType? name = some type) (fresh : ¬ visited.contains name) :
    (r.unvisited (name :: visited)).length < (r.unvisited visited).length := by
  obtain ⟨p, hp, -⟩ := Option.map_eq_some_iff.mp known
  obtain ⟨e, he, -⟩ := Option.bind_eq_some_iff.mp hp
  have hname : e.name = name := by simpa using List.find?_some he
  have hunvisited : r.unvisited (name :: visited) =
      (r.unvisited visited).filter fun e => e.name != name := by
    simp only [unvisited, List.filter_filter, List.contains_cons, Bool.not_or]
    rfl
  rw [hunvisited, List.length_filter_lt_length_iff_exists]
  refine ⟨e, List.mem_filter.mpr ⟨List.mem_of_find?_eq_some he, ?_⟩, by simp [hname]⟩
  simpa [hname] using fresh

/-- Converts a literal to a type that the ids of the entity types `visited` led to. A literal for an
association is a reference already, or the id of one, and ids may be references themselves. Ids that
lead back to an entity type that was visited are followed without end. -/
def convertVia (r : Registry) (site : OperandSite) (l : Literal) (visited : List String)
    (target : PropertyType) : Except PrepareError Value :=
  match target with
  | .collection element => r.convertVia site l visited element
  | .entity name =>
    match l.reference? name with
    | some v => .ok v
    | none =>
      match _known : r.idType? name with
      | none => .error (site.error (.entity name) (.unknownEntity name))
      | some idType =>
        if _back : visited.contains name then .error .endless
        else (r.convertVia site l (name :: visited) idType).map (.ref name)
  | type =>
    match l.scalar? type with
    | some v => .ok v
    | none => .error (site.error type (l.fault type))
termination_by ((r.unvisited visited).length, target)
decreasing_by
  · exact .right _ (by simp +arith)
  · exact .left _ _ (unvisited_cons_lt ‹_› ‹_›)

/-- Converts a literal to a type. -/
def convert (r : Registry) (site : OperandSite) (target : PropertyType) (l : Literal) :
    Except PrepareError Value :=
  r.convertVia site l [] target

/-- The value of a function for a property. A clock function has one for dates and date-times; the
current user is converted like a text. -/
def functionValue (r : Registry) (context : QueryContext) (site : OperandSite)
    (target : PropertyType) : Function → Except PrepareError Value
  | .currentUser =>
    match context.principal? with
    | none => .error (.function .currentUser site.property .noPrincipal)
    | some user => r.convert site target (.text user)
  | f =>
    match target with
    | .date => .ok (.date context.now.date)
    | .dateTime =>
      .ok (.dateTime (if f = .today then .startOf context.now.date else context.now))
    | other => .error (.function f site.property (.notTemporal other))

/-- Converts an operand that is not a list. Null has no type. -/
def coerce (r : Registry) (context : QueryContext) (property : String) (target : PropertyType)
    (o : Operand) : Except PrepareError Value :=
  let site : OperandSite := ⟨property, o.text⟩
  match o with
  | .null | .value .null => .ok .null
  | .string s | .word s => r.convert site target (.text s)
  | .integer i => r.convert site target (.int i)
  | .decimal d => r.convert site target (.float d)
  | .value v => r.convert site target (.ofValue v)
  | .function f => r.functionValue context site target f
  | .list _ => .error (site.error target .nestedList)

/-- Converts the operands of a list. -/
def coerceAll (r : Registry) (context : QueryContext) (property : String) (target : PropertyType) :
    List Operand → Except PrepareError (List Value)
  | [] => .ok []
  | o :: os =>
    match r.coerce context property target o with
    | .error e => .error e
    | .ok v => (r.coerceAll context property target os).map (v :: ·)

end Registry

end EntityQuery
