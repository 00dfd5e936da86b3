import EntityQuery.Registry

/-!
Building a registry: entity types are drafted property by property and then added, call by call, and
in the end every association has to lead to an entity type that was added.
-/

namespace EntityQuery

/-- Why an entity type or a registry is refused. -/
inductive RegistryError where
  | duplicateEntity (name : String)
  | duplicateProperty (entity property : String)
  | missingId (entity : String)
  | unknownTarget (entity property target : String)
  deriving DecidableEq

/-- The wording of a refusal. -/
def RegistryError.message : RegistryError → String
  | duplicateEntity name => "Duplicate entity type: " ++ name
  | duplicateProperty entity property =>
    "Duplicate property '" ++ property ++ "' on entity type " ++ entity
  | missingId entity => "Entity type " ++ entity ++ " declares no id property"
  | unknownTarget entity property target =>
    "Property '" ++ property ++ "' on " ++ entity ++ " refers to unknown entity type " ++ target

/-- An entity type under construction. -/
structure EntityDraft where
  name : String
  idProperty? : Option String
  properties : List PropertyDef

namespace EntityDraft

/-- A draft without properties. -/
def named (name : String) : EntityDraft :=
  ⟨name, none, []⟩

/-- Adds the property that identifies instances; it is never null. -/
def withId (d : EntityDraft) (name : String) (type : PropertyType) : EntityDraft :=
  { d with idProperty? := some name, properties := d.properties ++ [⟨name, type, false, none⟩] }

/-- Adds a property. -/
def withProperty (d : EntityDraft) (p : PropertyDef) : EntityDraft :=
  { d with properties := d.properties ++ [p] }

/-- The first name that occurs earlier in a list too, after the names already seen. -/
def firstRepeated? (seen : List String) : List String → Option String
  | [] => none
  | n :: ns => if seen.contains n then some n else firstRepeated? (n :: seen) ns

end EntityDraft

/-- A registry under construction: the entity types added so far. -/
structure RegistryBuilder where
  entities : List EntityDef

namespace RegistryBuilder

/-- Nothing added yet. -/
def empty : RegistryBuilder :=
  ⟨[]⟩

/-- Adds a drafted entity type, unless one of its name was added before, a property name occurs
twice or no property identifies its instances. -/
def add (b : RegistryBuilder) (d : EntityDraft) : Except RegistryError RegistryBuilder :=
  if b.entities.any fun e => e.name == d.name then .error (.duplicateEntity d.name)
  else
    match EntityDraft.firstRepeated? [] (d.properties.map PropertyDef.name), d.idProperty? with
    | some p, _ => .error (.duplicateProperty d.name p)
    | none, none => .error (.missingId d.name)
    | none, some id => .ok ⟨b.entities ++ [⟨d.name, id, d.properties⟩]⟩

/-- The complaint about a property whose association leads nowhere. -/
def danglingTarget? (b : RegistryBuilder) (e : EntityDef) (p : PropertyDef) :
    Option RegistryError :=
  p.type.target?.bind fun target =>
    if b.entities.any fun e => e.name == target then none
    else some (.unknownTarget e.name p.name target)

/-- The registry of the entity types added, if no association leads nowhere. -/
def build (b : RegistryBuilder) : Except RegistryError Registry :=
  match b.entities.findSome? fun e => e.properties.findSome? (b.danglingTarget? e) with
  | some error => .error error
  | none => .ok ⟨b.entities⟩

end RegistryBuilder

/-- A call to a builder. -/
inductive BuilderCall where
  /-- Begins an entity type. One that was begun before and never done is dropped. -/
  | entity (name : String)
  | id (name : String) (type : PropertyType)
  | property (p : PropertyDef)
  /-- Adds the entity type that was begun. -/
  | done

/-- A registry under construction, with the entity type that was begun and not done. -/
structure Drafting where
  builder : RegistryBuilder
  draft? : Option EntityDraft

namespace Drafting

/-- Nothing added and nothing begun. -/
def start : Drafting :=
  ⟨.empty, none⟩

/-- Carries out a call. When an entity type is done, it is said whether it was added; it is no
longer under construction in either case. -/
def call (s : Drafting) : BuilderCall → Drafting × Option (Except RegistryError Unit)
  | .entity name => ({ s with draft? := some (.named name) }, none)
  | .id name type => ({ s with draft? := s.draft?.map fun d => d.withId name type }, none)
  | .property p => ({ s with draft? := s.draft?.map fun d => d.withProperty p }, none)
  | .done =>
    match s.draft? with
    | none => (s, none)
    | some d =>
      match s.builder.add d with
      | .ok b => (⟨b, none⟩, some (.ok ()))
      | .error e => (⟨s.builder, none⟩, some (.error e))

/-- Carries out calls one after the other. -/
def calls (s : Drafting) (cs : List BuilderCall) : Drafting :=
  cs.foldl (fun s c => (s.call c).1) s

end Drafting

end EntityQuery
