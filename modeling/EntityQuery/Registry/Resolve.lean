import EntityQuery.Registry

/-!
Resolving property paths: each name has to be a property of the entity type that the names before it
lead to.
-/

namespace EntityQuery

/-- What is wrong with a path, apart from unknown names. -/
inductive PathFault where
  | emptyName
  /-- An indexed name at the end. -/
  | indexedEnd (name : String)
  /-- A name after a collection of plain values. -/
  | plainElements (name : String)
  /-- A collection that is not indexed. -/
  | notIndexed (name : String)
  /-- A single-valued association that is indexed. -/
  | singleIndexed (name : String)
  /-- A name after a property that is no association. -/
  | notAssociation (name : String)
  | emptyPath
  /-- A resolved path that does not fit the declarations any more. -/
  | changed
  deriving DecidableEq

/-- The wording of a path fault. -/
def PathFault.message : PathFault → String
  | emptyName => "empty property name"
  | indexedEnd name => "'" ++ name ++ "[]' must be followed by a property"
  | plainElements name => "elements of '" ++ name ++ "' have no properties"
  | notIndexed name => "use '" ++ name ++ "[]' to navigate a multi-valued property"
  | singleIndexed name => "'" ++ name ++ "' is single-valued and cannot be indexed"
  | notAssociation name => "'" ++ name ++ "' is not an association"
  | emptyPath => "empty property path"
  | changed => "property metadata changed since preparation"

/-- Why a path does not resolve. -/
inductive ResolveError where
  | unknownEntity (name : String)
  | unknownProperty (entity property path : String)
  | invalidPath (path : String) (fault : PathFault)
  deriving DecidableEq

/-- The wording of a resolve error. -/
def ResolveError.message : ResolveError → String
  | unknownEntity name => "Unknown entity type: " ++ name
  | unknownProperty entity property path =>
    "Unknown property '" ++ property ++ "' on " ++ entity ++ " (in path '" ++ path ++ "')"
  | invalidPath path fault => "Invalid property path '" ++ path ++ "': " ++ fault.message

/-- A name in the text of a path, and whether it is marked as indexed. -/
structure PathStep where
  name : String
  indexed : Bool
  deriving DecidableEq

namespace PathStep

/-- The pieces of a text between its dots. -/
def splitDots : List Char → List (List Char)
  | [] => [[]]
  | c :: cs =>
    if c = '.' then [] :: splitDots cs
    else
      match splitDots cs with
      | [] => [[c]]
      | piece :: pieces => (c :: piece) :: pieces

/-- Reads a piece: brackets at its end mark it as indexed. -/
def ofPiece (piece : List Char) : PathStep :=
  match piece.reverse with
  | ']' :: '[' :: name => ⟨String.ofList name.reverse, true⟩
  | _ => ⟨String.ofList piece, false⟩

/-- The steps of a path. -/
def ofPath (path : String) : List PathStep :=
  (splitDots path.toList).map ofPiece

end PathStep

/-- A path with the definition of the property at its end. -/
structure Resolved where
  path : PropertyPath
  definition : PropertyDef
  deriving DecidableEq

/-- The entity type that a property leads to, when it is followed with or without an index. -/
def PropertyType.follow (name : String) (indexed : Bool) : PropertyType → Except PathFault String
  | .entity target => if indexed then .error (.singleIndexed name) else .ok target
  | .collection element =>
    if indexed then
      match element with
      | .entity target => .ok target
      | _ => .error (.plainElements name)
    else .error (.notIndexed name)
  | _ => .error (.notAssociation name)

namespace Registry

/-- The property that a step names, as a segment of the path and as it is declared. -/
def segment (current : EntityDef) (path : String) (step : PathStep) :
    Except ResolveError (PathSegment × PropertyDef) :=
  if step.name = "" then .error (.invalidPath path .emptyName)
  else
    match current.property? step.name with
    | none => .error (.unknownProperty current.name step.name path)
    | some p => .ok (⟨step.name, current.name, p.type, p.nullable, step.indexed⟩, p)

/-- Follows steps from an entity type. -/
def follow (r : Registry) (path : String) (current : EntityDef) :
    List PathStep → Except ResolveError Resolved
  | [] => .error (.invalidPath path .emptyPath)
  | [last] =>
    match segment current path last with
    | .error e => .error e
    | .ok (s, p) =>
      if last.indexed then .error (.invalidPath path (.indexedEnd last.name)) else .ok ⟨⟨[], s⟩, p⟩
  | step :: rest =>
    match segment current path step with
    | .error e => .error e
    | .ok (s, p) =>
      match p.type.follow step.name step.indexed with
      | .error fault => .error (.invalidPath path fault)
      | .ok target =>
        match r.entity? target with
        | none => .error (.unknownEntity target)
        | some next =>
          (follow r path next rest).map fun q => ⟨⟨s :: q.path.parents, q.path.leaf⟩, q.definition⟩

/-- Resolves a path from an entity type. -/
def resolve (r : Registry) (entity path : String) : Except ResolveError Resolved :=
  match r.entity? entity with
  | none => .error (.unknownEntity entity)
  | some e => r.follow path e (PathStep.ofPath path)

end Registry

end EntityQuery
