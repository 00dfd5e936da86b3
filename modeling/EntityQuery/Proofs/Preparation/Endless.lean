import EntityQuery.Proofs.Registry.Closed
import Mathlib.Data.Fintype.Card
import Mathlib.Data.Set.Finite.List
import Mathlib.Logic.Relation

/-!
# Conversions without end

Whether the calls of a conversion go on forever is a matter of the types of ids. The main statement
is that an operand is converted without end exactly if its literal is converted to an entity type
whose ids come back to where they were, and that every operand's conversion ends exactly if none do.
-/

namespace EntityQuery

open Relation (ReflTransGen TransGen)

/-- The literal that an operand is converted from, if it is converted. -/
def Operand.literal? (context : QueryContext) : Operand → Option Literal
  | .string s | .word s => some (.text s)
  | .integer i => some (.int i)
  | .decimal d => some (.float d)
  | .null | .value .null | .list _ => none
  | .value v => some (.ofValue v)
  | .function .currentUser => context.principal?.map .text
  | .function _ => none

namespace Registry

/-- The ids of an entity type mention another, or the same. -/
def IdLeads (r : Registry) (name name' : String) : Prop :=
  ∃ type, r.idType? name = some type ∧ type.mentioned? = some name'

/-- The ids of an entity type lead to one whose ids lead back to it. -/
def Circles (r : Registry) (name : String) : Prop :=
  ∃ name', ReflTransGen r.IdLeads name name' ∧ TransGen r.IdLeads name' name'

variable {r : Registry} {context : QueryContext} {l : Literal} {type : PropertyType}
  {name name' property : String} {o : Operand}

/-! ### Calls and the types of ids -/

lemma Circles.exists_next (h : r.Circles name) :
    ∃ name', r.IdLeads name name' ∧ r.Circles name' := by
  obtain ⟨last, hreach, hcircle⟩ := h
  rcases hreach.cases_head with rfl | ⟨next, hnext, hrest⟩
  · obtain ⟨next, hnext, hrest⟩ := TransGen.head'_iff.mp hcircle
    exact ⟨next, hnext, _, hrest, hcircle⟩
  · exact ⟨next, hnext, last, hrest, hcircle⟩

/-- Ids that come back to where they were are converted to without end, unless the literal is a
reference to an entity type on the way. -/
lemma not_ends_of_circles (mentioned : type.mentioned? = some name) (circles : r.Circles name)
    (plain : ∀ name', ReflTransGen r.IdLeads name name' → l.reference? name' = none) :
    ¬ r.Ends l type := by
  intro hends
  induction hends generalizing name with
  | intro type _ ih =>
    cases type with
    | collection element => exact ih element (.element _) mentioned circles plain
    | entity name =>
      obtain rfl := Option.some.inj mentioned
      obtain ⟨next, ⟨idType, known, hnext⟩, hcircles⟩ := circles.exists_next
      exact ih idType (.id (plain _ .refl) known) hnext hcircles
        fun name' hreach => plain name' (.head ⟨idType, known, hnext⟩ hreach)
    | _ => cases mentioned

lemma ends_of_mentioned?_eq_none (h : type.mentioned? = none) : r.Ends l type := by
  induction type with
  | collection element ih => exact (ih h).collection
  | entity => cases h
  | _ => exact .single (by simp) (by simp)

/-- Converting to a type ends if converting to the entity type that it mentions does. -/
lemma Ends.of_mentioned (mentioned : type.mentioned? = some name) (h : r.Ends l (.entity name)) :
    r.Ends l type := by
  induction type with
  | collection element ih => exact (ih mentioned).collection
  | entity => exact Option.some.inj mentioned ▸ h
  | _ => cases mentioned

/-- Where ids lead on only finitely often, calls do too. -/
lemma ends_of_acc (h : Acc (fun next name => r.IdLeads name next) name) :
    r.Ends l (.entity name) := by
  induction h with
  | intro name _ ih =>
    cases known : r.idType? name with
    | none => exact .unknown known
    | some idType =>
      cases mentioned : idType.mentioned? with
      | none => exact .id known (ends_of_mentioned?_eq_none mentioned)
      | some next => exact .id known (.of_mentioned mentioned (ih next ⟨idType, known, mentioned⟩))

/-- The names that a path of ids goes through are those of entity types. -/
lemma IdLeads.mem_names (h : r.IdLeads name name') : name ∈ r.entities.map EntityDef.name := by
  obtain ⟨type, htype, -⟩ := h
  obtain ⟨p, hp, -⟩ := Option.map_eq_some_iff.mp htype
  obtain ⟨e, he, -⟩ := Option.bind_eq_some_iff.mp hp
  exact List.mem_map.mpr ⟨e, List.mem_of_find?_eq_some he, entity?_name he⟩

/-- There are finitely many entity types: ids that never come back lead on only finitely often. -/
lemma acc_of_not_circles (h : ¬ r.Circles name) :
    Acc (fun next name => r.IdLeads name next) name := by
  let Passed := { passed //
    ReflTransGen r.IdLeads name passed ∧ passed ∈ r.entities.map EntityDef.name }
  let Later (later earlier : Passed) : Prop := TransGen r.IdLeads earlier.1 later.1
  have : Finite Passed :=
    ((List.finite_toSet _).subset fun _ hpassed => hpassed.2).to_subtype
  have : IsTrans Passed Later := ⟨fun _ _ _ h h' => h'.trans h⟩
  have : Std.Irrefl Later := ⟨fun passed hcircle => h ⟨passed, passed.2.1, hcircle⟩⟩
  have later : ∀ passed : Passed, Acc (fun next name => r.IdLeads name next) passed.1 := by
    intro passed
    induction (Finite.wellFounded_of_trans_of_irrefl Later).apply passed with
    | intro passed _ ih =>
      refine .intro _ fun next hnext => ?_
      by_cases hmem : next ∈ r.entities.map EntityDef.name
      · exact ih ⟨next, passed.2.1.tail hnext, hmem⟩ (.single hnext)
      · exact .intro _ fun _ hlast => absurd hlast.mem_names hmem
  by_cases hmem : name ∈ r.entities.map EntityDef.name
  · exact later ⟨name, .refl, hmem⟩
  · exact .intro _ fun _ hnext => absurd hnext.mem_names hmem

/-- A reference to an entity type that the ids lead to is converted at once when it is reached. -/
lemma ends_of_reached (reached : ReflTransGen r.IdLeads name name') {v : Value}
    (reference : l.reference? name' = some v) : r.Ends l (.entity name) := by
  induction reached using ReflTransGen.head_induction_on with
  | refl => exact .reference reference
  | head hnext _ ih =>
    obtain ⟨idType, known, mentioned⟩ := hnext
    exact .id known (.of_mentioned mentioned ih)

/-- Calls go on forever where the ids come back to where they were and the literal is no reference
to any entity type on the way. -/
theorem not_ends_iff : ¬ r.Ends l type ↔ ∃ name, type.mentioned? = some name ∧ r.Circles name ∧
    ∀ name', ReflTransGen r.IdLeads name name' → l.reference? name' = none := by
  constructor
  · intro hendless
    cases mentioned : type.mentioned? with
    | none => exact absurd (ends_of_mentioned?_eq_none mentioned) hendless
    | some name =>
      have hendless : ¬ r.Ends l (.entity name) := fun h => hendless (.of_mentioned mentioned h)
      refine ⟨name, rfl, ?_, fun name' reached => ?_⟩
      · by_contra hcircles
        exact hendless (ends_of_acc (acc_of_not_circles hcircles))
      · by_contra hreference
        obtain ⟨v, hv⟩ := Option.ne_none_iff_exists'.mp hreference
        exact hendless (ends_of_reached reached hv)
  · rintro ⟨name, mentioned, circles, plain⟩
    exact not_ends_of_circles mentioned circles plain

/-! ### Operands -/

/-- An operand is converted without end if its literal is; an operand without one is dealt with at
once. -/
lemma coerce_eq_endless_iff : r.coerce context property type o = .error .endless ↔
    ∃ l, o.literal? context = some l ∧ ¬ r.Ends l type := by
  have hconvert : ∀ l site, r.convert site type l = .error .endless ↔ ¬ r.Ends l type :=
    fun _ _ => convert_eq_endless_iff
  cases o with
  | value v => cases v <;> simp [coerce, Operand.literal?, hconvert]
  | function f =>
    cases f with
    | currentUser =>
      cases huser : context.principal? <;>
        simp [coerce, functionValue, Operand.literal?, huser, hconvert]
    | _ => cases type <;> simp [coerce, functionValue, Operand.literal?]
  | _ => simp [coerce, Operand.literal?, OperandSite.error, hconvert]

/-- **Operands that are converted without end**: their literals are, for the calls of the conversion
go on forever; which they do where the type mentions an entity type whose ids come back to where
they were, and the literal is no reference to any on the way. So every operand for every property is
converted after finitely many calls exactly if no ids of an entity type lead back to it. -/
theorem coerce_endless_iff_circles (r : Registry) :
    (∀ context property type o, r.coerce context property type o = .error .endless ↔
      ∃ l, o.literal? context = some l ∧ ¬ r.Ends l type) ∧
    (∀ l type, ¬ r.Ends l type ↔ ∃ name, type.mentioned? = some name ∧ r.Circles name ∧
      ∀ name', ReflTransGen r.IdLeads name name' → l.reference? name' = none) ∧
    ((∀ e ∈ r.entities, ∀ p ∈ e.properties, ∀ context property o,
        r.coerce context property p.type o ≠ .error .endless) ↔
      ∀ name, ¬ TransGen r.IdLeads name name) := by
  refine ⟨fun _ _ _ _ => coerce_eq_endless_iff, fun _ _ => not_ends_iff, ?_, ?_⟩
  · intro hends name hcircle
    obtain ⟨next, ⟨type, known, mentioned⟩, hback⟩ := TransGen.head'_iff.mp hcircle
    obtain ⟨e, he, p, hp, rfl⟩ := exists_of_idType? known
    have hendless : ¬ r.Ends (.text "x") p.type :=
      not_ends_of_circles mentioned ⟨name, hback, hcircle⟩ fun _ _ => rfl
    exact hends e he p hp ⟨.startOf default, none⟩ p.name (.word "x")
      (coerce_eq_endless_iff.mpr ⟨_, rfl, hendless⟩)
  · intro hacyclic e _ p _ context property o h
    obtain ⟨l, -, hendless⟩ := coerce_eq_endless_iff.mp h
    obtain ⟨name, -, ⟨name', -, hcircle⟩, -⟩ := not_ends_iff.mp hendless
    exact hacyclic name' hcircle

end Registry

namespace Loop

/-- An entity type that identifies its instances by themselves. -/
def calls : List BuilderCall :=
  [.entity "Loop", .id "id" (.entity "Loop"), .done]

/-- The registry with that entity type. -/
def registry : Registry :=
  ⟨[⟨"Loop", "id", [⟨"id", .entity "Loop", false, none⟩]⟩]⟩

end Loop

open Loop in
/-- The registry is built, and no word for an id is ever converted. -/
theorem exists_built_endless :
    (Drafting.start.calls calls).builder.build = .ok registry ∧
      (∃ e ∈ registry.entities, ⟨"id", .entity "Loop", false, none⟩ ∈ e.properties) ∧
      ∀ context, registry.coerce context "id" (.entity "Loop") (.word "x") = .error .endless ∧
        ¬ registry.Ends (.text "x") (.entity "Loop") := by
  have hback : registry.IdLeads "Loop" "Loop" := ⟨.entity "Loop", rfl, rfl⟩
  have hendless : ¬ registry.Ends (.text "x") (.entity "Loop") :=
    Registry.not_ends_of_circles rfl ⟨"Loop", .refl, .single hback⟩ fun _ _ => rfl
  exact ⟨rfl, ⟨_, .head _, .head _⟩, fun _ =>
    ⟨Registry.coerce_eq_endless_iff.mpr ⟨_, rfl, hendless⟩, hendless⟩⟩

end EntityQuery
