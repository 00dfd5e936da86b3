import EntityQuery.Proofs.Preparation.Operands
import EntityQuery.Proofs.Registry.Admits
import EntityQuery.Proofs.Registry.Built

/-!
# Entity types that a built registry misses

Building checks that the associations of a registry lead to entity types that it has. Paths go
through such associations alone, so resolving never misses an entity type. Operands are converted
through collections of any depth, while building looks into one collection only: the main statement
is that operands never miss an entity type exactly if collections of collections mention none that
is missing.
-/

namespace EntityQuery

/-- The entity type that a type mentions, inside collections of whatever depth. -/
def PropertyType.mentioned? : PropertyType → Option String
  | .entity name => some name
  | .collection element => element.mentioned?
  | _ => none

namespace Registry

/-- The registry has an entity type of the name. -/
def Knows (r : Registry) (name : String) : Prop :=
  ∃ e ∈ r.entities, e.name = name

/-- Every entity type that is mentioned is known. -/
def Closed (r : Registry) : Prop :=
  ∀ e ∈ r.entities, ∀ p ∈ e.properties, ∀ name, p.type.mentioned? = some name → r.Knows name

/-- Every entity type that is mentioned inside collections of collections is known. -/
def ClosedInside (r : Registry) : Prop :=
  ∀ e ∈ r.entities, ∀ p ∈ e.properties, ∀ element name, p.type = .collection (.collection element) →
    element.mentioned? = some name → r.Knows name

end Registry

/-- The error is about an entity type that is not known. -/
inductive PrepareError.NamesUnknown : PrepareError → Prop where
  | operand (property given : String) (expected : PropertyType) (name : String) :
      NamesUnknown (.operand property given expected (.unknownEntity name))

namespace PropertyType

/-- What a type mentions, it leads to directly or mentions inside collections of collections. -/
lemma mentioned?_eq_some {type : PropertyType} {name : String} :
    type.mentioned? = some name ↔ type.target? = some name ∨
      ∃ element, type = .collection (.collection element) ∧ element.mentioned? = some name := by
  cases type with
  | collection element => cases element <;> simp [mentioned?, target?, PropertyType.element]
  | _ => simp [mentioned?, target?, PropertyType.element]

lemma target?_association (indexed : Bool) (target : String) :
    (association indexed target).target? = some target := by
  cases indexed <;> rfl

end PropertyType

namespace Registry

variable {r : Registry} {context : QueryContext} {site : OperandSite} {l : Literal}
  {type : PropertyType} {name : String}

/-! ### Looking up -/

lemma knows_iff : r.Knows name ↔ ∃ e, r.entity? name = some e := by
  simp only [Knows, entity?, ← Option.isSome_iff_exists, List.find?_isSome, beq_iff_eq]

/-- Where names are distinct, an entity type is looked up by its own name, and by no other. -/
lemma entity?_eq_some_iff (distinct : (r.entities.map EntityDef.name).Nodup) {e : EntityDef} :
    r.entity? name = some e ↔ e ∈ r.entities ∧ e.name = name := by
  constructor
  · intro h
    exact ⟨List.mem_of_find?_eq_some h, entity?_name h⟩
  · rintro ⟨he, rfl⟩
    obtain ⟨e', he'⟩ := knows_iff.mp ⟨e, he, rfl⟩
    have hmem := List.mem_of_find?_eq_some he'
    rw [he', List.inj_on_of_nodup_map distinct hmem he (entity?_name he')]

/-- An entity type that is known and sound has ids. -/
lemma exists_idType? (sound : ∀ e ∈ r.entities, e.Sound) (known : r.Knows name) :
    ∃ type, r.idType? name = some type := by
  obtain ⟨e, he⟩ := knows_iff.mp known
  have hsound := sound e (List.mem_of_find?_eq_some he)
  obtain ⟨p, hp, hname⟩ := hsound.identified
  have hid : e.id? = some p := (hsound.found _ _).mpr ⟨hp, hname⟩
  exact ⟨p.type, by simp [idType?, he, hid]⟩

/-- The type of ids is that of a property. -/
lemma exists_of_idType? (h : r.idType? name = some type) :
    ∃ e ∈ r.entities, ∃ p ∈ e.properties, p.type = type := by
  obtain ⟨p, hp, rfl⟩ := Option.map_eq_some_iff.mp h
  obtain ⟨e, he, hid⟩ := Option.bind_eq_some_iff.mp hp
  exact ⟨e, List.mem_of_find?_eq_some he, p, List.mem_of_find?_eq_some hid, rfl⟩

/-! ### Resolving -/

/-- Following steps from an entity type never misses one that associations lead to. -/
lemma follow_ne_unknownEntity {path : String} {e : EntityDef} {steps : List PathStep}
    (known : ∀ e ∈ r.entities, ∀ p ∈ e.properties, ∀ target, p.type.target? = some target →
      r.Knows target) (he : e ∈ r.entities) :
    r.follow path e steps ≠ .error (.unknownEntity name) := by
  have hsegment : ∀ (e : EntityDef) step,
      segment e path step ≠ .error (.unknownEntity name) := by
    intro e step
    unfold segment
    split
    · simp
    · split <;> simp
  fun_induction follow r path e steps with
  | case1 => simp
  | case2 e last error herror =>
    rintro ⟨⟩
    exact hsegment e last herror
  | case3 => simp
  | case4 => simp
  | case5 e step rest hrest error herror =>
    rintro ⟨⟩
    exact hsegment e step herror
  | case6 => simp
  | case7 e step rest hrest s p hs target htarget hnone =>
    obtain ⟨-, hp, -⟩ := segment_eq_ok hs
    have hp : p ∈ e.properties := List.mem_of_find?_eq_some hp
    have htype : p.type.target? = some target := by
      rw [type_of_follow htarget]
      exact PropertyType.target?_association _ _
    obtain ⟨next, hnext⟩ := knows_iff.mp (known e he p hp target htype)
    cases hnone.symm.trans hnext
  | case8 e step rest hrest s p hs target htarget next hnext ih =>
    have ih := ih (List.mem_of_find?_eq_some hnext)
    cases hfollow : r.follow path next rest with
    | error error =>
      intro h
      exact ih (hfollow.trans h)
    | ok q => simp [Except.map]

/-! ### Converting -/

/-- A type that mentions an unknown entity type is none that a text is converted to. -/
lemma convert_unknown_mentioned {s : String} (mentioned : type.mentioned? = some name)
    (unknown : r.idType? name = none) :
    r.convert site type (.text s) =
      .error (site.error (.entity name) (.unknownEntity name)) := by
  induction type with
  | collection element ih =>
    rw [convert_collection]
    exact ih mentioned
  | entity name' =>
    obtain rfl := Option.some.inj mentioned
    exact convert_unknown rfl unknown
  | _ => cases mentioned

/-- In a closed registry, converting to a type that mentions what is known never misses an entity
type. -/
lemma not_namesUnknown_of_convert (sound : ∀ e ∈ r.entities, e.Sound) (closed : r.Closed)
    (known : ∀ name, type.mentioned? = some name → r.Knows name) {error : PrepareError}
    (h : r.convert site type l = .error error) : ¬ error.NamesUnknown := by
  by_cases hendless : error = .endless
  · rw [hendless]
    rintro ⟨⟩
  replace h := (convert_eq_iff (by simpa using hendless)).mp h
  clear hendless
  -- every call that leads to the error has a type of this kind
  generalize hx : Except.error error = x at h
  induction h generalizing error with
  | element _ ih => exact ih known hx
  | @unknown name _ unknown =>
    obtain ⟨type, htype⟩ := exists_idType? sound (known name rfl)
    cases unknown.symm.trans htype
  | @id name _ x _ hid _ ih =>
    obtain ⟨e, he, p, hp, rfl⟩ := exists_of_idType? hid
    cases x with
    | ok => cases hx
    | error error' =>
      obtain rfl := Except.error.inj hx
      exact ih (closed e he p hp) rfl
  | fault =>
    obtain rfl := Except.error.inj hx
    unfold Literal.fault OperandSite.error
    split <;> rintro ⟨⟩
  | reference | scalar => cases hx

/-- In a closed registry, an operand never misses an entity type. -/
lemma not_namesUnknown_of_coerce (sound : ∀ e ∈ r.entities, e.Sound) (closed : r.Closed)
    (known : ∀ name, type.mentioned? = some name → r.Knows name) {property : String} {o : Operand}
    {error : PrepareError} (h : r.coerce context property type o = .error error) :
    ¬ error.NamesUnknown := by
  unfold coerce at h
  split at h
  case h_1 | h_2 => cases h
  case h_8 =>
    unfold functionValue at h
    split at h
    · split at h
      · cases h
        rintro ⟨⟩
      · exact not_namesUnknown_of_convert sound closed known h
    · split at h <;> cases h
      rintro ⟨⟩
  case h_9 =>
    cases h
    rintro ⟨⟩
  all_goals exact not_namesUnknown_of_convert sound closed known h

/-- **Registries that are built**: they have the entity types whose `done` was not refused, each
sound and looked up by its name, and associations lead to known ones, so that resolving from a known
entity type misses none. They are closed, and operands miss no entity type either, exactly if no
collection of collections mentions an unknown one. -/
theorem built_closed_iff {cs : List BuilderCall}
    (built : (Drafting.start.calls cs).builder.build = .ok r) :
    (∀ e, e ∈ r.entities ↔ Drafting.Declares cs e) ∧
    (∀ e ∈ r.entities, e.Sound ∧ ∀ name, r.entity? name = some e ↔ e.name = name) ∧
    (∀ e ∈ r.entities, ∀ p ∈ e.properties, ∀ name, p.type.target? = some name → r.Knows name) ∧
    (∀ e ∈ r.entities, ∀ path name, r.resolve e.name path ≠ .error (.unknownEntity name)) ∧
    (r.Closed ↔ r.ClosedInside) ∧
    (r.Closed ↔ ∀ e ∈ r.entities, ∀ p ∈ e.properties, ∀ context property o error,
      r.coerce context property p.type o = .error error → ¬ error.NamesUnknown) := by
  obtain ⟨hentities, htargets⟩ := RegistryBuilder.build_eq_ok.mp built
  obtain ⟨distinct, sound, -⟩ := Drafting.sound_calls cs
  rw [← hentities] at distinct sound htargets
  have hlookup : ∀ e ∈ r.entities, ∀ name, r.entity? name = some e ↔ e.name = name := by
    intro e he name
    rw [entity?_eq_some_iff distinct]
    exact and_iff_right he
  refine ⟨fun e => by rw [hentities, Drafting.mem_calls], fun e he => ⟨sound e he, hlookup e he⟩,
    htargets, ?_, ?_, ?_⟩
  · intro e he path name
    have hsome : r.entity? e.name = some e := (hlookup e he e.name).mpr rfl
    simpa [resolve, hsome] using follow_ne_unknownEntity htargets he
  · constructor
    · intro closed e he p hp element name htype hname
      have hmentioned := PropertyType.mentioned?_eq_some.mpr (.inr ⟨element, htype, hname⟩)
      exact closed e he p hp name hmentioned
    · intro inside e he p hp name hname
      rcases PropertyType.mentioned?_eq_some.mp hname with htarget | ⟨element, htype, hname⟩
      · exact htargets e he p hp name htarget
      · exact inside e he p hp element name htype hname
  · constructor
    · intro closed e he p hp context property o error h
      exact not_namesUnknown_of_coerce sound closed (closed e he p hp) h
    · intro known e he p hp name hname
      by_contra hunknown
      have hid : r.idType? name = none := by
        cases hentity : r.entity? name with
        | none => simp [idType?, hentity]
        | some e => exact absurd (knows_iff.mpr ⟨e, hentity⟩) hunknown
      exact known e he p hp ⟨.startOf default, none⟩ p.name (.word "x") _
        (convert_unknown_mentioned hname hid) ⟨_, _, _, name⟩

end Registry

namespace Circles

/-- A person's friends, circle by circle. -/
def friends (of : String) : PropertyDef :=
  ⟨"friends", .collection (.collection (.entity of)), true, none⟩

/-- Strangers are refused, for they have no ids; persons are added, with friends. -/
def calls (of : String) : List BuilderCall :=
  [.entity "Stranger", .property (friends of), .done,
    .entity "Person", .id "id" .text, .property (friends of), .done]

/-- Persons with their friends. -/
def registry (of : String) : Registry :=
  ⟨[⟨"Person", "id", [⟨"id", .text, false, none⟩, friends of]⟩]⟩

end Circles

open Circles in
/-- If friends are persons, then the registry is closed. -/
theorem built_closed_iff_persons :
    (Drafting.start.calls (calls "Person")).builder.build = .ok (registry "Person") ∧
      (registry "Person").Closed ∧
      (∀ path name, (registry "Person").resolve "Person" path ≠ .error (.unknownEntity name)) ∧
      ∀ context o error, (registry "Person").coerce context "friends" (friends "Person").type o =
        .error error → ¬ error.NamesUnknown := by
  have built : (Drafting.start.calls (calls "Person")).builder.build =
      .ok (registry "Person") := rfl
  obtain ⟨-, -, -, hresolve, hclosed, hcoerce⟩ := Registry.built_closed_iff built
  have closed : (registry "Person").Closed := by
    refine hclosed.mpr fun e he p hp element name htype hname => ?_
    obtain rfl := List.mem_singleton.mp he
    rcases List.mem_pair.mp hp with rfl | rfl <;> cases htype
    obtain rfl := Option.some.inj hname
    exact ⟨_, he, rfl⟩
  exact ⟨built, closed, hresolve _ (.head _),
    fun context => hcoerce.mp closed _ (.head _) _ (.tail _ (.head _)) context "friends"⟩

open Circles in
/-- If friends are strangers, then the registry is built all the same, and an operand for them
misses the entity type that was refused. -/
theorem exists_built_not_closed :
    (Drafting.start.calls (calls "Stranger")).builder.build = .ok (registry "Stranger") ∧
      (friends "Stranger").type.mentioned? = some "Stranger" ∧
      ¬ (registry "Stranger").Knows "Stranger" ∧
      ∀ context, (registry "Stranger").coerce context "friends" (friends "Stranger").type
        (.word "x") = .error (.operand "friends" "x" (.entity "Stranger")
          (.unknownEntity "Stranger")) := by
  refine ⟨rfl, rfl, by simp [Registry.Knows, registry], fun context => ?_⟩
  exact Registry.convert_unknown_mentioned rfl rfl

end EntityQuery
