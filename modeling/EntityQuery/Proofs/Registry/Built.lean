import EntityQuery.Registry.Builder
import Mathlib.Data.List.Induction
import Mathlib.Data.List.Nodup
import Mathlib.Tactic.Common

/-!
# What builders hold

Whatever calls a builder gets, refused ones included, it holds the entity types whose `done` was not
refused, and these are sound: every call keeps the invariant, and so does every sequence of calls.
-/

namespace EntityQuery

/-- The names of the properties are distinct, one property identifies instances, and a name is
looked up as the property that has it. -/
structure EntityDef.Sound (e : EntityDef) : Prop where
  distinct : (e.properties.map PropertyDef.name).Nodup
  identified : ∃ p ∈ e.properties, p.name = e.idProperty
  found : ∀ name p, e.property? name = some p ↔ p ∈ e.properties ∧ p.name = name

lemma EntityDef.property?_eq_some_iff {e : EntityDef}
    (distinct : (e.properties.map PropertyDef.name).Nodup) {name : String} {p : PropertyDef} :
    e.property? name = some p ↔ p ∈ e.properties ∧ p.name = name := by
  constructor
  · intro h
    exact ⟨List.mem_of_find?_eq_some h, by simpa using List.find?_some h⟩
  · rintro ⟨hp, rfl⟩
    cases hfind : e.property? p.name with
    | none => simpa using List.find?_eq_none.mp hfind p hp
    | some q =>
      have hname : q.name = p.name := by simpa using List.find?_some hfind
      rw [List.inj_on_of_nodup_map distinct (List.mem_of_find?_eq_some hfind) hp hname]

/-! ### Adding and building -/

lemma EntityDraft.firstRepeated?_eq_none {seen names : List String} :
    firstRepeated? seen names = none ↔ names.Nodup ∧ ∀ n ∈ names, n ∉ seen := by
  induction names generalizing seen with
  | nil => simp [firstRepeated?]
  | cons n ns ih =>
    rw [firstRepeated?]
    by_cases hn : n ∈ seen
    · simp [hn]
    · simp only [List.contains_iff_mem, hn, if_false, ih, List.nodup_cons, List.mem_cons]
      grind

namespace RegistryBuilder

variable {b b' : RegistryBuilder} {d : EntityDraft}

/-- A draft is added if its name is new, its properties have distinct names and one of them
identifies instances. -/
theorem add_eq_ok : b.add d = .ok b' ↔
    (∀ e ∈ b.entities, e.name ≠ d.name) ∧ (d.properties.map PropertyDef.name).Nodup ∧
      ∃ id, d.idProperty? = some id ∧ b' = ⟨b.entities ++ [⟨d.name, id, d.properties⟩]⟩ := by
  have hnodup : EntityDraft.firstRepeated? [] (d.properties.map PropertyDef.name) = none ↔
      (d.properties.map PropertyDef.name).Nodup := by
    simp [EntityDraft.firstRepeated?_eq_none]
  rw [add, ← hnodup]
  split
  · rename_i known
    obtain ⟨e, he, hname⟩ := List.any_eq_true.mp known
    simp only [reduceCtorEq, false_iff, not_and]
    exact fun hnew => absurd (by simpa using hname) (hnew e he)
  · rename_i new
    have hnew : ∀ e ∈ b.entities, e.name ≠ d.name := by simpa using new
    split
    · rename_i repeated
      simp [repeated]
    · rename_i none unidentified
      simp [none, unidentified]
    · rename_i id none identified
      simp only [Except.ok.injEq, none, identified, Option.some.injEq, exists_eq_left', true_and]
      exact ⟨fun h => ⟨hnew, h.symm⟩, fun h => h.2.symm⟩

/-- Nothing is complained about if an association leads to an entity type that was added. -/
lemma danglingTarget?_eq_none {e : EntityDef} {p : PropertyDef} : b.danglingTarget? e p = none ↔
    ∀ target, p.type.target? = some target → ∃ e' ∈ b.entities, e'.name = target := by
  simp [danglingTarget?]

/-- A registry has the entity types that were added, and the associations that are checked lead to
some of them. -/
theorem build_eq_ok {r : Registry} : b.build = .ok r ↔ r.entities = b.entities ∧
    ∀ e ∈ b.entities, ∀ p ∈ e.properties, ∀ target, p.type.target? = some target →
      ∃ e' ∈ b.entities, e'.name = target := by
  have hnone : (b.entities.findSome? fun e => e.properties.findSome? (b.danglingTarget? e)) = none ↔
      ∀ e ∈ b.entities, ∀ p ∈ e.properties, ∀ target, p.type.target? = some target →
        ∃ e' ∈ b.entities, e'.name = target := by
    simp only [List.findSome?_eq_none_iff, danglingTarget?_eq_none]
  rw [← hnone, build]
  split
  · rename_i error complaint
    simp [complaint]
  · rename_i none
    simp only [Except.ok.injEq, none, and_true]
    exact ⟨fun h => h ▸ rfl, fun h => by rw [← h]⟩

end RegistryBuilder

/-! ### Calls -/

namespace Drafting

variable {s : Drafting} {c : BuilderCall} {e : EntityDef}

/-- What every call keeps. -/
structure Sound (s : Drafting) : Prop where
  distinct : (s.builder.entities.map EntityDef.name).Nodup
  entities : ∀ e ∈ s.builder.entities, e.Sound
  identified : ∀ d ∈ s.draft?, ∀ id ∈ d.idProperty?, ∃ p ∈ d.properties, p.name = id

/-- Calling `done` adds an entity type: it is the one that was begun. -/
def Adds (s : Drafting) (e : EntityDef) : Prop :=
  (s.call .done).2 = some (.ok ()) ∧
    ∃ d ∈ s.draft?, e.name = d.name ∧ d.idProperty? = some e.idProperty ∧
      e.properties = d.properties

/-- One of the calls is a `done` that adds the entity type. -/
def Declares (cs : List BuilderCall) (e : EntityDef) : Prop :=
  ∃ before after, cs = before ++ .done :: after ∧ (start.calls before).Adds e

lemma calls_concat (s : Drafting) (cs : List BuilderCall) (c : BuilderCall) :
    s.calls (cs ++ [c]) = ((s.calls cs).call c).1 := by
  simp [calls]

/-- A call of `done` that is not refused adds the entity type that was begun. -/
lemma adds_iff : s.Adds e ↔ ∃ d b, s.draft? = some d ∧ s.builder.add d = .ok b ∧
    b.entities = s.builder.entities ++ [e] := by
  unfold Adds call
  cases hdraft : s.draft? with
  | none => simp
  | some d =>
    cases hadd : s.builder.add d with
    | error => simp [hadd]
    | ok b =>
      obtain ⟨-, -, id, hid, rfl⟩ := RegistryBuilder.add_eq_ok.mp hadd
      obtain ⟨name, idProperty, properties⟩ := e
      simp [hadd, hid]
      grind

/-- **Invariant**: every call keeps a builder sound. -/
theorem Sound.call (h : s.Sound) (c : BuilderCall) : (s.call c).1.Sound := by
  obtain ⟨hdistinct, hentities, hidentified⟩ := h
  cases c with
  | entity name => exact ⟨hdistinct, hentities, by simp [Drafting.call, EntityDraft.named]⟩
  | id name type =>
    refine ⟨hdistinct, hentities, ?_⟩
    simp only [Drafting.call, Option.mem_def, Option.map_eq_some_iff]
    rintro _ ⟨d, -, rfl⟩ id hid
    exact ⟨⟨name, type, false, none⟩, by simp [EntityDraft.withId], Option.some.inj hid⟩
  | property p =>
    refine ⟨hdistinct, hentities, ?_⟩
    simp only [Drafting.call, Option.mem_def, Option.map_eq_some_iff]
    rintro _ ⟨d, hd, rfl⟩ id hid
    obtain ⟨q, hq, hname⟩ := hidentified d hd id hid
    exact ⟨q, by simp [EntityDraft.withProperty, hq], hname⟩
  | done =>
    simp only [Drafting.call]
    split
    · exact ⟨hdistinct, hentities, hidentified⟩
    · rename_i d hd
      split
      · rename_i b hadd
        obtain ⟨hnew, hproperties, id, hid, rfl⟩ := RegistryBuilder.add_eq_ok.mp hadd
        refine ⟨?_, ?_, by simp⟩
        · simp only [List.map_append, List.map_cons, List.map_nil]
          refine List.nodup_append.mpr ⟨hdistinct, by simp, ?_⟩
          grind
        · intro e he
          rcases List.mem_append.mp he with he | he
          · exact hentities e he
          · obtain rfl := List.mem_singleton.mp he
            exact ⟨hproperties, hidentified d hd id hid,
              fun _ _ => EntityDef.property?_eq_some_iff hproperties⟩
      · exact ⟨hdistinct, hentities, by simp⟩

/-- What a call adds: nothing, unless it is a `done` that is not refused. -/
theorem mem_call : e ∈ (s.call c).1.builder.entities ↔
    e ∈ s.builder.entities ∨ c = .done ∧ s.Adds e := by
  cases c with
  | done =>
    rw [adds_iff]
    unfold call
    cases hdraft : s.draft? with
    | none => simp
    | some d =>
      cases hadd : s.builder.add d with
      | error => simp [hadd]
      | ok b =>
        obtain ⟨-, -, id, -, rfl⟩ := RegistryBuilder.add_eq_ok.mp hadd
        simp [hadd, eq_comm]
  | _ => simp [call]

/-- A builder stays sound, whatever is called. -/
theorem sound_calls (cs : List BuilderCall) : (start.calls cs).Sound := by
  induction cs using List.reverseRecOn with
  | nil => exact ⟨.nil, by simp [start, calls, RegistryBuilder.empty], by simp [start, calls]⟩
  | append_singleton cs c ih =>
    rw [calls_concat]
    exact ih.call c

/-- A builder holds the entity types whose `done` was not refused, and no others. -/
theorem mem_calls {cs : List BuilderCall} :
    e ∈ (start.calls cs).builder.entities ↔ Declares cs e := by
  induction cs using List.reverseRecOn with
  | nil => simp [Declares, start, calls, RegistryBuilder.empty]
  | append_singleton cs c ih =>
    rw [calls_concat, mem_call, ih]
    constructor
    · rintro (⟨before, after, rfl, hadds⟩ | ⟨rfl, hadds⟩)
      · exact ⟨before, after ++ [c], by simp, hadds⟩
      · exact ⟨cs, [], rfl, hadds⟩
    · rintro ⟨before, after, hcs, hadds⟩
      -- the `done` is the last call, or it comes before the last
      rcases List.eq_nil_or_concat after with rfl | ⟨after, c', rfl⟩
      · obtain ⟨rfl, hc⟩ := List.append_inj' hcs rfl
        exact .inr ⟨List.singleton_inj.mp hc, hadds⟩
      · rw [List.concat_eq_append, ← List.cons_append, ← List.append_assoc] at hcs
        obtain ⟨rfl, -⟩ := List.append_inj' hcs rfl
        exact .inl ⟨before, after, rfl, hadds⟩

end Drafting

end EntityQuery
