import EntityQuery.Preparation.Coerce
import Mathlib.Logic.Relation
import Mathlib.Tactic.Common

/-!
# Conversions and their calls

A literal is converted to a collection by being converted to its elements, and to an association by
being converted to the ids that it leads to. A conversion that makes finitely many calls comes to a
result, and to none but the one that it has. A conversion whose calls go on forever is recognized at
the first entity type that it comes back to.
-/

namespace EntityQuery

open Relation (TransGen)

namespace Registry

/-- Converting a literal to a type comes down to converting it to another type. -/
inductive Delegates (r : Registry) (l : Literal) : PropertyType → PropertyType → Prop where
  | element (type : PropertyType) : Delegates r l (.collection type) type
  | id {name : String} {type : PropertyType} (plain : l.reference? name = none)
      (known : r.idType? name = some type) : Delegates r l (.entity name) type

/-- The calls that converting a literal to a type makes cannot go on forever. -/
def Ends (r : Registry) (l : Literal) (type : PropertyType) : Prop :=
  Acc (fun callee caller => r.Delegates l caller callee) type

/-- Converting a literal to a type comes to a result after finitely many calls. -/
inductive Reaches (r : Registry) (site : OperandSite) (l : Literal) :
    PropertyType → Except PrepareError Value → Prop where
  | element {type : PropertyType} {x : Except PrepareError Value} (h : Reaches r site l type x) :
      Reaches r site l (.collection type) x
  | reference {name : String} {v : Value} (h : l.reference? name = some v) :
      Reaches r site l (.entity name) (.ok v)
  | unknown {name : String} (plain : l.reference? name = none) (unknown : r.idType? name = none) :
      Reaches r site l (.entity name)
        (.error (site.error (.entity name) (.unknownEntity name)))
  | id {name : String} {type : PropertyType} {x : Except PrepareError Value}
      (plain : l.reference? name = none) (known : r.idType? name = some type)
      (h : Reaches r site l type x) : Reaches r site l (.entity name) (x.map (.ref name))
  | scalar {type : PropertyType} {v : Value} (single : ∀ element, type ≠ .collection element)
      (plain : ∀ name, type ≠ .entity name) (h : l.scalar? type = some v) :
      Reaches r site l type (.ok v)
  | fault {type : PropertyType} (single : ∀ element, type ≠ .collection element)
      (plain : ∀ name, type ≠ .entity name) (h : l.scalar? type = none) :
      Reaches r site l type (.error (site.error type (l.fault type)))

variable {r : Registry} {site : OperandSite} {l : Literal} {type : PropertyType} {name : String}
  {visited : List String} {x : Except PrepareError Value}

/-! ### Finitely many calls -/

lemma Ends.collection (h : r.Ends l type) : r.Ends l (.collection type) :=
  .intro _ fun _ hcall => by
    cases hcall
    exact h

lemma Ends.reference {v : Value} (h : l.reference? name = some v) : r.Ends l (.entity name) :=
  .intro _ fun _ hcall => by
    cases hcall with
    | id plain => cases plain.symm.trans h

lemma Ends.unknown (h : r.idType? name = none) : r.Ends l (.entity name) :=
  .intro _ fun _ hcall => by
    cases hcall with
    | id _ known => cases known.symm.trans h

lemma Ends.id (known : r.idType? name = some type) (h : r.Ends l type) : r.Ends l (.entity name) :=
  .intro _ fun _ hcall => by
    cases hcall with
    | id _ known' =>
      cases known.symm.trans known'
      exact h

lemma Ends.single (single : ∀ element, type ≠ .collection element)
    (plain : ∀ name, type ≠ .entity name) : r.Ends l type :=
  .intro _ fun _ hcall => by
    cases hcall with
    | element => exact absurd rfl (single _)
    | id => exact absurd rfl (plain _)

/-- Calls that are finitely many never come back. -/
lemma Ends.not_returns (h : r.Ends l type) : ¬ TransGen (r.Delegates l) type type := by
  induction h with
  | intro type _ ih =>
    intro hback
    obtain ⟨callee, hcall, hrest⟩ := TransGen.head'_iff.mp hback
    exact ih callee hcall (.tail' hrest hcall)

/-- A conversion that makes finitely many calls comes to a result. -/
lemma Ends.exists_reaches (h : r.Ends l type) (site : OperandSite) :
    ∃ x, r.Reaches site l type x := by
  induction h with
  | intro type _ ih =>
    cases type with
    | collection element =>
      obtain ⟨x, hx⟩ := ih element (.element element)
      exact ⟨x, .element hx⟩
    | entity name =>
      cases plain : l.reference? name with
      | some v => exact ⟨_, .reference plain⟩
      | none =>
        cases known : r.idType? name with
        | none => exact ⟨_, .unknown plain known⟩
        | some idType =>
          obtain ⟨x, hx⟩ := ih idType (.id plain known)
          exact ⟨_, .id plain known hx⟩
    | _ =>
      cases hscalar : l.scalar? _ with
      | some v => exact ⟨_, .scalar (by simp) (by simp) hscalar⟩
      | none => exact ⟨_, .fault (by simp) (by simp) hscalar⟩

/-- A conversion that comes to a result makes finitely many calls. -/
lemma Reaches.ends (h : r.Reaches site l type x) : r.Ends l type := by
  induction h with
  | element _ ih => exact ih.collection
  | reference h => exact .reference h
  | unknown _ unknown => exact .unknown unknown
  | id _ known _ ih => exact .id known ih
  | scalar single plain | fault single plain => exact .single single plain

/-- A result that is reached is one that is reported. -/
lemma Reaches.ne_endless (h : r.Reaches site l type x) : x ≠ .error .endless := by
  induction h with
  | element _ ih => exact ih
  | @id _ _ x _ _ _ ih =>
    cases x with
    | ok => simp [Except.map]
    | error error => simpa [Except.map] using ih
  | unknown | fault => simp [OperandSite.error]
  | reference | scalar => simp

/-! ### Results -/

/-- What a conversion comes to is reached, unless it is recognized to be endless. -/
lemma reaches_of_convertVia (h : r.convertVia site l visited type ≠ .error .endless) :
    r.Reaches site l type (r.convertVia site l visited type) := by
  fun_induction convertVia with
  | case1 visited element ih => exact .element (ih h)
  | case2 visited name v hreference => exact .reference hreference
  | case3 visited name plain unknown => exact .unknown plain unknown
  | case4 => exact absurd rfl h
  | case5 visited name plain idType known _ ih =>
    refine .id plain known (ih fun hendless => h ?_)
    rw [hendless]
    rfl
  | case6 visited type single plain v hscalar => exact .scalar single plain hscalar
  | case7 visited type single plain hscalar => exact .fault single plain hscalar

/-- A result that is reached is what the conversion comes to, however it was led there: finitely many
calls come back to no entity type. -/
lemma Reaches.convertVia_eq (h : r.Reaches site l type x)
    (through : ∀ name ∈ visited, TransGen (r.Delegates l) (.entity name) type) :
    r.convertVia site l visited type = x := by
  induction h generalizing visited with
  | element h ih =>
    rw [convertVia, ih fun name hname => (through name hname).tail (.element _)]
  | reference h => rw [convertVia, h]
  | unknown plain unknown =>
    rw [convertVia]
    simp only [plain]
    split
    · rfl
    · rename_i known
      cases unknown.symm.trans known
  | @id name type x plain known h ih =>
    have hfresh : ¬ visited.contains name := fun hback =>
      (Reaches.id plain known h).ends.not_returns (through name (by simpa using hback))
    have hrest : r.convertVia site l (name :: visited) type = x := ih fun name' hname => by
      rcases List.mem_cons.mp hname with rfl | hname
      · exact .single (.id plain known)
      · exact (through name' hname).tail (.id plain known)
    rw [convertVia]
    simp only [plain]
    split
    · rename_i unknown
      cases unknown.symm.trans known
    · rename_i type' known'
      cases known.symm.trans known'
      rw [dif_neg hfresh, hrest]
  | scalar single plain h | fault single plain h =>
    rw [convertVia, h]
    · exact single
    · exact plain

/-- The results of conversions, except that of an endless one, are those that finitely many calls
come to. -/
theorem convert_eq_iff (reported : x ≠ .error .endless) :
    r.convert site type l = x ↔ r.Reaches site l type x := by
  constructor
  · rintro rfl
    exact reaches_of_convertVia reported
  · intro h
    exact h.convertVia_eq (by simp)

/-- A conversion is endless exactly if its calls go on forever. -/
theorem convert_eq_endless_iff : r.convert site type l = .error .endless ↔ ¬ r.Ends l type := by
  constructor
  · intro hendless hends
    obtain ⟨x, hx⟩ := hends.exists_reaches site
    exact hx.ne_endless (((convert_eq_iff hx.ne_endless).mpr hx).symm.trans hendless)
  · intro hcalls
    by_contra h
    exact hcalls (reaches_of_convertVia h).ends

/-! ### Conversion to each kind of type -/

theorem convert_collection (element : PropertyType) :
    r.convert site (.collection element) l = r.convert site element l := by
  rw [convert, convertVia, convert]

theorem convert_reference {v : Value} (h : l.reference? name = some v) :
    r.convert site (.entity name) l = .ok v :=
  (convert_eq_iff (by simp)).mpr (.reference h)

theorem convert_unknown (plain : l.reference? name = none) (unknown : r.idType? name = none) :
    r.convert site (.entity name) l =
      .error (site.error (.entity name) (.unknownEntity name)) :=
  (convert_eq_iff (by simp [OperandSite.error])).mpr (.unknown plain unknown)

/-- A literal that is no reference yet is converted to the type of the ids. -/
theorem convert_entity (plain : l.reference? name = none) (known : r.idType? name = some type) :
    r.convert site (.entity name) l = (r.convert site type l).map (.ref name) := by
  by_cases hends : r.Ends l type
  · obtain ⟨x, hx⟩ := hends.exists_reaches site
    have hid : r.Reaches site l (.entity name) (x.map (.ref name)) := .id plain known hx
    rw [(convert_eq_iff hx.ne_endless).mpr hx, (convert_eq_iff hid.ne_endless).mpr hid]
  · have hendless : ¬ r.Ends l (.entity name) := fun h => hends (h.inv (.id plain known))
    rw [convert_eq_endless_iff.mpr hends, convert_eq_endless_iff.mpr hendless]
    rfl

theorem convert_scalar (single : type.isCollection = false) (plain : ∀ name, type ≠ .entity name) :
    r.convert site type l = match l.scalar? type with
      | some v => .ok v
      | none => .error (site.error type (l.fault type)) := by
  have single : ∀ element, type ≠ .collection element := by
    rintro element rfl
    cases single
  cases h : l.scalar? type with
  | some v => exact (convert_eq_iff (by simp)).mpr (.scalar single plain h)
  | none => exact (convert_eq_iff (by simp [OperandSite.error])).mpr (.fault single plain h)

end Registry

end EntityQuery
