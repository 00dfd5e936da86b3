import EntityQuery.Preparation.Query
import EntityQuery.Proofs.Predicate.Truth
import EntityQuery.Proofs.Preparation.Conversion
import Mathlib.Data.List.Basic
import Mathlib.Tactic.Common

/-!
# Operands of a type

What converting an operand to a declared type yields: null, or a value of the type. A reference is
one to the entity type that is declared, with an id of the type of its ids. A collection is compared
with values of its elements' type.
-/

namespace EntityQuery

/-- A value that properties of a type are compared with. -/
inductive Value.IsOperand (r : Registry) : PropertyType → Value → Prop where
  | text (s : String) : IsOperand r .text (.text s)
  | int (i : Int64) : IsOperand r .int (.int i)
  | float (d : Double) : IsOperand r .float (.float d)
  | bool (b : Bool) : IsOperand r .bool (.bool b)
  | date (d : Date) : IsOperand r .date (.date d)
  | dateTime (t : DateTime) : IsOperand r .dateTime (.dateTime t)
  | enum {name s : String} {constants : List String} (known : s ∈ constants) :
      IsOperand r (.enum name constants) (.enum s)
  | ref {name : String} {type : PropertyType} {id : Value} (idType : r.idType? name = some type)
      (typed : IsOperand r type id) : IsOperand r (.entity name) (.ref name id)
  | element {type : PropertyType} {v : Value} (h : IsOperand r type v) :
      IsOperand r (.collection type) v

lemma Value.IsOperand.present {r : Registry} {type : PropertyType} {v : Value} (h : v.IsOperand r type) :
    v.isNull = false := by
  induction h with
  | element _ ih => exact ih
  | _ => rfl

/-- A literal that is no value of a type yet. -/
def Literal.Untyped (l : Literal) : Prop :=
  ∀ v, l ≠ .typed v

namespace Operand

/-- The single values of an operand. -/
def singles : Operand → List Operand
  | .list items => items
  | o => [o]

/-- An operand that is no value of a type yet. -/
def Untyped (o : Operand) : Prop :=
  ∀ v, o ≠ .value v

end Operand

namespace Registry

variable {r : Registry} {context : QueryContext} {site : OperandSite} {property : String}
  {target : PropertyType} {v : Value}

/-- Any text will do where one does. -/
lemma isOperand_text {s : String} (h : Value.IsOperand r target (.text s)) (t : String) :
    Value.IsOperand r target (.text t) := by
  generalize hv : Value.text s = v at h
  induction h with
  | text => exact .text t
  | element _ ih => exact .element (ih hv)
  | _ => cases hv

/-! ### Conversion -/

lemma isOperand_of_scalar? {l : Literal} (h : l.scalar? target = some v) :
    v.IsOperand r target := by
  unfold Literal.scalar? at h
  split at h
  case h_1 | h_2 | h_3 | h_4 | h_6 | h_7 | h_10 | h_12 | h_13 | h_15 | h_16 =>
    obtain rfl := Option.some.inj h
    constructor
  case h_5 | h_8 | h_9 | h_11 | h_14 =>
    obtain ⟨_, -, rfl⟩ := Option.map_eq_some_iff.mp h
    constructor
  case h_19 => cases h
  all_goals
    -- a constant of an enumeration, written or typed
    split at h
    · rename_i known
      exact Option.some.inj h ▸ .enum (by simpa using known)
    · cases h

/-- A literal is converted to a value of a type: it is a reference already, or it comes down to a
value that is no reference. -/
inductive Converts (r : Registry) (l : Literal) : PropertyType → Value → Prop where
  | element {type : PropertyType} {v : Value} (h : Converts r l type v) :
      Converts r l (.collection type) v
  | reference {name : String} {v : Value} (h : l.reference? name = some v) :
      Converts r l (.entity name) v
  | id {name : String} {type : PropertyType} {id : Value} (plain : l.reference? name = none)
      (known : r.idType? name = some type) (h : Converts r l type id) :
      Converts r l (.entity name) (.ref name id)
  | scalar {type : PropertyType} {v : Value} (h : l.scalar? type = some v) : Converts r l type v

lemma convert_of_scalar? {l : Literal} (h : l.scalar? target = some v) :
    r.convert site target l = .ok v := by
  rw [convert_scalar, h]
  · cases target <;> first | rfl | (cases l <;> cases h)
  · rintro name rfl
    cases l <;> cases h

lemma convert_text (s : String) : r.convert site .text (.text s) = .ok (.text s) :=
  convert_of_scalar? rfl

/-- **Conversion** succeeds with the values that a literal is converted to, wherever it stands. -/
theorem convert_eq_ok {l : Literal} : r.convert site target l = .ok v ↔ r.Converts l target v := by
  constructor
  · intro h
    replace h := (convert_eq_iff (by simp)).mp h
    generalize hv : Except.ok v = x at h
    induction h generalizing v with
    | element _ ih => exact .element (ih hv)
    | reference h =>
      obtain rfl := Except.ok.inj hv
      exact .reference h
    | id plain known _ ih =>
      obtain ⟨id, hid, rfl⟩ := exists_of_map_eq_ok hv.symm
      exact .id plain known (ih hid.symm)
    | scalar _ _ h =>
      obtain rfl := Except.ok.inj hv
      exact .scalar h
    | unknown | fault => cases hv
  · intro h
    induction h with
    | element _ ih => rw [convert_collection, ih]
    | reference h => exact convert_reference h
    | id plain known _ ih => rw [convert_entity plain known, ih, Except.map]
    | scalar h => exact convert_of_scalar? h

/-- **Conversion** yields values of the type asked for. -/
theorem isOperand_of_convert {l : Literal} (untyped : l.Untyped)
    (h : r.convert site target l = .ok v) : v.IsOperand r target := by
  replace h := convert_eq_ok.mp h
  induction h with
  | element _ ih => exact .element ih
  | reference hv =>
    -- only a typed value is a reference already
    cases l with
    | typed w => exact absurd rfl (untyped w)
    | _ => cases hv
  | id _ known _ ih => exact .ref known ih
  | scalar hv => exact isOperand_of_scalar? hv

/-- The value of a function is one of the type asked for. -/
lemma isOperand_of_functionValue {f : Function}
    (h : r.functionValue context site target f = .ok v) : v.IsOperand r target := by
  unfold functionValue at h
  split at h
  · split at h
    · cases h
    · exact isOperand_of_convert (fun _ => by simp) h
  · split at h
    · exact Except.ok.inj h ▸ .date _
    · exact Except.ok.inj h ▸ .dateTime _
    · cases h

/-- An operand without a type is null or becomes a value of the type asked for. -/
lemma isOperand_of_coerce {o : Operand} (untyped : o.Untyped)
    (h : r.coerce context property target o = .ok v) : v.isNull = true ∨ v.IsOperand r target := by
  unfold coerce at h
  split at h
  case h_1 | h_2 => exact .inl (Except.ok.inj h ▸ rfl)
  case h_7 v' _ => exact absurd rfl (untyped v')
  case h_8 => exact .inr (isOperand_of_functionValue h)
  case h_9 => cases h
  all_goals exact .inr (isOperand_of_convert (fun _ => by simp) h)

lemma present_of_convert {l : Literal} (h : r.convert site target l = .ok v) :
    v.isNull = false := by
  replace h := convert_eq_ok.mp h
  induction h with
  | element _ ih => exact ih
  | reference hv =>
    unfold Literal.reference? at hv
    split at hv
    · split at hv <;> cases hv
      rfl
    · cases hv
  | id => rfl
  | scalar hv => exact (isOperand_of_scalar? (r := r) hv).present

/-- Only null is converted to null. -/
lemma present_of_coerce {o : Operand} (ho : o ≠ .null) (ho' : o ≠ .value .null)
    (h : r.coerce context property target o = .ok v) : v.isNull = false := by
  unfold coerce at h
  split at h
  · exact absurd rfl ho
  · exact absurd rfl ho'
  case h_8 f =>
    unfold functionValue at h
    split at h
    · split at h
      · cases h
      · exact present_of_convert h
    · split at h <;> cases h <;> rfl
  case h_9 => cases h
  all_goals exact present_of_convert h

lemma coerceAll_cons_eq_ok {o : Operand} {os : List Operand} {vs : List Value} :
    r.coerceAll context property target (o :: os) = .ok vs ↔
      ∃ v ws, r.coerce context property target o = .ok v ∧
        r.coerceAll context property target os = .ok ws ∧ vs = v :: ws := by
  rw [coerceAll]
  cases ho : r.coerce context property target o with
  | error e => simp
  | ok v =>
    constructor
    · intro h
      obtain ⟨ws, hws, rfl⟩ := exists_of_map_eq_ok h
      exact ⟨v, ws, rfl, hws, rfl⟩
    · rintro ⟨v', ws, hv, hws, rfl⟩
      obtain rfl := Except.ok.inj hv
      simp [hws, Except.map]

lemma coerceAll_eq_ok {os : List Operand} {vs : List Value}
    (h : r.coerceAll context property target os = .ok vs) :
    vs.length = os.length ∧
      ∀ v ∈ vs, ∃ o ∈ os, r.coerce context property target o = .ok v := by
  induction os generalizing vs with
  | nil =>
    rw [coerceAll] at h
    cases h
    simp
  | cons o os ih =>
    obtain ⟨v, rest, ho, hos, rfl⟩ := coerceAll_cons_eq_ok.mp h
    obtain ⟨hlen, hmem⟩ := ih hos
    refine ⟨by simp [hlen], fun w hw => ?_⟩
    rcases List.mem_cons.mp hw with rfl | hw
    · exact ⟨o, by simp, ho⟩
    · obtain ⟨o', ho', hw⟩ := hmem w hw
      exact ⟨o', by simp [ho'], hw⟩

lemma exists_mem_of_coerceAll {os : List Operand} {vs : List Value}
    (h : r.coerceAll context property target os = .ok vs) {o : Operand} (ho : o ∈ os) :
    ∃ v ∈ vs, r.coerce context property target o = .ok v := by
  induction os generalizing vs with
  | nil => simp at ho
  | cons o' os ih =>
    obtain ⟨v, rest, hv, hrest, rfl⟩ := coerceAll_cons_eq_ok.mp h
    rcases List.mem_cons.mp ho with rfl | ho
    · exact ⟨v, by simp, hv⟩
    · obtain ⟨w, hw, hcoerce⟩ := ih hrest ho
      exact ⟨w, by simp [hw], hcoerce⟩

/-- A list of operands is converted one by one. -/
lemma operandsOf_list {path : PropertyPath} {op : Operator} {xs : List Operand}
    (accepts : op.acceptsList = true) (name : String) :
    r.operandsOf context path ⟨name, op, some (.list xs)⟩ =
      r.coerceAll context path.text path.type xs := by
  have hbinary : op.isUnary = false := by cases op <;> first | rfl | cases accepts
  simp [operandsOf, hbinary, accepts]

/-- An operand that is no list is converted on its own. -/
lemma operandsOf_single {path : PropertyPath} {op : Operator} {x : Operand}
    (binary : op.isUnary = false) (single : ∀ items, x ≠ .list items) (name : String) :
    r.operandsOf context path ⟨name, op, some x⟩ =
      (r.coerce context path.text path.type x).map fun v => [v] := by
  cases x with
  | list items => exact absurd rfl (single items)
  | _ => simp [operandsOf, binary]

/-- The operands of a condition are null or values of the type of its path. -/
lemma isOperand_of_operandsOf {path : PropertyPath} {c : RawCondition} {vs : List Value}
    (untyped : ∀ o ∈ c.operand?, ∀ s ∈ o.singles, s.Untyped)
    (h : r.operandsOf context path c = .ok vs) :
    ∀ v ∈ vs, v.isNull = true ∨ v.IsOperand r path.type := by
  unfold operandsOf at h
  split at h
  case h_1 =>
    obtain rfl := Except.ok.inj h
    simp
  case h_2 | h_3 => cases h
  case h_4 items hitems _ =>
    split at h
    · intro v hv
      obtain ⟨o, ho, hcoerce⟩ := (coerceAll_eq_ok h).2 v hv
      exact isOperand_of_coerce (untyped _ hitems o ho) hcoerce
    · cases h
  case h_5 o hlist ho _ =>
    obtain ⟨v, hcoerce, rfl⟩ := exists_of_map_eq_ok h
    have hsingles : o ∈ o.singles := by
      cases o with
      | list items => exact absurd rfl (hlist items)
      | _ => exact List.mem_singleton.mpr rfl
    intro w hw
    obtain rfl := List.mem_singleton.mp hw
    exact isOperand_of_coerce (untyped o ho o hsingles) hcoerce

end Registry

end EntityQuery
