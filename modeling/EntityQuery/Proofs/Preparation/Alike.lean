import EntityQuery.Proofs.Preparation.Reached
import EntityQuery.Proofs.Preparation.Turned
import Mathlib.Data.List.Forall2

/-!
# Rules on conditions that are alike

Rules look at the kind of a property, at the operator, and at the operands only as far as to tell
null and texts apart. So they do the same to conditions that agree in these respects. Of all rules
one repeats its condition, the one about the empty text, and it does so for a condition that no
other rule changes.
-/

namespace EntityQuery

/-! ### Predicates that are alike -/

namespace Predicate

variable {C D : Type} {R : C → D → Prop}

/-- Whether a predicate is a single condition. -/
def isCond : Predicate C → Bool
  | cond _ => true
  | _ => false

/-- The conditions correspond, from left to right, and both predicates are single conditions if one
of them is. -/
structure Alike (R : C → D → Prop) (p : Predicate C) (q : Predicate D) : Prop where
  conditions : List.Forall₂ R p.conditions q.conditions
  single : p.isCond = q.isCond

lemma alike_cond {c : C} {d : D} (h : R c d) : Alike R (.cond c) (.cond d) :=
  ⟨by simpa using h, rfl⟩

lemma isCond_join (j : Junction) (cs : List C) :
    (join j (cs.map cond)).isCond = decide (cs.length = 1) := by
  have hapart : ∀ p ∈ cs.map cond, Apart j p := by
    intro p hp
    obtain ⟨c, -, rfl⟩ := List.mem_map.mp hp
    cases j <;> simp [Apart]
  rw [join_of_apart hapart]
  rcases cs with _ | ⟨c, _ | ⟨c', cs⟩⟩
  · cases j <;> rfl
  · rfl
  · cases j <;> rfl

lemma alike_join (j : Junction) {cs : List C} {ds : List D} (h : List.Forall₂ R cs ds) :
    Alike R (join j (cs.map cond)) (join j (ds.map cond)) where
  conditions := by simpa [conditions_join, List.flatMap_map] using h
  single := by rw [isCond_join, isCond_join, h.length_eq]

lemma beq_cond_eq [BEq C] (p : Predicate C) (c : C) :
    (p == .cond c) = (p.isCond && p.conditions.all (· == c)) := by
  cases p with
  | cond d => simp [isCond, BEq.beq, beq]
  | and ps => rfl
  | or ps => rfl

end Predicate

/-! ### Conditions that are alike -/

/-- A relation of values under which null, texts and equal values are the same. -/
structure Value.Congruence (V : Value → Value → Prop) : Prop where
  text (s : String) : V (.text s) (.text s)
  isNull {v w : Value} (h : V v w) : v.isNull = w.isNull
  text? {v w : Value} (h : V v w) : v.text? = w.text?
  beq {v v' w w' : Value} (hv : V v v') (hw : V w w') : (v == w) = (v' == w')

/-- Conditions of one kind and operator whose operands correspond. -/
structure Condition.Alike (V : Value → Value → Prop) (c d : Condition) : Prop where
  kind : c.property.kind = d.property.kind
  operator : c.operator = d.operator
  operands : List.Forall₂ V c.operands d.operands

namespace Condition.Alike

variable {V : Value → Value → Prop} {c d e f : Condition}

lemma replace (h : c.Alike V d) (operator : Operator) {vs ws : List Value}
    (hvs : List.Forall₂ V vs ws) : (c.replace operator vs).Alike V (d.replace operator ws) :=
  ⟨h.kind, rfl, hvs⟩

lemma text? (hV : Value.Congruence V) (h : c.Alike V d) : c.text? = d.text? := by
  unfold Condition.text?
  match c.operands, d.operands, h.operands with
  | _, _, .nil => rfl
  | _, _, .cons hv _ => exact hV.text? hv

lemma hasSingle (hV : Value.Congruence V) (h : c.Alike V d) : c.hasSingle = d.hasSingle := by
  unfold Condition.hasSingle
  match c.operands, d.operands, h.operands with
  | _, _, .nil => rfl
  | _, _, .cons hv .nil => simp [hV.isNull hv]
  | _, _, .cons _ (.cons _ _) => rfl

lemma beqAll (hV : Value.Congruence V) {vs vs' ws ws' : List Value} (hvs : List.Forall₂ V vs vs')
    (hws : List.Forall₂ V ws ws') : Value.beqAll vs ws = Value.beqAll vs' ws' := by
  induction hvs generalizing ws ws' with
  | nil => cases hws <;> rfl
  | cons hv _ ih =>
    cases hws with
    | nil => rfl
    | cons hw hws =>
      rw [Value.beqAll, Value.beqAll, ih hws]
      exact congrArg (· && _) (hV.beq hv hw)

/-- A condition recurs among conditions on its property if the one that it is like does. -/
lemma beq (hV : Value.Congruence V) (hcd : c.Alike V d) (hef : e.Alike V f)
    (he : e.property = c.property) (hf : f.property = d.property) : (e == c) = (f == d) := by
  have hoperands := beqAll hV hef.operands hcd.operands
  simp [BEq.beq, Condition.beq, he, hf, hcd.operator, hef.operator, hoperands]

end Condition.Alike

/-! ### Rules -/

namespace Rule

variable {V : Value → Value → Prop} {c d e : Condition} {p : Predicate Condition}

lemma alike_absence (h : c.Alike V d) :
    Option.Rel (Predicate.Alike (Condition.Alike V)) (absence c) (absence d) := by
  unfold absence
  rw [h.kind, h.operator]
  cases d.property.kind <;> cases d.operator <;> first
    | exact .none
    | exact .some (Predicate.alike_cond (h.replace _ .nil))

lemma alike_nullComparison (hV : Value.Congruence V) (h : c.Alike V d) :
    Option.Rel (Predicate.Alike (Condition.Alike V)) (nullComparison c) (nullComparison d) := by
  have hnull : c.operands = [.null] ↔ d.operands = [.null] := by
    have hvalue : ∀ v : Value, v = .null ↔ v.isNull = true := by
      intro v
      cases v <;> simp [Value.isNull]
    have hoperands := h.operands
    generalize c.operands = vs at hoperands ⊢
    generalize d.operands = ws at hoperands ⊢
    rcases hoperands with _ | ⟨hv, _ | _⟩
    · simp
    · simp [hvalue, hV.isNull hv]
    · simp
  by_cases hc : c.operands = [.null]
  · unfold nullComparison
    rw [hc, hnull.mp hc, h.operator]
    cases d.operator <;> first
      | exact .none
      | exact .some (Predicate.alike_cond (h.replace _ .nil))
  · rw [nullComparison_eq_none hc, nullComparison_eq_none (mt hnull.mpr hc)]
    exact .none

/-- Null in a list: a test for absence and, unless nothing else is in the list, the rest of it. -/
lemma nullInList_eq (c : Condition) : nullInList c =
    if c.operator.takesList && c.operands.any Value.isNull then
      let values := c.operands.filter fun v => !v.isNull
      let rest := if values.isEmpty then [] else [c.replace c.operator values]
      if c.operator == .notIn then some (.allOf ((c.replace .isNotNull [] :: rest).map .cond))
      else some (.anyOf ((c.replace .isNull [] :: rest).map .cond))
    else none := by
  unfold nullInList
  generalize (c.operands.filter fun v => !v.isNull) = values
  cases values <;> simp

lemma alike_nullInList (hV : Value.Congruence V) (h : c.Alike V d) :
    Option.Rel (Predicate.Alike (Condition.Alike V)) (nullInList c) (nullInList d) := by
  have hany : ∀ {vs ws : List Value}, List.Forall₂ V vs ws →
      vs.any Value.isNull = ws.any Value.isNull := by
    intro vs ws hvs
    induction hvs with
    | nil => rfl
    | cons hv _ ih => rw [List.any_cons, List.any_cons, hV.isNull hv, ih]
  have hvalues : List.Forall₂ V (c.operands.filter fun v => !v.isNull)
      (d.operands.filter fun v => !v.isNull) :=
    List.rel_filter (fun _ _ hv => by simp [hV.isNull hv]) h.operands
  rw [nullInList_eq, nullInList_eq, h.operator, hany h.operands]
  generalize (c.operands.filter fun v => !v.isNull) = vs at hvalues
  generalize (d.operands.filter fun v => !v.isNull) = ws at hvalues
  have hrest : List.Forall₂ (Condition.Alike V) (if vs.isEmpty then [] else [c.replace d.operator vs])
      (if ws.isEmpty then [] else [d.replace d.operator ws]) := by
    cases hvalues with
    | nil => exact .nil
    | cons hv hvs => exact .cons (h.replace _ (.cons hv hvs)) .nil
  split
  · split
    · exact .some (Predicate.alike_join .and (.cons (h.replace _ .nil) hrest))
    · exact .some (Predicate.alike_join .or (.cons (h.replace _ .nil) hrest))
  · exact .none

lemma alike_part (hV : Value.Congruence V) (h : c.Alike V d) {v w : Value} (hv : V v w) :
    (part c v).Alike V (part d w) := by
  unfold part
  rw [hV.isNull hv, h.operator]
  split
  · exact h.replace _ .nil
  · exact h.replace _ (.cons hv .nil)

lemma alike_containsList (hV : Value.Congruence V) (h : c.Alike V d) :
    Option.Rel (Predicate.Alike (Condition.Alike V)) (containsList c) (containsList d) := by
  have hparts : List.Forall₂ (Condition.Alike V) (c.operands.map (part c))
      (d.operands.map (part d)) := by
    rw [List.forall₂_map_left_iff, List.forall₂_map_right_iff]
    exact h.operands.imp fun _ _ => alike_part hV h
  rw [containsList_eq, containsList_eq, h.hasSingle hV, h.operator, map_containsPart,
    map_containsPart]
  cases d.hasSingle <;> cases d.operator <;> first
    | exact .none
    | exact .some (Predicate.alike_join _ hparts)

lemma alike_textContains (hV : Value.Congruence V) (h : c.Alike V d) :
    Option.Rel (Predicate.Alike (Condition.Alike V)) (textContains c) (textContains d) := by
  unfold textContains
  rw [h.kind, h.operator, h.text? hV]
  cases d.property.kind <;> cases d.operator <;> cases d.text? <;> first
    | exact .none
    | exact .some (Predicate.alike_cond (h.replace _ (.cons (hV.text _) .nil)))

lemma alike_emptyText (hV : Value.Congruence V) (h : c.Alike V d) :
    Option.Rel (Predicate.Alike (Condition.Alike V)) (emptyText c) (emptyText d) := by
  by_cases hempty : d.text? = some ""
  · have hparts (operator : Operator) : List.Forall₂ (Condition.Alike V)
        [c.replace operator [], c] [d.replace operator [], d] :=
      .cons (h.replace _ .nil) (.cons h .nil)
    unfold emptyText
    rw [h.kind, h.operator, h.text? hV, hempty]
    cases d.property.kind <;> cases d.operator <;> first
      | exact .none
      | exact .some (Predicate.alike_join _ (hparts _))
  · rw [emptyText_eq_none hempty, emptyText_eq_none (by rwa [h.text? hV])]
    exact .none

/-- **Rules respect likeness.** -/
lemma alike_of_mem {f : Rule} (hf : f ∈ all) (hV : Value.Congruence V) (h : c.Alike V d) :
    Option.Rel (Predicate.Alike (Condition.Alike V)) (f c) (f d) := by
  simp only [all, List.mem_cons, List.not_mem_nil, or_false] at hf
  rcases hf with rfl | rfl | rfl | rfl | rfl | rfl
  · exact alike_absence h
  · exact alike_nullComparison hV h
  · exact alike_nullInList hV h
  · exact alike_containsList hV h
  · exact alike_textContains hV h
  · exact alike_emptyText hV h

end Rule

/-! ### Conditions that rules repeat -/

/-- A comparison with the empty text. -/
structure Condition.Blank (c : Condition) : Prop where
  kind : c.property.kind = .text
  operator : c.operator = .eq ∨ c.operator = .ne
  text : c.text? = some ""

lemma Condition.Alike.blank {V : Value → Value → Prop} {c d : Condition} (hV : Value.Congruence V)
    (h : c.Alike V d) (hc : c.Blank) : d.Blank :=
  ⟨h.kind ▸ hc.kind, h.operator ▸ hc.operator, h.text? hV ▸ hc.text⟩

namespace Rule

variable {V : Value → Value → Prop} {c d e : Condition} {p : Predicate Condition} {n : Nat}
  {fs : List Rule}

lemma conditions_join_conds (j : Junction) (ds : List Condition) :
    (Predicate.join j (ds.map .cond)).conditions = ds := by
  simp [Predicate.conditions_join, List.flatMap_map]

lemma fresh_absence (h : absence c = some p) : ∀ e ∈ p.conditions, (e == c) = false := by
  unfold absence at h
  split at h <;> simp only [Option.some.injEq, reduceCtorEq] at h <;> subst h <;> rename_i hop _ <;>
    simpa using beq_eq_false_of_operator (by simp [Condition.replace, hop])

lemma fresh_nullComparison (h : nullComparison c = some p) :
    ∀ e ∈ p.conditions, (e == c) = false := by
  unfold nullComparison at h
  split at h <;> simp only [Option.some.injEq, reduceCtorEq] at h <;> subst h <;> rename_i hop _ <;>
    simpa using beq_eq_false_of_operator (by simp [Condition.replace, hop])

/-- The rest of a list is shorter than the list. -/
lemma fresh_nullInList (h : nullInList c = some p) : ∀ e ∈ p.conditions, (e == c) = false := by
  rw [nullInList_eq] at h
  split at h
  · rename_i hcond
    obtain ⟨hlist, hnull⟩ := Bool.and_eq_true_iff.mp hcond
    have hunary (operator : Operator) (hu : operator.isUnary = true) :
        (c.replace operator [] == c) = false := by
      refine beq_eq_false_of_operator fun hop => ?_
      have hbinary := not_isUnary_of_takesList hlist
      rw [← hop] at hbinary
      exact absurd (hu.symm.trans hbinary) (by decide)
    have hrest : (c.replace c.operator (c.operands.filter fun v => !v.isNull) == c) = false := by
      refine beq_eq_false_of_length (Nat.ne_of_lt ?_)
      obtain ⟨v, hv, hvnull⟩ := List.any_eq_true.mp hnull
      exact List.length_filter_lt_length_iff_exists.mpr ⟨v, hv, by simp [hvnull]⟩
    have hparts : ∃ j operator, p = .join j (((c.replace operator [] :: if
          (c.operands.filter fun v => !v.isNull).isEmpty then []
        else [c.replace c.operator (c.operands.filter fun v => !v.isNull)]).map .cond)) ∧
        operator.isUnary = true := by
      split at h
      · exact ⟨.and, .isNotNull, (Option.some.inj h).symm, rfl⟩
      · exact ⟨.or, .isNull, (Option.some.inj h).symm, rfl⟩
    obtain ⟨j, operator, rfl, hu⟩ := hparts
    rw [conditions_join_conds, List.forall_mem_cons]
    refine ⟨hunary operator hu, ?_⟩
    split
    · simp
    · simpa using hrest
  · cases h

/-- A part is a test for absence, or has one operand where the list has several. -/
lemma fresh_containsList (h : containsList c = some p) :
    ∀ e ∈ p.conditions, (e == c) = false := by
  obtain ⟨hjoin, hsingle⟩ := operands_of_containsList h
  have hparts : (∃ j, p = .join j ((c.operands.map (part c)).map .cond)) ∧
      (c.operator = .contains ∨ c.operator = .notContains) := by
    rcases hjoin with ⟨hop, rfl⟩ | ⟨hop, rfl⟩
    · exact ⟨⟨.or, rfl⟩, .inl hop⟩
    · exact ⟨⟨.and, rfl⟩, .inr hop⟩
  obtain ⟨⟨j, rfl⟩, hop⟩ := hparts
  rw [conditions_join_conds, List.forall_mem_map]
  intro v hv
  unfold part
  split
  · refine beq_eq_false_of_operator ?_
    rcases hop with hop | hop <;> simp [Condition.replace, hop]
  · rename_i hnull
    refine beq_eq_false_of_length fun hlength => ?_
    obtain ⟨w, hw⟩ := List.length_eq_one_iff.mp hlength.symm
    rw [hw, List.mem_singleton] at hv
    exact hnull (hv ▸ hsingle w hw)

lemma fresh_textContains (h : textContains c = some p) :
    ∀ e ∈ p.conditions, (e == c) = false := by
  unfold textContains at h
  split at h <;> simp only [Option.some.injEq, reduceCtorEq] at h <;> subst h <;> rename_i hop _ <;>
    simpa using beq_eq_false_of_operator (by simp [Condition.replace, hop])

/-- The empty text is compared with again, beside a test for absence. -/
lemma repeats_emptyText (h : emptyText c = some p) :
    c.Blank ∧ c ∈ p.conditions ∧ p.isCond = false ∧
      ∀ e ∈ p.conditions, (e == c) = true → e = c := by
  have hparts : c.Blank ∧ ∃ j operator, p = .join j ([c.replace operator [], c].map .cond) ∧
      operator ≠ c.operator := by
    unfold emptyText at h
    split at h <;> simp only [Option.some.injEq, reduceCtorEq] at h <;> subst h <;>
      rename_i hkind hop htext
    · exact ⟨⟨hkind, .inl hop, htext⟩, .or, .isNull, rfl, by simp [hop]⟩
    · exact ⟨⟨hkind, .inr hop, htext⟩, .and, .isNotNull, rfl, by simp [hop]⟩
  obtain ⟨hblank, j, operator, rfl, hop⟩ := hparts
  rw [conditions_join_conds, Predicate.isCond_join]
  refine ⟨hblank, by simp, rfl, fun e he hec => ?_⟩
  simp only [List.mem_cons, List.not_mem_nil, or_false] at he
  rcases he with rfl | rfl
  · rw [beq_eq_false_of_operator hop] at hec
    cases hec
  · rfl

end Rule

end EntityQuery
