import EntityQuery.Proofs.Criteria.Leaf
import EntityQuery.Proofs.Execution.Agreement

/-!
# What joins keep

A join of an association that must not be missing drops the rows where it is missing. Within a
sub-query, where the association may come after one that may be missing, such ends of a path are
lost. A condition then selects by the ends that are kept, and this is the first way in which it can
differ from what its expression says; the other one is `not contains` where there is no collection.
-/

namespace EntityQuery

namespace Instance

variable {ι : Type} [Instance ι] {o : Option ι}

/-- The ends of some associations that joins keep. -/
def keptEnds (o : Option ι) : List PathSegment → List (Option ι)
  | [] => [o]
  | hop :: rest =>
    if hop.indexed then
      (o.toList.flatMap fun i => related i hop.name).flatMap fun j => keptEnds (some j) rest
    else if hop.nullable || (next o hop.name).isSome then keptEnds (next o hop.name) rest
    else []

/-- Whether joins lose an end. -/
def losesEnd (o : Option ι) : List PathSegment → Bool
  | [] => false
  | hop :: rest =>
    if hop.indexed then
      (o.toList.flatMap fun i => related i hop.name).any fun j => losesEnd (some j) rest
    else if hop.nullable || (next o hop.name).isSome then losesEnd (next o hop.name) rest
    else !rest.any PathSegment.indexed

lemma keptEnds_append (hops rest : List PathSegment) :
    keptEnds o (hops ++ rest) = (keptEnds o hops).flatMap fun o' => keptEnds o' rest := by
  induction hops generalizing o with
  | nil => simp [keptEnds]
  | cons hop hops ih =>
    rw [List.cons_append, keptEnds, keptEnds]
    split
    · generalize o.toList.flatMap _ = js
      rw [List.flatMap_assoc]
      exact congrArg (js.flatMap ·) (funext fun j => ih)
    · split
      · exact ih
      · rfl

lemma keptEnds_subset (hops : List PathSegment) : keptEnds o hops ⊆ ends o hops := by
  induction hops generalizing o with
  | nil => exact List.Subset.refl _
  | cons hop rest ih =>
    rw [keptEnds, ends]
    split
    · intro o' ho'
      obtain ⟨j, hj, ho'⟩ := List.mem_flatMap.mp ho'
      exact List.mem_flatMap.mpr ⟨j, hj, ih ho'⟩
    · split
      · exact ih
      · exact List.nil_subset _

lemma keptEnds_of_not_indexed {hops : List PathSegment} (h : hops.any PathSegment.indexed = false) :
    keptEnds o hops = [] ∨ ∃ o', keptEnds o hops = [o'] := by
  induction hops generalizing o with
  | nil => exact .inr ⟨o, rfl⟩
  | cons hop rest ih =>
    rw [List.any_cons, Bool.or_eq_false_iff] at h
    rw [keptEnds, h.1, if_neg (by decide)]
    split
    · exact ih h.2
    · exact .inl rfl

lemma ends_none {hops : List PathSegment} :
    ends (none : Option ι) hops = if hops.any PathSegment.indexed then [] else [none] := by
  induction hops with
  | nil => rfl
  | cons hop rest ih =>
    rw [ends, List.any_cons]
    cases hop.indexed with
    | true => rfl
    | false =>
      rw [if_neg (by decide), Bool.false_or]
      exact ih

/-- An end of a path is kept, or it is missing and lost. -/
lemma any_ends (hops : List PathSegment) (f : Option ι → Bool) :
    (ends o hops).any f = ((keptEnds o hops).any f || (f none && losesEnd o hops)) := by
  induction hops generalizing o with
  | nil => simp [ends, keptEnds, losesEnd]
  | cons hop rest ih =>
    rw [ends, keptEnds, losesEnd]
    by_cases hi : hop.indexed = true
    · rw [if_pos hi, if_pos hi, if_pos hi]
      generalize o.toList.flatMap _ = js
      rw [List.any_flatMap, List.any_flatMap, Bool.eq_iff_iff]
      simp only [ih]
      simp only [List.any_eq_true, Bool.or_eq_true, Bool.and_eq_true, and_or_left, exists_or]
      refine or_congr_right ⟨?_, ?_⟩
      · rintro ⟨j, hj, hf, hlost⟩
        exact ⟨hf, j, hj, hlost⟩
      · rintro ⟨hf, j, hj, hlost⟩
        exact ⟨j, hj, hf, hlost⟩
    · rw [if_neg hi, if_neg hi, if_neg hi]
      by_cases hkept : (hop.nullable || (next o hop.name).isSome) = true
      · rw [if_pos hkept, if_pos hkept, ih]
      · rw [if_neg hkept, if_neg hkept]
        have hnone : next o hop.name = none := by
          simp only [Bool.or_eq_true, not_or, Bool.not_eq_true, Option.isSome_eq_false_iff,
            Option.isNone_iff_eq_none] at hkept
          exact hkept.2
        rw [hnone, ends_none]
        cases rest.any PathSegment.indexed <;> simp

end Instance

open Instance

variable {ι : Type} [Instance ι] {r : Registry} {entity : String}

namespace Condition

/-- Whether the matcher accepts the value of an end that joins keep. -/
def kept (i : ι) (c : Condition) : Bool :=
  match c.matcher with
  | .ok m => (keptEnds (some i) c.property.parents).any fun o =>
      m.accepts (read o c.property.leaf.name)
  | .error _ => false

/-- What the restriction of a condition selects. -/
def selected (i : ι) (c : Condition) : Bool :=
  match c.matcher with
  | .ok m => (keptEnds (some i) c.property.parents).any fun o =>
      m.selects (read o c.property.leaf.name)
  | .error _ => false

/-- An end that is missing would be found absent, but joins lose it. -/
def overlooksAbsence (i : ι) (c : Condition) : Bool :=
  (c.operator == .isNull || c.operator == .isEmpty) && losesEnd (some i) c.property.parents

/-- Something is said not to be contained where there is no collection. -/
def deniesNull (i : ι) (c : Condition) : Bool :=
  c.operator == .notContains && (keptEnds (some i) c.property.parents).any fun o =>
    (read o c.property.leaf.name).isNull

/-- The restriction of a condition selects a row against what the expression says about its
instance, or the other way round. -/
def diverges (i : ι) (c : Condition) : Bool :=
  !c.kept i && (c.overlooksAbsence i || c.deniesNull i)

variable {c : Condition}

lemma deniesNull_of {operator : Operator} {kind : PropertyKind} {s : Strategy}
    (h : Strategy.of? operator kind = some s) :
    (s == .containment true) = (operator == .notContains) := by
  cases operator <;> cases kind <;> simp [Strategy.of?] at h <;> subst h <;> decide

/-- A restriction selects what the expression says, except where it diverges. -/
theorem selected_eq (hc : c.Prepared r entity) (i : ι) :
    c.selected i = (c.stated i != c.diverges i) := by
  obtain ⟨m, b, hm, hs, -, hb, heval⟩ := exists_matcher (ι := ι) hc
  have habsence := Strategy.asksAbsence_of hs
  have hdenies := deniesNull_of hs
  have hnull := m.accepts_null
  rw [habsence] at hnull
  have hstated : c.stated i = (c.kept i || c.overlooksAbsence i) := by
    rw [stated, hb]
    simp only [heval]
    rw [ends, any_ends, kept, hm, overlooksAbsence, ← hnull]
    rfl
  have hselected : c.selected i = (c.kept i || c.deniesNull i) := by
    rw [selected, kept, deniesNull, hm, ← hdenies]
    simp only [Matcher.selects]
    generalize keptEnds (some i) c.property.parents = os
    induction os with
    | nil => simp
    | cons o os ih =>
      simp only [List.any_cons, ih]
      cases m.strategy == .containment true with
      | false => simp
      | true =>
        simp only [Bool.true_and]
        ac_rfl
  -- absence and the negation of containment are asked for by different operators
  have hapart : (c.overlooksAbsence i && c.deniesNull i) = false := by
    unfold overlooksAbsence deniesNull
    cases c.operator <;> simp
  rw [hselected, hstated, diverges]
  revert hapart
  cases c.kept i <;> cases c.overlooksAbsence i <;> cases c.deniesNull i <;> decide

end Condition

end EntityQuery
