import EntityQuery.Proofs.Preparation.Alike
import EntityQuery.Proofs.Preparation.Typed

/-!
# Prepared queries are flat

A junction without children cannot be written, and a list without elements would become one. The
lists of a query that was read have elements, and no rule leaves a condition without an operand that
its operator takes. So preparing a text yields a flat predicate.
-/

namespace EntityQuery

variable {r : Registry} {context : QueryContext} {entity : String}

namespace Predicate

variable {C D E : Type} {good : C → Prop} {good' : D → Prop} {f : C → Except E (Predicate D)}
  {p : Predicate C} {q : Predicate D}

/-- Replacing the conditions of a flat predicate by flat ones yields a flat one. -/
theorem flat_mapM (flat : p.Flat good) (h : p.mapM f = .ok q)
    (hf : ∀ c, good c → ∀ a, f c = .ok a → a.Flat good') : q.Flat good' := by
  have hjunction : ∀ {j : Junction} {ps : List (Predicate C)} {qs : List (Predicate D)},
      2 ≤ ps.length → mapAllM f ps = .ok qs →
      (∀ p ∈ ps, ∀ q, p.mapM f = .ok q → q.Flat good') → (join j qs).Flat good' := by
    intro j ps qs many hqs ih
    refine flat_join ?_ fun q hq => ?_
    · rintro rfl
      obtain ⟨p, ps, rfl⟩ := List.exists_cons_of_ne_nil (ne_nil_of_many many)
      obtain ⟨_, _, -, -, hnil⟩ := mapAllM_cons_eq_ok.mp hqs
      cases hnil
    · obtain ⟨p, hp, hpq⟩ := exists_of_mem_mapAllM hqs hq
      exact ih p hp q hpq
  induction flat generalizing q with
  | cond hc =>
    rw [mapM] at h
    exact hf _ hc q h
  | and many _ _ ih =>
    obtain ⟨qs, hqs, rfl⟩ := mapM_and_eq_ok.mp h
    exact hjunction many hqs fun p hp q hpq => ih p hp hpq
  | or many _ _ ih =>
    obtain ⟨qs, hqs, rfl⟩ := mapM_or_eq_ok.mp h
    exact hjunction many hqs fun p hp q hpq => ih p hp hpq

end Predicate

/-! ### Rules -/

/-- A condition has an operand if its operator takes one. -/
def Condition.Supplied (c : Condition) : Prop :=
  c.operator.isUnary = false → c.operands ≠ []

namespace Rule

variable {c : Condition} {p : Predicate Condition}

lemma flat_conds {j : Junction} (ds : List Condition) (hne : ds ≠ [])
    (h : ∀ d ∈ ds, d.Supplied) : (Predicate.join j (ds.map .cond)).Flat Condition.Supplied :=
  Predicate.flat_join (by simpa using hne) (List.forall_mem_map.mpr fun d hd => .cond (h d hd))

lemma supplied_unary (c : Condition) {operator : Operator} (h : operator.isUnary = true) :
    (c.replace operator []).Supplied :=
  fun hbinary => absurd (h.symm.trans hbinary) (by decide)

lemma supplied_replace (c : Condition) (operator : Operator) {vs : List Value} (h : vs ≠ []) :
    (c.replace operator vs).Supplied :=
  fun _ => h

lemma supplied_part (c : Condition) (v : Value) : (part c v).Supplied := by
  unfold part
  split
  · split <;> exact supplied_unary c rfl
  · exact supplied_replace c _ (by simp)

lemma flat_absence (h : absence c = some p) : p.Flat Condition.Supplied := by
  unfold absence at h
  split at h <;> simp only [Option.some.injEq, reduceCtorEq] at h <;> subst h <;>
    exact .cond (supplied_unary c rfl)

lemma flat_nullComparison (h : nullComparison c = some p) : p.Flat Condition.Supplied := by
  unfold nullComparison at h
  split at h <;> simp only [Option.some.injEq, reduceCtorEq] at h <;> subst h <;>
    exact .cond (supplied_unary c rfl)

/-- The rest of a list stands beside the test for absence only if it has elements. -/
lemma flat_nullInList (h : nullInList c = some p) : p.Flat Condition.Supplied := by
  rw [nullInList_eq] at h
  split at h
  · have hrest : ∀ d ∈ (if (c.operands.filter fun v => !v.isNull).isEmpty then []
        else [c.replace c.operator (c.operands.filter fun v => !v.isNull)]), d.Supplied := by
      split
      · simp
      · rename_i hfilled
        exact List.forall_mem_singleton.mpr
          (supplied_replace c _ fun hnil => hfilled (List.isEmpty_iff.mpr hnil))
    split at h <;> rw [← Option.some.inj h] <;>
      exact flat_conds _ (List.cons_ne_nil _ _)
        (List.forall_mem_cons.mpr ⟨supplied_unary c rfl, hrest⟩)
  · cases h

lemma flat_containsList (hc : c.Supplied) (h : containsList c = some p) :
    p.Flat Condition.Supplied := by
  obtain ⟨⟨hop, rfl⟩ | ⟨hop, rfl⟩, -⟩ := operands_of_containsList h
  all_goals
    refine flat_conds _ ?_ (List.forall_mem_map.mpr fun v _ => supplied_part c v)
    simpa using hc (by rw [hop]; rfl)

lemma flat_textContains (h : textContains c = some p) : p.Flat Condition.Supplied := by
  unfold textContains at h
  split at h <;> simp only [Option.some.injEq, reduceCtorEq] at h <;> subst h <;>
    exact .cond (supplied_replace c _ (List.cons_ne_nil _ _))

lemma flat_emptyText (hc : c.Supplied) (h : emptyText c = some p) :
    p.Flat Condition.Supplied := by
  unfold emptyText at h
  split at h <;> simp only [Option.some.injEq, reduceCtorEq] at h <;> subst h
  · exact flat_conds [c.replace .isNull [], c] (by simp)
      (by simpa using ⟨supplied_unary c rfl, hc⟩)
  · exact flat_conds [c.replace .isNotNull [], c] (by simp)
      (by simpa using ⟨supplied_unary c rfl, hc⟩)

/-- No rule leaves a condition without operands that it takes, or a junction without children. -/
lemma flat_of_mem {f : Rule} (hf : f ∈ all) (hc : c.Supplied) (h : f c = some p) :
    p.Flat Condition.Supplied := by
  simp only [all, List.mem_cons, List.not_mem_nil, or_false] at hf
  rcases hf with rfl | rfl | rfl | rfl | rfl | rfl
  · exact flat_absence h
  · exact flat_nullComparison h
  · exact flat_nullInList h
  · exact flat_containsList hc h
  · exact flat_textContains h
  · exact flat_emptyText hc h

end Rule

/-! ### Settling -/

namespace Translator

variable {c : Condition} {p : Predicate Condition}

lemma supplied_disregardCase (hc : c.Supplied) : (disregardCase c).Supplied := by
  unfold disregardCase
  split
  case h_5 => exact hc
  case h_1 | h_2 => exact Rule.supplied_replace c _ (List.cons_ne_nil _ _)
  all_goals
    rename_i hop _
    exact Rule.supplied_replace c _ (hc (by rw [hop]; rfl))

lemma flat_of_translate {t : Translator} (hc : c.Supplied) (h : t.translate r c = .ok p) :
    p.Flat Condition.Supplied := by
  unfold translate at h
  split at h
  · exact Except.ok.inj h ▸ .cond (supplied_disregardCase hc)
  · cases h
  · rename_i names hne
    split at h
    · cases h
    · rename_i ps hps
      have hflat : ∀ q ∈ ps, q.Flat Condition.Supplied := by
        intro q hq
        obtain ⟨name, -, path, -, rfl⟩ := exists_of_mem_siblingConditions hps q hq
        exact .cond hc
      have hfilled : ps ≠ [] := by
        obtain ⟨name, names, rfl⟩ := List.exists_cons_of_ne_nil hne
        rw [siblingConditions] at hps
        split at hps
        · cases hps
        · obtain ⟨_, -, rfl⟩ := exists_of_map_eq_ok hps
          exact List.cons_ne_nil _ _
      rw [← Except.ok.inj h]
      split <;> exact Predicate.flat_join hfilled hflat

end Translator

namespace Stage

variable {c : Condition} {p q : Predicate Condition}

lemma flat_of_mem_all {stage : Stage} (hs : stage ∈ all r) (hc : c.Supplied)
    (h : stage c = .ok (some p)) : p.Flat Condition.Supplied := by
  simp only [all, List.mem_append, List.mem_map, List.mem_singleton] at hs
  rcases hs with ⟨f, hf, rfl⟩ | rfl
  · exact Rule.flat_of_mem hf hc (Except.ok.inj h)
  · obtain ⟨-, t, -, -, htranslate⟩ := translator_eq_some h
    exact Translator.flat_of_translate hc htranslate

/-- A condition that has its operands is settled to a flat predicate. -/
theorem flat_of_settle {depth start : Nat} (hc : c.Supplied)
    (h : settle (all r) Condition.check depth start c = .ok q) :
    q.Flat Condition.Supplied := by
  induction depth generalizing start c q with
  | zero => simp [settle] at h
  | succ depth ih =>
    rcases settle_eq_ok h with ⟨-, -, rfl⟩ | ⟨n, p, hchange, hp⟩
    · exact .cond hc
    · obtain ⟨stage, hmem, hs, -⟩ := exists_of_firstChange hchange
      exact Predicate.flat_mapM (flat_of_mem_all (List.mem_of_mem_drop hmem) hc hs) hp
        fun d hd a ha => ih hd ha

end Stage

/-! ### Prepared text -/

/-- The lists of a condition that was read have elements. -/
lemma Grammar.Condition.ne_nil {ts : Tokens} {c : RawCondition} (h : Grammar.Condition ts c) :
    ∀ os, c.operand? = some (.list os) → os ≠ [] := by
  obtain ⟨-, -, operand⟩ := h
  intro os hos
  cases operand with
  | nothing => cases hos
  | single _ _ literal =>
    obtain rfl := Option.some.inj hos
    cases literal
  | alone =>
    obtain rfl := Operand.list.inj (Option.some.inj hos)
    exact List.cons_ne_nil _ _
  | list _ literals =>
    obtain rfl := Operand.list.inj (Option.some.inj hos)
    cases literals <;> exact List.cons_ne_nil _ _

namespace Registry

lemma ne_nil_of_coerceAll {property : String} {type : PropertyType} {os : List Operand}
    {vs : List Value} (hne : os ≠ []) (h : r.coerceAll context property type os = .ok vs) :
    vs ≠ [] := by
  obtain ⟨o, os, rfl⟩ := List.exists_cons_of_ne_nil hne
  obtain ⟨_, _, -, -, rfl⟩ := coerceAll_cons_eq_ok.mp h
  exact List.cons_ne_nil _ _

lemma ne_nil_of_operandsOf {path : PropertyPath} {c : RawCondition} {vs : List Value}
    (hlist : ∀ os, c.operand? = some (.list os) → os ≠ []) (binary : c.operator.isUnary = false)
    (h : r.operandsOf context path c = .ok vs) : vs ≠ [] := by
  unfold operandsOf at h
  simp only [binary] at h
  split at h
  · rename_i heq
    cases heq
  · rename_i heq
    cases heq
  · cases h
  · rename_i os hos _
    split at h
    · exact ne_nil_of_coerceAll (hlist os hos) h
    · cases h
  · obtain ⟨_, -, rfl⟩ := exists_of_map_eq_ok h
    exact List.cons_ne_nil _ _

end Registry

/-- **Prepared text** is a flat predicate. -/
theorem Registry.flat_of_prepareText {text : String} {p : PreparedQuery}
    (h : r.prepareText context entity text = .ok p) :
    ∀ t ∈ p.predicate, t.Flat Condition.Supplied := by
  intro t ht
  obtain ⟨q, hparse, hprepare⟩ := prepareText_eq_ok.mp h
  obtain ⟨hflat, hphrases⟩ := RawQuery.flat_and_phrases_of_parse hparse
  obtain ⟨e, -, -, ⟨-, hnone⟩ | ⟨raw, t', hraw, ht', hmap⟩⟩ := RawQuery.exists_of_prepare hprepare
  · rw [hnone] at ht
    cases ht
  · obtain rfl := Option.some.inj (ht'.symm.trans ht)
    have hconditions : raw.Flat fun b => b ∈ q.conditions :=
      (hflat raw hraw).imp fun b hb _ => by simpa [RawQuery.conditions, hraw] using hb
    refine Predicate.flat_mapM hconditions hmap fun b hb a ha => ?_
    obtain ⟨path, vs, -, hvs, hsettle⟩ := exists_of_prepareCondition ha
    obtain ⟨phrase, hphrase⟩ := hphrases b hb
    exact Stage.flat_of_settle (fun hbinary => ne_nil_of_operandsOf hphrase.ne_nil hbinary hvs)
      hsettle

end EntityQuery
