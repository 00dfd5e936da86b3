import EntityQuery.Proofs.Preparation.Reached

/-!
# How deeply changes nest

A change is made inside the one that yielded its condition, so changes nest, and settling bounds how
deeply. Whatever the stages are, no more changes nest than the bound allows, and the bound is only
reported where as many do. A change that repeats its condition from the first stage on is a special
case: if the copy is not equal to the condition, it is taken for a new one, and nothing settles.
-/

namespace EntityQuery

/-! ### Replacing that fails -/

namespace Predicate

variable {C D E : Type} {f : C → Except E (Predicate D)} {p : Predicate C} {e : E}

lemma exists_of_mapAllM_eq_error {ps : List (Predicate C)} (h : mapAllM f ps = .error e) :
    ∃ before p after, ps = before ++ p :: after ∧ (∀ b ∈ before, ∃ q, b.mapM f = .ok q) ∧
      p.mapM f = .error e := by
  induction ps with
  | nil => simp [mapAllM] at h
  | cons p ps ih =>
    rw [mapAllM] at h
    cases hp : p.mapM f with
    | error e' =>
      simp only [hp, Except.error.injEq] at h
      exact ⟨[], p, ps, rfl, by simp, h ▸ hp⟩
    | ok q =>
      have hps : mapAllM f ps = .error e := by
        cases hps : mapAllM f ps <;> simp_all [Except.map]
      obtain ⟨before, p', after, rfl, hbefore, hp'⟩ := ih hps
      exact ⟨p :: before, p', after, rfl, by simpa using ⟨⟨q, hp⟩, hbefore⟩, hp'⟩

/-- Replacing fails as it does for one of the conditions, and all before it can be replaced. -/
theorem exists_of_mapM_eq_error (h : p.mapM f = .error e) :
    ∃ before c after, p.conditions = before ++ c :: after ∧ (∀ b ∈ before, ∃ a, f b = .ok a) ∧
      f c = .error e := by
  induction p using inductJunction with
  | cond c =>
    rw [mapM] at h
    exact ⟨[], c, [], by simp, by simp, h⟩
  | junction j ps ih =>
    have hps : mapAllM f ps = .error e := by
      cases j <;> simp only [junction, mapM] at h <;> cases hps : mapAllM f ps <;>
        simp_all [Except.map]
    obtain ⟨before, p, after, rfl, hbefore, hp⟩ := exists_of_mapAllM_eq_error hps
    obtain ⟨front, c, back, hconditions, hfront, hc⟩ := ih p (by simp) hp
    refine ⟨before.flatMap conditions ++ front, c, back ++ after.flatMap conditions, ?_, ?_, hc⟩
    · simp [conditions_junction, hconditions]
    · intro b hb
      rcases List.mem_append.mp hb with hb | hb
      · obtain ⟨q, hq, hb⟩ := List.mem_flatMap.mp hb
        exact exists_mapM_iff.mp (hbefore q hq) b hb
      · exact hfront b hb

end Predicate

namespace Stage

variable {stages : List Stage} {check : Condition → Except PrepareError Unit}
  {depth start n : Nat} {c d : Condition} {p : Predicate Condition} {q : PropertyPath}

/-! ### Changes inside changes -/

/-- The conditions that settling changes, each inside the change of the one before. What a change
yields is settled from left to right, so one is only changed after those before it have settled. -/
inductive Nests (stages : List Stage) (check : Condition → Except PrepareError Unit) :
    Nat → Nat → Condition → List Condition → Prop where
  | none {depth start : Nat} {c : Condition} : Nests stages check depth start c []
  | last {depth start n : Nat} {c : Condition} {p : Predicate Condition}
      (change : firstChange c start (stages.drop start) = .ok (some (n, p))) :
      Nests stages check (depth + 1) start c [c]
  | onward {depth start n : Nat} {c d : Condition} {p : Predicate Condition}
      {before after cs : List Condition}
      (change : firstChange c start (stages.drop start) = .ok (some (n, p)))
      (yields : p.conditions = before ++ d :: after)
      (settles : ∀ b ∈ before, Settles stages check depth (if b == c then n + 1 else 0) b)
      (rest : Nests stages check depth (if d == c then n + 1 else 0) d cs) :
      Nests stages check (depth + 1) start c (c :: cs)

/-- **No more changes nest than the bound allows.** -/
theorem Nests.length_le {cs : List Condition} (h : Nests stages check depth start c cs) :
    cs.length ≤ depth := by
  induction h with
  | none => exact Nat.zero_le _
  | last => simp
  | onward _ _ _ _ ih => simpa using ih

lemma settle_eq_error {e : PrepareError}
    (h : settle stages check (depth + 1) start c = .error e) :
    (firstChange c start (stages.drop start) = .error e ∨
      firstChange c start (stages.drop start) = .ok none ∧ check c = .error e) ∨
      ∃ n p, firstChange c start (stages.drop start) = .ok (some (n, p)) ∧
        p.mapM (fun d => settle stages check depth (if d == c then n + 1 else 0) d) = .error e := by
  rw [settle] at h
  split at h
  · rename_i herror
    exact .inl (.inl (herror.trans (congrArg _ (Except.error.inj h))))
  · rename_i hnone
    refine .inl (.inr ⟨hnone, ?_⟩)
    cases hcheck : check c <;> simp_all [Except.map]
  · rename_i n p hsome
    exact .inr ⟨n, p, hsome, h⟩

lemma exists_of_firstChange_eq_error {e : PrepareError} (h : firstChange c n stages = .error e) :
    ∃ stage ∈ stages, stage c = .error e := by
  induction stages generalizing n with
  | nil => cases h
  | cons stage stages ih =>
    rw [firstChange] at h
    split at h
    · rename_i e' he'
      cases h
      exact ⟨stage, by simp, he'⟩
    · obtain ⟨stage', hmem, hs⟩ := ih h
      exact ⟨stage', List.mem_cons_of_mem stage hmem, hs⟩
    · split at h
      · obtain ⟨stage', hmem, hs⟩ := ih h
        exact ⟨stage', List.mem_cons_of_mem stage hmem, hs⟩
      · cases h

/-- The stages for the conditions of a registry report what translators refuse. -/
lemma exists_of_mem_all_eq_error {r : Registry} {stage : Stage} {e : PrepareError}
    (mem : stage ∈ all r) (h : stage c = .error e) : ∃ refused, e = .translator refused := by
  rcases List.mem_append.mp mem with hrule | htranslator
  · obtain ⟨f, -, rfl⟩ := List.mem_map.mp hrule
    cases h
  · obtain rfl := List.mem_singleton.mp htranslator
    unfold translator at h
    split at h
    · split at h <;> cases h
      exact ⟨_, rfl⟩
    · cases h

/-- The check reports the operator or the operands of the condition. -/
lemma error_of_check {e : PrepareError} (h : c.check = .error e) :
    e = .invalidOperator c.property c.operator ∨ ∃ fault, e =
      .operand c.property.text (Value.list c.operands).literal c.property.type fault := by
  unfold Condition.check at h
  split at h
  · exact .inl (Except.error.inj h).symm
  · cases h
  · cases h
  · split at h
    · exact .inr ⟨_, (Except.error.inj h).symm⟩
    · split at h <;> cases h
      exact .inr ⟨_, rfl⟩
  · split at h
    · exact .inr ⟨_, (Except.error.inj h).symm⟩
    · split at h <;> cases h
      exact .inr ⟨_, rfl⟩
    · exact .inr ⟨_, (Except.error.inj h).symm⟩
    · cases h
    · exact .inr ⟨_, (Except.error.inj h).symm⟩

/-- Neither the stages nor the check report the bound themselves. -/
structure Silent (stages : List Stage) (check : Condition → Except PrepareError Unit) : Prop where
  stages : ∀ stage ∈ stages, ∀ c q, stage c ≠ .error (.unsettled q)
  check : ∀ c q, check c ≠ .error (.unsettled q)

/-- Where the bound is reported, it has been reached inside a change, or at the start. -/
lemma Silent.exists_of_unsettled (silent : Silent stages check)
    (h : settle stages check (depth + 1) start c = .error (.unsettled q)) :
    ∃ n p before d after, firstChange c start (stages.drop start) = .ok (some (n, p)) ∧
      p.conditions = before ++ d :: after ∧
      (∀ b ∈ before, Settles stages check depth (if b == c then n + 1 else 0) b) ∧
      settle stages check depth (if d == c then n + 1 else 0) d = .error (.unsettled q) := by
  rcases settle_eq_error h with (hstage | ⟨-, hcheck⟩) | ⟨n, p, hchange, hp⟩
  · obtain ⟨stage, hmem, hs⟩ := exists_of_firstChange_eq_error hstage
    exact absurd hs (silent.stages stage (List.mem_of_mem_drop hmem) c q)
  · exact absurd hcheck (silent.check c q)
  · obtain ⟨before, d, after, hyields, hbefore, hd⟩ := Predicate.exists_of_mapM_eq_error hp
    exact ⟨n, p, before, d, after, hchange, hyields, hbefore, hd⟩

/-- **The bound is reported only where it is reached**: as many changes nest as it allows. -/
theorem Silent.exists_nests_of_unsettled (silent : Silent stages check)
    (h : settle stages check depth start c = .error (.unsettled q)) :
    ∃ cs, Nests stages check depth start c cs ∧ cs.length = depth := by
  induction depth generalizing start c with
  | zero => exact ⟨[], .none, rfl⟩
  | succ depth ih =>
    obtain ⟨n, p, before, d, after, hchange, hyields, hbefore, hd⟩ := silent.exists_of_unsettled h
    obtain ⟨cs, hnests, hlength⟩ := ih hd
    exact ⟨c :: cs, .onward hchange hyields hbefore hnests, by simp [hlength]⟩

/-! ### Copies that are not recognized -/

/-- Changes lead from a condition to one that is repeated from the first stage on, and whose copy is
not equal to it. -/
inductive Recurs (stages : List Stage) : Nat → Condition → Prop where
  | here {n : Nat} {c : Condition} {p : Predicate Condition}
      (change : firstChange c 0 stages = .ok (some (n, p))) (copied : c ∈ p.conditions)
      (unequal : (c == c) = false) : Recurs stages 0 c
  | onward {start n : Nat} {c d : Condition} {p : Predicate Condition}
      (change : firstChange c start (stages.drop start) = .ok (some (n, p)))
      (yields : d ∈ p.conditions) (rest : Recurs stages (if d == c then n + 1 else 0) d) :
      Recurs stages start c

/-- What recurs never settles, however deeply changes may nest. -/
theorem Recurs.not_settles (h : Recurs stages start c) : ¬ Settles stages check depth start c := by
  induction h generalizing depth with
  | here change copied unequal =>
    intro hsettles
    cases unequal.symm.trans (hsettles.beq_self change copied)
  | onward change yields rest ih =>
    intro hsettles
    obtain ⟨depth, _, rfl, -⟩ := hsettles.exists_change
    exact ih ((settles_succ_of_some change).mp hsettles _ yields)

/-- The condition that recurs is not equal to itself. -/
lemma Recurs.exists_unequal {Inv : Condition → Prop}
    (keeps : ∀ stage ∈ stages, ∀ c p, Inv c → stage c = .ok (some p) → ∀ d ∈ p.conditions, Inv d)
    (h : Recurs stages start c) (hc : Inv c) : ∃ d, Inv d ∧ (d == d) = false := by
  induction h with
  | here change copied unequal => exact ⟨_, hc, unequal⟩
  | onward change yields rest ih =>
    obtain ⟨stage, hmem, hs, -⟩ := exists_of_firstChange change
    exact ih (keeps stage (List.mem_of_mem_drop hmem) _ _ hc hs _ yields)

end Stage

end EntityQuery
