import EntityQuery.Proofs.Preparation.Alike

/-!
# The first change of a condition

The rules never fail, so the first change is the one of the first rule that makes any, and otherwise
the one of the property's translator. Conditions that are alike are changed by the same rule, to
conditions that are alike. A condition goes on behind the rules only if it compares with the empty
text.
-/

namespace EntityQuery

variable {r : Registry}

/-! ### The change of a rule -/

namespace Rule

variable {V : Value → Value → Prop} {c d e : Condition} {p : Predicate Condition} {k n : Nat}
  {fs : List Rule}

/-- The first rule that changes a condition, by its number, and what it makes of it. The rules given
are those from number `n` on. -/
def change (c : Condition) (n : Nat) : List Rule → Option (Nat × Predicate Condition)
  | [] => none
  | f :: fs =>
    match f c with
    | none => change c (n + 1) fs
    | some p => if p == .cond c then change c (n + 1) fs else some (n, p)

lemma firstChange_ofRule (c : Condition) (n : Nat) (fs : List Rule) :
    Stage.firstChange c n (fs.map Stage.ofRule) = .ok (change c n fs) := by
  induction fs generalizing n with
  | nil => rfl
  | cons f fs ih =>
    rw [List.map_cons, Stage.firstChange, change, Stage.ofRule]
    cases f c with
    | none => exact ih (n + 1)
    | some p =>
      cases hp : p == .cond c with
      | true => simpa [hp] using ih (n + 1)
      | false => simp [hp]

lemma exists_of_change (h : change c n fs = some (k, p)) :
    ∃ i f, fs[i]? = some f ∧ k = n + i ∧ f c = some p := by
  induction fs generalizing n with
  | nil => cases h
  | cons f fs ih =>
    have hlater : change c (n + 1) fs = some (k, p) →
        ∃ i g, (f :: fs)[i]? = some g ∧ k = n + i ∧ g c = some p := by
      intro h
      obtain ⟨i, g, hg, rfl, hp⟩ := ih h
      exact ⟨i + 1, g, hg, by omega, hp⟩
    rw [change] at h
    cases hf : f c with
    | none =>
      rw [hf] at h
      exact hlater h
    | some q =>
      simp only [hf] at h
      split at h
      · exact hlater h
      · cases h
        exact ⟨0, f, rfl, rfl, hf⟩

lemma property_of_change (h : change c 0 all = some (n, p)) (he : e ∈ p.conditions) :
    e.property = c.property := by
  obtain ⟨i, f, hf, -, hp⟩ := exists_of_change h
  exact (follows_of_mem (List.mem_of_getElem? hf) hp he).property

/-- Only a comparison with the empty text is repeated by a rule, which is the last one. -/
lemma eq_of_getElem? {i : Nat} {f : Rule} (hf : all[i]? = some f) (hp : f c = some p)
    (he : e ∈ p.conditions) (hec : (e == c) = true) : e = c ∧ c.Blank ∧ i = 5 := by
  have hfresh (hall : ∀ e ∈ p.conditions, (e == c) = false) : e = c ∧ c.Blank ∧ i = 5 :=
    absurd ((hall e he).symm.trans hec) (by decide)
  match i, hf with
  | 0, hf => cases hf; exact hfresh (fresh_absence hp)
  | 1, hf => cases hf; exact hfresh (fresh_nullComparison hp)
  | 2, hf => cases hf; exact hfresh (fresh_nullInList hp)
  | 3, hf => cases hf; exact hfresh (fresh_containsList hp)
  | 4, hf => cases hf; exact hfresh (fresh_textContains hp)
  | 5, hf =>
    cases hf
    obtain ⟨hblank, -, -, hself⟩ := repeats_emptyText hp
    exact ⟨hself e he hec, hblank, rfl⟩
  | _ + 6, hf => cases hf

lemma eq_of_change (h : change c 0 all = some (n, p)) (he : e ∈ p.conditions)
    (hec : (e == c) = true) : e = c ∧ c.Blank ∧ n = 5 := by
  obtain ⟨i, f, hf, rfl, hp⟩ := exists_of_change h
  obtain ⟨heq, hblank, rfl⟩ := eq_of_getElem? hf hp he hec
  exact ⟨heq, hblank, rfl⟩

/-- The rules before the last one have nothing to say about a comparison with the empty text. -/
lemma change_of_blank (h : c.Blank) : ∃ p, change c 0 all = some (5, p) ∧ c ∈ p.conditions := by
  obtain ⟨v, vs, hvs⟩ : ∃ v vs, c.operands = v :: vs := by
    have htext := h.text
    unfold Condition.text? at htext
    cases hc : c.operands with
    | nil => simp [hc] at htext
    | cons v vs => exact ⟨v, vs, rfl⟩
  have hv : v = .text "" := by
    have htext := h.text
    rw [Condition.text?, hvs] at htext
    cases v <;> simp_all [Value.text?]
  have habsence : absence c = none := by
    unfold absence
    rw [h.kind]
    rcases h.operator with hop | hop <;> rw [hop]
  have hnull : nullComparison c = none := nullComparison_eq_none (by simp [hvs, hv])
  have hlist : nullInList c = none := by
    unfold nullInList
    rcases h.operator with hop | hop <;> simp [hop, Operator.takesList]
  have hcontains : containsList c = none := by
    rw [containsList_eq]
    rcases h.operator with hop | hop <;> rw [hop] <;> cases c.hasSingle <;> rfl
  have htextContains : textContains c = none := by
    unfold textContains
    rw [h.kind]
    rcases h.operator with hop | hop <;> rw [hop]
  have hempty : ∃ p, emptyText c = some p := by
    unfold emptyText
    rw [h.kind, h.text]
    rcases h.operator with hop | hop <;> rw [hop] <;> exact ⟨_, rfl⟩
  obtain ⟨p, hp⟩ := hempty
  obtain ⟨-, hmem, hcond, -⟩ := repeats_emptyText hp
  have hne : (p == .cond c) = false := by rw [Predicate.beq_cond_eq, hcond, Bool.false_and]
  exact ⟨p, by simp [change, all, habsence, hnull, hlist, hcontains, htextContains, hp, hne], hmem⟩

end Rule

/-! ### Alike changes -/

/-- What conditions that are alike are changed to: conditions that are alike, each on the property
that it stems from, where the one repeats its condition if the other does. -/
structure Condition.Matches (V : Value → Value → Prop) (c d e f : Condition) : Prop where
  alike : e.Alike V f
  source : e.property = c.property
  target : f.property = d.property
  repeats : (e == c) = (f == d)

lemma exists_of_mem_forall₂ {α β : Type} {R : α → β → Prop} {xs : List α} {ys : List β}
    (h : List.Forall₂ R xs ys) {y : β} (hy : y ∈ ys) : ∃ x ∈ xs, R x y := by
  induction h with
  | nil => simp at hy
  | @cons x y' _ _ hxy _ ih =>
    rcases List.mem_cons.mp hy with rfl | hy
    · exact ⟨x, by simp, hxy⟩
    · obtain ⟨x', hx', h'⟩ := ih hy
      exact ⟨x', by simp [hx'], h'⟩

lemma any_eq_of_forall₂ {α β : Type} {R : α → β → Prop} {f : α → Bool} {g : β → Bool}
    {xs : List α} {ys : List β} (h : List.Forall₂ R xs ys) (hfg : ∀ x y, R x y → f x = g y) :
    xs.any f = ys.any g := by
  induction h with
  | nil => rfl
  | cons hxy _ ih => rw [List.any_cons, List.any_cons, hfg _ _ hxy, ih]

lemma all_eq_of_forall₂ {α β : Type} {R : α → β → Prop} {f : α → Bool} {g : β → Bool}
    {xs : List α} {ys : List β} (h : List.Forall₂ R xs ys) (hfg : ∀ x y, R x y → f x = g y) :
    xs.all f = ys.all g := by
  induction h with
  | nil => rfl
  | cons hxy _ ih => rw [List.all_cons, List.all_cons, hfg _ _ hxy, ih]

/-- Stages that relate what they make of two conditions relate the first change of these, if related
conditions repeat the two alike. -/
theorem Stage.exists_firstChange {R : Condition → Condition → Prop} {c d : Condition}
    {stages : List Stage} {n : Nat} {change : Option (Nat × Predicate Condition)}
    (repeats : ∀ e f, R e f → (e == c) = (f == d))
    (relates : ∀ stage ∈ stages, ∀ result, stage c = .ok result →
      ∃ result', stage d = .ok result' ∧ Option.Rel (Predicate.Alike R) result result')
    (h : firstChange c n stages = .ok change) :
    ∃ change', firstChange d n stages = .ok change' ∧ Option.Rel (fun x y => x.1 = y.1 ∧
      List.Forall₂ R x.2.conditions y.2.conditions) change change' := by
  induction stages generalizing n with
  | nil =>
    obtain rfl := Except.ok.inj h
    exact ⟨none, rfl, .none⟩
  | cons stage stages ih =>
    rw [List.forall_mem_cons] at relates
    rw [firstChange] at h ⊢
    cases hc : stage c with
    | error e => simp [hc] at h
    | ok result =>
      obtain ⟨result', hd, hrel⟩ := relates.1 result hc
      rw [hc] at h
      rw [hd]
      cases hrel with
      | none => exact ih relates.2 h
      | @some p q halike =>
        have hsame : (p == .cond c) = (q == .cond d) := by
          rw [Predicate.beq_cond_eq, Predicate.beq_cond_eq, halike.single,
            all_eq_of_forall₂ halike.conditions repeats]
        simp only [hsame] at h ⊢
        cases hq : q == .cond d with
        | true =>
          simp only [hq, if_true] at h ⊢
          exact ih relates.2 h
        | false =>
          simp only [hq, Bool.false_eq_true, if_false] at h ⊢
          obtain rfl := Except.ok.inj h
          exact ⟨some (n, q), rfl, .some ⟨rfl, halike.conditions⟩⟩

namespace Rule

variable {V : Value → Value → Prop} {c d : Condition} {n : Nat} {fs : List Rule}

lemma matches_of_alike (hV : Value.Congruence V) (h : c.Alike V d) {es gs : List Condition}
    (hes : List.Forall₂ (Condition.Alike V) es gs) (hc : ∀ e ∈ es, e.property = c.property)
    (hd : ∀ g ∈ gs, g.property = d.property) : List.Forall₂ (Condition.Matches V c d) es gs := by
  induction hes with
  | nil => exact .nil
  | cons heg _ ih =>
    rw [List.forall_mem_cons] at hc hd
    exact .cons ⟨heg, hc.1, hd.1, h.beq hV heg hc.1 hd.1⟩ (ih hc.2 hd.2)

/-- A rule makes matching conditions of conditions that are alike. -/
lemma matches_of_mem {f : Rule} (hf : f ∈ all) (hV : Value.Congruence V) (h : c.Alike V d) :
    Option.Rel (Predicate.Alike (Condition.Matches V c d)) (f c) (f d) := by
  have hrel := alike_of_mem hf hV h
  cases hc : f c with
  | none =>
    rw [hc] at hrel
    cases hd : f d with
    | none => exact .none
    | some q => simp [hd] at hrel
  | some p =>
    rw [hc] at hrel
    cases hd : f d with
    | none => simp [hd] at hrel
    | some q =>
      rw [hd] at hrel
      obtain ⟨hconditions, hsingle⟩ : Predicate.Alike (Condition.Alike V) p q := by
        simpa using hrel
      exact .some ⟨matches_of_alike hV h hconditions
        (fun e he => (follows_of_mem hf hc he).property)
        (fun g hg => (follows_of_mem hf hd hg).property), hsingle⟩

/-- **The first change respects likeness.** -/
theorem change_alike (hfs : fs ⊆ all) (hV : Value.Congruence V) (h : c.Alike V d) (n : Nat) :
    Option.Rel (fun x y => x.1 = y.1 ∧
        List.Forall₂ (Condition.Matches V c d) x.2.conditions y.2.conditions)
      (change c n fs) (change d n fs) := by
  have hrelates : ∀ stage ∈ fs.map Stage.ofRule, ∀ result, stage c = .ok result →
      ∃ result', stage d = .ok result' ∧
        Option.Rel (Predicate.Alike (Condition.Matches V c d)) result result' := by
    intro stage hstage result hresult
    obtain ⟨f, hf, rfl⟩ := List.mem_map.mp hstage
    obtain rfl := Except.ok.inj hresult
    exact ⟨f d, rfl, matches_of_mem (hfs hf) hV h⟩
  obtain ⟨change', hd, hrel⟩ := Stage.exists_firstChange
    (fun _ _ hmatch => hmatch.repeats) hrelates (firstChange_ofRule c n fs)
  rw [firstChange_ofRule] at hd
  obtain rfl := Except.ok.inj hd
  exact hrel

end Rule

/-! ### The first change of all stages -/

namespace Stage

variable {c d e : Condition} {p : Predicate Condition}
  {change : Option (Nat × Predicate Condition)}

lemma firstChange_append (c : Condition) (n : Nat) (front back : List Stage) :
    firstChange c n (front ++ back) =
      match firstChange c n front with
      | .ok none => firstChange c (n + front.length) back
      | result => result := by
  induction front generalizing n with
  | nil => rfl
  | cons stage front ih =>
    have hnumber : n + 1 + front.length = n + (stage :: front).length := by
      rw [List.length_cons]
      omega
    rw [List.cons_append, firstChange, firstChange, ih, hnumber]
    cases stage c with
    | error e => rfl
    | ok result =>
      cases result with
      | none => rfl
      | some p => cases hp : p == .cond c <;> simp [hp]

/-- A rule makes the first change, or the translator does. -/
lemma firstChange_all (c : Condition) : firstChange c 0 (all r) =
    match Rule.change c 0 Rule.all with
    | some change => .ok (some change)
    | none => firstChange c 6 [translator r] := by
  rw [all, firstChange_append, Rule.firstChange_ofRule]
  cases Rule.change c 0 Rule.all <;> rfl

end Stage

end EntityQuery
