import EntityQuery.Proofs.Preparation.Equal
import EntityQuery.Proofs.Preparation.Sided

/-!
# Settling again

The conditions that settling ends with may be settled again. They need not stay as they are: one
that went on behind the stage that repeated it is changed by this stage once more. But what remains
of them remained the first time already, and each of them is among what remains of itself. So a
condition holds exactly if what it was settled to, settled again, holds.
-/

namespace EntityQuery

variable {r : Registry}

namespace Stage

variable {c d e x : Condition} {p : Predicate Condition} {check : Condition → Except PrepareError Unit}
  {depth depth' start n k : Nat}

/-! ### What remains of what remains -/

/-- A change that repeats a condition repeats it as it is. -/
lemma eq_of_firstChange (h : firstChange c k ((all r).drop start) = .ok (some (n, p)))
    (hd : d ∈ p.conditions) (hdc : (d == c) = true) : d = c := by
  obtain ⟨stage, hmem, hs, hne⟩ := exists_of_firstChange h
  have hmem := List.mem_of_mem_drop hmem
  simp only [all, List.mem_append, List.mem_map, List.mem_singleton] at hmem
  rcases hmem with ⟨f, hf, rfl⟩ | rfl
  · obtain ⟨i, hi⟩ := List.mem_iff_getElem?.mp hf
    exact (Rule.eq_of_getElem? hi (Except.ok.inj hs) hd hdc).1
  · obtain ⟨declaration, t, hfound, ht, htranslate⟩ := translator_eq_some hs
    rcases Translator.of_mem_translate htranslate hd with
      ⟨rfl, rfl⟩ | ⟨names, rfl, name, hname, path, hpath, rfl⟩
    · -- a single condition that is repeated is no change
      exact absurd (hdc.symm.trans hne) (by decide)
    · have hexpands : c.Expands r ⟨path, c.operator, c.operands⟩ :=
        ⟨⟨declaration, names, name, hfound, ht, hname, hpath⟩, rfl, rfl⟩
      exact hexpands.eq_of_beq hdc

/-- **Stability**: what remains of a condition remains of itself, and whatever remains of it remains
of the condition. -/
theorem Reaches.closed (h : Reaches (all r) start c d)
    (whole : ∀ x, Reaches (all r) start c x → Reaches (all r) 0 c x) :
    Reaches (all r) 0 d d ∧ ∀ x, Reaches (all r) 0 d x → Reaches (all r) 0 c x := by
  induction h with
  | @stop start c h => exact ⟨whole c (.stop h), fun x hx => hx⟩
  | @onward start n c e d p h he rest ih =>
    have honward (x : Condition) (hx : Reaches (all r) (if e == c then n + 1 else 0) e x) :
        Reaches (all r) 0 c x := whole x (.onward h he hx)
    cases hec : e == c with
    | true =>
      -- the same condition goes on behind the stage
      obtain rfl := eq_of_firstChange h he hec
      exact ih honward
    | false =>
      rw [hec] at honward ih
      obtain ⟨hself, hback⟩ := ih fun x hx => hx
      exact ⟨hself, fun x hx => honward x (hback x hx)⟩

/-- What remains of a condition that settles settles. -/
lemma Reaches.settles (h : Reaches (all r) start c d) (hle : depth ≤ depth')
    (hc : Settles (all r) check depth start c) (whole : Settles (all r) check depth' 0 c) :
    Settles (all r) check depth' 0 d := by
  induction h generalizing depth with
  | stop => exact whole
  | @onward start n c e d p h he _ ih =>
    obtain ⟨depth, _, rfl, -⟩ := hc.exists_change
    have hrest := (settles_succ_of_some h).mp hc e he
    cases hec : e == c with
    | true =>
      obtain rfl := eq_of_firstChange h he hec
      exact ih (by omega) hrest whole
    | false =>
      rw [hec] at ih hrest
      exact ih (by omega) hrest (hrest.mono (by omega))

end Stage

/-! ### Settling equal conditions -/

namespace Registry

variable {c d e : Condition} {p q : Predicate Condition}

/-- Equal conditions settle alike: to conditions of which each equals one of the others. -/
lemma exists_settle_of_beq (hcd : (c == d) = true) (h : r.settle c = .ok p) :
    ∃ q, r.settle d = .ok q ∧ (∀ x ∈ p.conditions, ∃ y ∈ q.conditions, (x == y) = true) ∧
      ∀ y ∈ q.conditions, ∃ x ∈ p.conditions, (y == x) = true := by
  have hsettles : Stage.Settles (Stage.all r) Condition.check (maxRuleDepth + 1) 0 c := ⟨p, h⟩
  obtain ⟨q, hq⟩ := hsettles.of_beq hcd
  refine ⟨q, hq, fun x hx => ?_, fun y hy => ?_⟩
  · obtain ⟨y, hy, hxy⟩ := ((Stage.mem_settle_iff h).mp hx).exists_beq hcd
    exact ⟨y, (Stage.mem_settle_iff hq).mpr hy, hxy⟩
  · obtain ⟨x, hx, hyx⟩ := ((Stage.mem_settle_iff hq).mp hy).exists_beq (Condition.beq_symm hcd)
    exact ⟨x, (Stage.mem_settle_iff h).mpr hx, hyx⟩

/-- What a condition was settled to settles again: to itself and to nothing new. -/
lemma exists_settle_again (h : r.settle c = .ok p) (hd : d ∈ p.conditions) :
    ∃ q, r.settle d = .ok q ∧ d ∈ q.conditions ∧ q.conditions ⊆ p.conditions := by
  have hreach := (Stage.mem_settle_iff h).mp hd
  have hsettles : Stage.Settles (Stage.all r) Condition.check (maxRuleDepth + 1) 0 c := ⟨p, h⟩
  obtain ⟨q, hq⟩ := hreach.settles (le_refl _) hsettles hsettles
  obtain ⟨hself, hback⟩ := hreach.closed fun _ hx => hx
  refine ⟨q, hq, (Stage.mem_settle_iff hq).mpr hself, fun x hx => ?_⟩
  exact (Stage.mem_settle_iff h).mpr (hback x ((Stage.mem_settle_iff hq).mp hx))

/-- Conditions that equal those a condition was settled to settle on its side: to one that equals
the condition they were, and to such as equal those that remained. -/
lemma exists_again (h : r.settle c = .ok p) (hd : d ∈ p.conditions) (hed : (e == d) = true)
    (hq : r.settle e = .ok q) : q.Only c.operator.side ∧
      (∃ x ∈ q.conditions, (x == d) = true) ∧
      ∀ x ∈ q.conditions, ∃ y ∈ p.conditions, (x == y) = true := by
  obtain ⟨s, hs, hself, hsub⟩ := exists_settle_again h hd
  obtain ⟨s', hs', hforth, hback⟩ := exists_settle_of_beq hed hq
  obtain rfl := Except.ok.inj (hs.symm.trans hs')
  obtain ⟨-, halike⟩ := Condition.beq_eq_true_iff.mp hed
  refine ⟨?_, ?_, fun x hx => ?_⟩
  · rw [← (sides_of_settle h).side d hd, ← halike.operator]
    exact (sides_of_settle hq).only
  · obtain ⟨x, hx, hdx⟩ := hback d hself
    exact ⟨x, hx, Condition.beq_symm hdx⟩
  · obtain ⟨y, hy, hxy⟩ := hforth x hx
    exact ⟨y, hsub hy, hxy⟩

/-- **Settling again keeps the truth**, whatever the test, as long as it takes equal conditions
alike. -/
theorem holds_again {again : Condition → Predicate Condition} {test : Condition → Bool}
    (h : r.settle c = .ok p)
    (settles : ∀ d ∈ p.conditions, ∃ e, (e == d) = true ∧ r.settle e = .ok (again d))
    (htest : ∀ d ∈ p.conditions, ∀ x ∈ (again d).conditions, ∀ y ∈ p.conditions,
      (x == y) = true → test x = test y) :
    p.holds (fun d => (again d).holds test) = p.holds test := by
  have hwhole := (sides_of_settle h).only
  have hagain : ∀ d ∈ p.conditions, (again d).Only c.operator.side ∧
      (∃ x ∈ (again d).conditions, (x == d) = true) ∧
      ∀ x ∈ (again d).conditions, ∃ y ∈ p.conditions, (x == y) = true := by
    intro d hd
    obtain ⟨e, hed, hq⟩ := settles d hd
    exact exists_again h hd hed hq
  have hparts : p.holds test = if c.operator.side = .and
      then p.conditions.all (fun d => (again d).holds test)
      else p.conditions.any fun d => (again d).holds test := by
    refine hwhole.holds_eq_of_parts (fun d hd => (hagain d hd).1) (fun d hd => ?_)
      fun d hd x hx => ?_
    · obtain ⟨-, ⟨x, hx, hxd⟩, -⟩ := hagain d hd
      exact ⟨d, hd, x, hx, htest d hd x hx d hd hxd⟩
    · obtain ⟨-, -, hback⟩ := hagain d hd
      obtain ⟨y, hy, hxy⟩ := hback x hx
      exact ⟨y, hy, htest d hd x hx y hy hxy⟩
  rw [hwhole.holds_eq, hparts]

end Registry

end EntityQuery
