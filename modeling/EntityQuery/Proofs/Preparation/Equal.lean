import EntityQuery.Proofs.Execution.Decided
import EntityQuery.Proofs.Preparation.Expanded
import EntityQuery.Proofs.Preparation.Literals

/-!
# Equal conditions

Values are equal up to the sign of zero, and nothing tells equal values apart: they are equal to the
same values, and they stand in the same order to others. So conditions that are equal are changed by
the same stages to equal conditions, and instances satisfy both or neither.
-/

namespace EntityQuery

variable {r : Registry}

/-! ### Equal values -/

namespace Double

lemma place?_eq {a b : Double} (h : (a == b) = true) : a.place? = b.place? := by
  obtain ⟨x, ha, hb⟩ := beq_iff.mp h
  rw [ha, hb]

lemma compare?_congr {a b : Double} (h : (a == b) = true) (x : Double) :
    a.compare? x = b.compare? x ∧ x.compare? a = x.compare? b := by
  unfold compare?
  rw [place?_eq h]
  exact ⟨rfl, rfl⟩

lemma beq_congr {a b : Double} (h : (a == b) = true) (x : Double) :
    (a == x) = (b == x) ∧ (x == a) = (x == b) := by
  obtain ⟨hleft, hright⟩ := compare?_congr h x
  exact ⟨congrArg (· == some Ordering.eq) hleft, congrArg (· == some Ordering.eq) hright⟩

end Double

namespace Value

/-- Equal values are the same, apart from the numbers, ids and items in them. -/
inductive Matches : Value → Value → Prop where
  | same (v : Value) : Matches v v
  | float {a b : Double} (h : (a == b) = true) : Matches (float a) (float b)
  | ref (entity : String) {a b : Value} (h : a.beq b = true) : Matches (ref entity a) (ref entity b)
  | list {vs ws : List Value} (h : beqAll vs ws = true) : Matches (list vs) (list ws)

lemma matches_of_beq {v w : Value} (h : v.beq w = true) : Matches v w := by
  cases v with
  | float a =>
    cases w with
    | float b => exact .float h
    | _ => cases h
  | ref e a =>
    cases w with
    | ref f b =>
      obtain ⟨hentity, hid⟩ := Bool.and_eq_true_iff.mp h
      obtain rfl : e = f := beq_iff_eq.mp hentity
      exact .ref e hid
    | _ => cases h
  | list vs =>
    cases w with
    | list ws => exact .list h
    | _ => cases h
  | _ =>
    cases w <;> first
      | exact .same _
      | (obtain rfl := beq_iff_eq.mp h; exact .same _)
      | cases h

mutual

/-- Equal values are equal to the same values. -/
lemma beq_congr (v w : Value) (h : v.beq w = true) (x : Value) :
    v.beq x = w.beq x ∧ x.beq v = x.beq w := by
  cases matches_of_beq h with
  | same => exact ⟨rfl, rfl⟩
  | float h =>
    cases x with
    | float c => exact Double.beq_congr h c
    | _ => exact ⟨rfl, rfl⟩
  | @ref entity a b hid =>
    cases x with
    | ref g c =>
      obtain ⟨hleft, hright⟩ := beq_congr a b hid c
      exact ⟨congrArg (entity == g && ·) hleft, congrArg (g == entity && ·) hright⟩
    | _ => exact ⟨rfl, rfl⟩
  | @list vs ws hitems =>
    cases x with
    | list xs => exact beqAll_congr vs ws hitems xs
    | _ => exact ⟨rfl, rfl⟩

/-- Lists of equal values are equal to the same lists. -/
lemma beqAll_congr (vs ws : List Value) (h : beqAll vs ws = true) (xs : List Value) :
    beqAll vs xs = beqAll ws xs ∧ beqAll xs vs = beqAll xs ws := by
  cases vs with
  | nil =>
    cases ws with
    | nil => exact ⟨rfl, rfl⟩
    | cons w ws => cases h
  | cons v vs =>
    cases ws with
    | nil => cases h
    | cons w ws =>
      obtain ⟨hfirst, hrest⟩ := Bool.and_eq_true_iff.mp h
      cases xs with
      | nil => exact ⟨rfl, rfl⟩
      | cons x xs =>
        obtain ⟨hleft, hright⟩ := beq_congr v w hfirst x
        obtain ⟨hlefts, hrights⟩ := beqAll_congr vs ws hrest xs
        rw [beqAll, beqAll, beqAll, beqAll, hleft, hright, hlefts, hrights]
        exact ⟨rfl, rfl⟩

end

variable {v w : Value}

lemma congruence_beq : Congruence fun v w => (v == w) = true where
  text s := beq_self_eq_true s
  isNull h := by cases matches_of_beq h <;> rfl
  text? h := by cases matches_of_beq h <;> rfl
  beq {v v' w w'} hv hw := (beq_congr v v' hv w).1.trans (beq_congr w w' hw v').2

lemma beq_symm (h : (v == w) = true) : (w == v) = true :=
  -- `v` is equal to itself, as it is to `w`
  (beq_congr v w h v).1.symm.trans ((beq_congr v w h v).2.trans h)

lemma beqAll_eq_true_iff {vs ws : List Value} :
    beqAll vs ws = true ↔ List.Forall₂ (fun v w => (v == w) = true) vs ws := by
  induction vs generalizing ws with
  | nil => cases ws <;> simp [beqAll]
  | cons v vs ih =>
    cases ws with
    | nil => simp [beqAll]
    | cons w ws =>
      rw [beqAll, Bool.and_eq_true, ih, List.forall₂_cons]
      rfl

/-- No value is the same as one of two equal values only, or stands in another order to it. -/
lemma sameAs_and_compare?_congr (h : (v == w) = true) (x : Value) :
    x.sameAs v = x.sameAs w ∧ x.compare? v = x.compare? w := by
  have hidentity : v.identity.beq w.identity = true := identity_beq h
  have href := identity_ne_ref v
  unfold sameAs compare?
  generalize v.identity = a at hidentity href
  generalize w.identity = b at hidentity
  generalize x.identity = y
  cases matches_of_beq hidentity with
  | same => exact ⟨rfl, rfl⟩
  | float h =>
    cases y with
    | int i => exact ⟨(Double.beq_congr h _).2, (Double.compare?_congr h _).2⟩
    | float f => exact ⟨(Double.beq_congr h f).2, (Double.compare?_congr h f).2⟩
    | _ => exact ⟨rfl, rfl⟩
  | ref entity => exact absurd rfl (href entity _)
  | @list vs ws h =>
    cases y with
    | list xs => exact ⟨(beqAll_congr vs ws h xs).2, rfl⟩
    | _ => exact ⟨rfl, rfl⟩

end Value

/-! ### Equal conditions -/

namespace Condition

variable {c d e f : Condition}

lemma beq_eq_true_iff : (c == d) = true ↔
    c.property = d.property ∧ c.Alike (fun v w => (v == w) = true) d := by
  have hbeq : (c == d) = true ↔ (c.property = d.property ∧ c.operator = d.operator) ∧
      Value.beqAll c.operands d.operands = true := by
    change c.beq d = true ↔ _
    simp [beq]
  rw [hbeq, Value.beqAll_eq_true_iff]
  constructor
  · rintro ⟨⟨hproperty, hoperator⟩, hoperands⟩
    exact ⟨hproperty, by rw [hproperty], hoperator, hoperands⟩
  · rintro ⟨hproperty, -, hoperator, hoperands⟩
    exact ⟨⟨hproperty, hoperator⟩, hoperands⟩

/-- Equal conditions recur as equal conditions. -/
lemma beq_congr (hcd : (c == d) = true) (hef : (e == f) = true) : (e == c) = (f == d) := by
  obtain ⟨hproperty, hcd⟩ := beq_eq_true_iff.mp hcd
  obtain ⟨hproperty', hef⟩ := beq_eq_true_iff.mp hef
  have hoperands := Alike.beqAll Value.congruence_beq hef.operands hcd.operands
  simp [BEq.beq, beq, hproperty, hproperty', hcd.operator, hef.operator, hoperands]

lemma beq_symm (h : (c == d) = true) : (d == c) = true := by
  obtain ⟨hproperty, halike⟩ := beq_eq_true_iff.mp h
  exact beq_eq_true_iff.mpr ⟨hproperty.symm, halike.kind.symm, halike.operator.symm,
    halike.operands.flip.imp fun _ _ => Value.beq_symm⟩

end Condition

/-! ### Stages -/

namespace Stage

variable {c d x : Condition} {p q : Predicate Condition} {stages : List Stage}
  {depth start n : Nat}

/-- A stage makes equal conditions of equal ones. -/
def Respects (stage : Stage) : Prop :=
  ∀ {c d : Condition}, (c == d) = true → ∀ result, stage c = .ok result →
    ∃ result', stage d = .ok result' ∧
      Option.Rel (Predicate.Alike fun e f : Condition => (e == f) = true) result result'

lemma respects_ofRule {f : Rule} (hf : f ∈ Rule.all) : Respects (ofRule f) := by
  intro c d hcd result h
  obtain rfl := Except.ok.inj h
  obtain ⟨hproperty, halike⟩ := Condition.beq_eq_true_iff.mp hcd
  have hequal (e g : Condition) (hmatch : Condition.Matches _ c d e g) : (e == g) = true :=
    Condition.beq_eq_true_iff.mpr
      ⟨hmatch.source.trans (hproperty.trans hmatch.target.symm), hmatch.alike⟩
  refine ⟨f d, rfl, ?_⟩
  have hrel := Rule.matches_of_mem hf Value.congruence_beq halike
  generalize f c = before, f d = after at hrel ⊢
  cases hrel with
  | none => exact .none
  | some hrel => exact .some ⟨hrel.conditions.imp hequal, hrel.single⟩

end Stage

namespace Translator

variable {c d : Condition}

lemma disregardCase_beq (h : (c == d) = true) : (disregardCase c == disregardCase d) = true := by
  obtain ⟨hproperty, halike⟩ := Condition.beq_eq_true_iff.mp h
  have htext := halike.text? Value.congruence_beq
  have hreplace (operator : Operator) {vs ws : List Value}
      (hvs : List.Forall₂ (fun v w => (v == w) = true) vs ws) :
      (c.replace operator vs == d.replace operator ws) = true :=
    Condition.beq_eq_true_iff.mpr ⟨hproperty, halike.replace operator hvs⟩
  unfold disregardCase
  rw [htext, halike.operator]
  cases d.operator <;> cases d.text? <;> first
    | exact h
    | exact hreplace _ (.cons (Value.congruence_beq.text _) .nil)
    | exact hreplace _ halike.operands

lemma exists_siblingConditions {names : List String} {ps : List (Predicate Condition)}
    (h : (c == d) = true) (hps : siblingConditions r c names = .ok ps) :
    ∃ es fs : List Condition, ps = es.map .cond ∧
      siblingConditions r d names = .ok (fs.map .cond) ∧
      List.Forall₂ (fun e f => (e == f) = true) es fs := by
  obtain ⟨hproperty, halike⟩ := Condition.beq_eq_true_iff.mp h
  induction names generalizing ps with
  | nil =>
    rw [siblingConditions] at hps
    obtain rfl := Except.ok.inj hps
    exact ⟨[], [], rfl, rfl, .nil⟩
  | cons name names ih =>
    rw [siblingConditions] at hps
    split at hps
    · cases hps
    · rename_i path hpath
      obtain ⟨rest, hrest, rfl⟩ := exists_of_map_eq_ok hps
      obtain ⟨es, fs, rfl, hfs, hbeq⟩ := ih hrest
      refine ⟨⟨path, c.operator, c.operands⟩ :: es, ⟨path, d.operator, d.operands⟩ :: fs, rfl, ?_,
        .cons ?_ hbeq⟩
      · rw [siblingConditions, Condition.sibling_congr hproperty.symm, hpath, hfs]
        rfl
      · exact Condition.beq_eq_true_iff.mpr ⟨rfl, rfl, halike.operator, halike.operands⟩

/-- A translator makes equal conditions of equal ones. -/
lemma exists_translate {t : Translator} {p : Predicate Condition} (h : (c == d) = true)
    (hp : t.translate r c = .ok p) :
    ∃ q, t.translate r d = .ok q ∧ Predicate.Alike (fun e f => (e == f) = true) p q := by
  obtain ⟨-, halike⟩ := Condition.beq_eq_true_iff.mp h
  cases t with
  | ignoreCase =>
    obtain rfl := Except.ok.inj hp
    exact ⟨_, rfl, Predicate.alike_cond (disregardCase_beq h)⟩
  | expand names =>
    cases names with
    | nil => cases hp
    | cons name names =>
      rw [translate] at hp ⊢
      · split at hp
        · cases hp
        · rename_i ps hps
          obtain ⟨es, fs, rfl, hfs, hbeq⟩ := exists_siblingConditions h hps
          obtain rfl := Except.ok.inj hp
          simp only [hfs, halike.operator]
          split
          · exact ⟨_, rfl, Predicate.alike_join .and hbeq⟩
          · exact ⟨_, rfl, Predicate.alike_join .or hbeq⟩
      all_goals simp

end Translator

namespace Stage

variable {c d x : Condition} {p q : Predicate Condition} {stages : List Stage}
  {depth start n : Nat}

lemma respects_translator : Respects (translator r) := by
  intro c d hcd result h
  obtain ⟨hproperty, -⟩ := Condition.beq_eq_true_iff.mp hcd
  unfold translator at h ⊢
  rw [← hproperty]
  generalize (r.entity? c.property.leaf.owner).bind
    (fun e => e.property? c.property.leaf.name) = found at h ⊢
  rcases found with _ | ⟨name, type, nullable, _ | t⟩
  · obtain rfl := Except.ok.inj h
    exact ⟨none, rfl, .none⟩
  · obtain rfl := Except.ok.inj h
    exact ⟨none, rfl, .none⟩
  · cases hp : t.translate r c with
    | error e => simp [hp] at h
    | ok p =>
      obtain rfl : some p = result := by simpa [hp] using h
      obtain ⟨q, hq, halike⟩ := Translator.exists_translate hcd hp
      exact ⟨some q, by simp [hq], .some halike⟩

lemma respects_of_mem_all {stage : Stage} (hs : stage ∈ all r) : Respects stage := by
  simp only [all, List.mem_append, List.mem_map, List.mem_singleton] at hs
  rcases hs with ⟨f, hf, rfl⟩ | rfl
  · exact respects_ofRule hf
  · exact respects_translator

/-- **The first change** of equal conditions makes equal conditions of them. -/
theorem exists_firstChange_of_beq (hcd : (c == d) = true)
    {change : Option (Nat × Predicate Condition)}
    (h : firstChange c n ((all r).drop start) = .ok change) :
    ∃ change', firstChange d n ((all r).drop start) = .ok change' ∧
      Option.Rel (fun x y => x.1 = y.1 ∧
        List.Forall₂ (fun e f => (e == f) = true) x.2.conditions y.2.conditions) change change' :=
  exists_firstChange (fun _ _ hef => Condition.beq_congr hcd hef)
    (fun _ hs => respects_of_mem_all (List.mem_of_mem_drop hs) hcd) h

/-! ### Settling -/

/-- A condition that equals one that passes the check passes it as well. -/
lemma check_of_beq (h : (c == d) = true) (hc : c.check = .ok ()) : d.check = .ok () := by
  obtain ⟨hproperty, halike⟩ := Condition.beq_eq_true_iff.mp h
  have hoperands := halike.operands
  obtain ⟨s, hs⟩ := Condition.exists_strategy_of_check hc
  have hd : Strategy.of? d.operator d.property.kind = some s := by
    rw [← halike.operator, ← hproperty, hs]
  have hsingle (hcount : s.operandCount? = some 1) : ∃ v w, c.operands = [v] ∧
      d.operands = [w] ∧ (v == w) = true ∧ w.isNull = false := by
    obtain ⟨v, hv, hnull⟩ := Condition.single_of_check hs hcount hc
    rw [hv] at hoperands
    cases hws : d.operands with
    | nil => simp [hws] at hoperands
    | cons w ws =>
      rw [hws, List.forall₂_cons, List.forall₂_nil_left_iff] at hoperands
      obtain ⟨hvw, rfl⟩ := hoperands
      exact ⟨v, w, hv, rfl, hvw, (Value.congruence_beq.isNull hvw).symm.trans hnull⟩
  cases s with
  | nullness | emptiness => simp [Condition.check, hd]
  | membership n =>
    have hempty : c.operands.isEmpty = d.operands.isEmpty := by
      rw [Bool.eq_iff_iff, List.isEmpty_iff_length_eq_zero, List.isEmpty_iff_length_eq_zero,
        hoperands.length_eq]
    have hnull : c.operands.any Value.isNull = d.operands.any Value.isNull :=
      any_eq_of_forall₂ hoperands fun _ _ => Value.congruence_beq.isNull
    unfold Condition.check at hc ⊢
    simp only [hs, hd, hempty, hnull] at hc ⊢
    split at hc
    · cases hc
    · split at hc
      · cases hc
      · simp_all
  | pattern i n =>
    obtain ⟨v, w, hv, hw, hvw, -⟩ := hsingle rfl
    obtain ⟨t, rfl, ht⟩ := Condition.pattern_of_check hv hs hc
    cases w with
    | text t' =>
      obtain rfl : t = t' := beq_iff_eq.mp hvw
      simp [Condition.check, hd, hw, ht]
    | _ => cases hvw
  | equality | ordering | containment =>
    obtain ⟨v, w, -, hw, -, hnull⟩ := hsingle rfl
    cases w with
    | null => cases hnull
    | _ => simp [Condition.check, hd, hw]

/-- What remains of a condition remains of an equal one, up to equality. -/
lemma Reaches.exists_beq (hcd : (c == d) = true) (h : Reaches (all r) start c x) :
    ∃ y, Reaches (all r) start d y ∧ (x == y) = true := by
  induction h generalizing d with
  | @stop start c h =>
    obtain ⟨change', hd, hrel⟩ := exists_firstChange_of_beq hcd h
    cases hrel
    exact ⟨d, .stop hd, hcd⟩
  | @onward start n c e _ p h he _ ih =>
    obtain ⟨change', hd, hrel⟩ := exists_firstChange_of_beq hcd h
    cases hrel with
    | @some _ change hrel =>
      obtain ⟨n', q⟩ := change
      obtain ⟨rfl, hconditions⟩ := hrel
      obtain ⟨f, hf, hef⟩ := exists_of_mem_forall₂ hconditions.flip he
      obtain ⟨y, hy, hxy⟩ := ih hef
      rw [Condition.beq_congr hcd hef] at hy
      exact ⟨y, .onward hd hf hy, hxy⟩

/-- A condition that equals one that settles settles as well. -/
lemma Settles.of_beq (hcd : (c == d) = true)
    (h : Settles (all r) Condition.check depth start c) :
    Settles (all r) Condition.check depth start d := by
  induction depth generalizing start c d with
  | zero =>
    obtain ⟨_, _, hdepth, -⟩ := h.exists_change
    cases hdepth
  | succ depth ih =>
    obtain ⟨_, change, -, hc⟩ := h.exists_change
    obtain ⟨change', hd, hrel⟩ := exists_firstChange_of_beq hcd hc
    cases hrel with
    | none =>
      rw [settles_succ_of_none hc] at h
      rw [settles_succ_of_none hd]
      exact check_of_beq hcd h
    | @some change change' hrel =>
      obtain ⟨n, p⟩ := change
      obtain ⟨n', q⟩ := change'
      obtain ⟨rfl, hconditions⟩ := hrel
      rw [settles_succ_of_some hc] at h
      rw [settles_succ_of_some hd]
      intro f hf
      obtain ⟨e, he, hef⟩ := exists_of_mem_forall₂ hconditions hf
      rw [← Condition.beq_congr hcd hef]
      exact ih hef (h e he)

end Stage

/-! ### Matchers -/

/-- The matchers that a strategy makes of equal operands accept the same values. -/
lemma Matcher.accepts_congr {s : Strategy} {vs ws : List Value} {m m' : Matcher}
    (htakes : s.Takes vs) (h : List.Forall₂ (fun v w => (v == w) = true) vs ws)
    (hm : make s vs = .ok m) (hm' : make s ws = .ok m') (x : Value) :
    m.accepts x = m'.accepts x := by
  have hsame (heq : vs = ws) : m.accepts x = m'.accepts x := by
    rw [Except.ok.inj (hm.symm.trans (heq ▸ hm'))]
  have hsingle {v : Value} (hv : vs = [v]) : ∃ w, ws = [w] ∧ (v == w) = true := by
    rw [hv, List.forall₂_cons_left_iff] at h
    obtain ⟨w, ws', hvw, hnil, rfl⟩ := h
    obtain rfl := List.forall₂_nil_left_iff.mp hnil
    exact ⟨w, rfl, hvw⟩
  cases htakes with
  | nullness => exact hsame (List.forall₂_nil_left_iff.mp h).symm
  | emptiness => exact hsame (List.forall₂_nil_left_iff.mp h).symm
  | pattern =>
    obtain ⟨w, rfl, hvw⟩ := hsingle rfl
    cases Value.matches_of_beq hvw with
    | same => exact hsame rfl
  | membership =>
    obtain rfl := Except.ok.inj hm
    obtain rfl := Except.ok.inj hm'
    have hany : vs.any (x.sameAs ·) = ws.any (x.sameAs ·) :=
      any_eq_of_forall₂ h fun _ _ hvw => (Value.sameAs_and_compare?_congr hvw x).1
    simp only [accepts, hany]
  | equality =>
    obtain ⟨w, rfl, hvw⟩ := hsingle rfl
    obtain rfl := Except.ok.inj hm
    obtain rfl := Except.ok.inj hm'
    simp only [accepts, operand, List.headD_cons, (Value.sameAs_and_compare?_congr hvw x).1]
  | ordering =>
    obtain ⟨w, rfl, hvw⟩ := hsingle rfl
    obtain rfl := Except.ok.inj hm
    obtain rfl := Except.ok.inj hm'
    simp only [accepts, operand, List.headD_cons, (Value.sameAs_and_compare?_congr hvw x).2]
  | containment =>
    obtain ⟨w, rfl, hvw⟩ := hsingle rfl
    obtain rfl := Except.ok.inj hm
    obtain rfl := Except.ok.inj hm'
    have helement (y : Value) := (Value.sameAs_and_compare?_congr hvw y).1
    simp only [accepts, operand, List.headD_cons, helement]

/-- Instances satisfy equal prepared conditions alike, whichever way they are tested. -/
theorem Condition.found_and_stated_congr {ι : Type} [Instance ι] {c d : Condition}
    {entity : String} (hcd : (c == d) = true) (hc : c.Prepared r entity)
    (hd : d.Prepared r entity) (i : ι) : c.found i = d.found i ∧ c.stated i = d.stated i := by
  obtain ⟨hproperty, halike⟩ := beq_eq_true_iff.mp hcd
  obtain ⟨m, b, hm, hs, hoperands, hb, -, hevaluate⟩ := exists_test hc
  obtain ⟨m', b', hm', hs', hoperands', hb', -, hevaluate'⟩ := exists_test hd
  have hstrategy : m.strategy = m'.strategy := by
    rw [← halike.operator, ← hproperty, hs] at hs'
    exact Option.some.inj hs'
  have haccepts : m.accepts = m'.accepts := by
    refine funext fun x => Matcher.accepts_congr (takes_of_check hs hc.unary hc.checked)
      halike.operands ?_ ?_ x
    · simpa [matcher, Strategy.require, hs] using hm
    · simpa [matcher, Strategy.require, hs', ← hstrategy] using hm'
  refine ⟨?_, ?_⟩
  · rw [found_eq hm, found_eq hm', haccepts, hproperty]
  · simp only [stated, hb, hb', hevaluate, hevaluate', haccepts, ends, hproperty]

end EntityQuery
