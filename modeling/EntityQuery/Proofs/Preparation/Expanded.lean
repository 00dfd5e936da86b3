import EntityQuery.Proofs.Preparation.Behind
import EntityQuery.Proofs.Preparation.Changed
import EntityQuery.Proofs.Preparation.Combined

/-!
# Properties that stand for others

A condition on a property that is expanded into others is prepared to the combination of what the
same condition on each of the others is prepared to. The rules change the condition before it is
expanded, and its parts once more on the others; both times they do the same, since all these
properties have one type. What remains of the condition is therefore what remains of its expansion.
-/

namespace EntityQuery

variable {r : Registry} {names : List String}

/-! ### Expansion by a translator -/

/-- The property of a condition is expanded into properties of its kind. -/
structure Condition.Virtual (r : Registry) (names : List String) (c : Condition) : Prop where
  declared : ∃ p, r.property? c.property.leaf.owner c.property.leaf.name = some p ∧
    p.translator? = some (.expand names)
  kind : ∀ name ∈ names, ∀ path, r.sibling c name = .ok path → path.kind = c.property.kind

namespace Condition

variable {c d e f : Condition}

lemma sibling_congr (h : e.property = c.property) (name : String) :
    r.sibling e name = r.sibling c name := by
  rw [Registry.sibling, Registry.sibling, h]

lemma Virtual.of_property (hc : c.Virtual r names) (h : e.property = c.property) :
    e.Virtual r names := by
  obtain ⟨declared, kind⟩ := hc
  exact ⟨h ▸ declared, fun name hname path hpath =>
    h ▸ kind name hname path (sibling_congr h name ▸ hpath)⟩

/-- A condition on a property that is declared to stand for others expands to the same condition on
each of these. -/
lemma expands_iff_of_declared (declared : ∃ p,
    r.property? c.property.leaf.owner c.property.leaf.name = some p ∧
      p.translator? = some (.expand names)) :
    c.Expands r d ↔ ∃ name ∈ names, ∃ path, r.sibling c name = .ok path ∧
      d = ⟨path, c.operator, c.operands⟩ := by
  obtain ⟨p, hp, ht⟩ := declared
  constructor
  · rintro ⟨⟨p', names', name, hp', ht', hname, hpath⟩, hop, hoperands⟩
    obtain rfl := Option.some.inj (hp.symm.trans hp')
    obtain rfl : names = names' := by simpa using ht.symm.trans ht'
    obtain ⟨property, operator, operands⟩ := d
    obtain rfl : operator = c.operator := hop
    obtain rfl : operands = c.operands := hoperands
    exact ⟨name, hname, property, hpath, rfl⟩
  · rintro ⟨name, hname, path, hpath, rfl⟩
    exact ⟨⟨p, names, name, hp, ht, hname, hpath⟩, rfl, rfl⟩

lemma Virtual.expands_iff (hc : c.Virtual r names) :
    c.Expands r d ↔ ∃ name ∈ names, ∃ path, r.sibling c name = .ok path ∧
      d = ⟨path, c.operator, c.operands⟩ :=
  expands_iff_of_declared hc.declared

lemma Virtual.alike (hc : c.Virtual r names) (hd : c.Expands r d) : c.Alike Eq d := by
  obtain ⟨name, hname, path, hpath, rfl⟩ := hc.expands_iff.mp hd
  exact ⟨(hc.kind name hname path hpath).symm, rfl, List.forall₂_eq_eq_eq ▸ rfl⟩

lemma Expands.eq_of_beq (hd : c.Expands r d) (h : (d == c) = true) : d = c := by
  have hproperty : d.property = c.property := by
    have hbeq : Condition.beq d c = true := h
    simp only [Condition.beq, Bool.and_eq_true, beq_iff_eq] at hbeq
    exact hbeq.1.1
  obtain ⟨property, operator, operands⟩ := d
  obtain rfl : property = c.property := hproperty
  obtain rfl : operator = c.operator := hd.operator
  obtain rfl : operands = c.operands := hd.operands
  rfl

/-- What a rule makes of a condition and of one in its expansion expands likewise. -/
lemma Virtual.expands_of_matches (hc : c.Virtual r names) (hd : c.Expands r d)
    (h : Matches Eq c d e f) : e.Expands r f := by
  obtain ⟨name, hname, path, hpath, rfl⟩ := hc.expands_iff.mp hd
  refine (hc.of_property h.source).expands_iff.mpr
    ⟨name, hname, path, (sibling_congr h.source name).trans hpath, ?_⟩
  obtain ⟨property, operator, operands⟩ := f
  obtain rfl : property = path := h.target
  obtain rfl : e.operator = operator := h.alike.operator
  obtain rfl : e.operands = operands := List.forall₂_eq_eq_eq ▸ h.alike.operands
  rfl

/-- The condition itself is on every property that a condition on its property expands to. -/
lemma Virtual.exists_expands (hc : c.Virtual r names) (he : e.property = c.property)
    (hf : e.Expands r f) : ∃ d, c.Expands r d ∧ f.property = d.property := by
  obtain ⟨name, hname, path, hpath, rfl⟩ := (hc.of_property he).expands_iff.mp hf
  exact ⟨⟨path, c.operator, c.operands⟩, hc.expands_iff.mpr
    ⟨name, hname, path, (sibling_congr he name).symm.trans hpath, rfl⟩, rfl⟩

lemma Expands.eq_of_property (hd : c.Expands r d) (he : c.Expands r e)
    (h : d.property = e.property) : d = e := by
  obtain ⟨property, operator, operands⟩ := d
  obtain ⟨property', operator', operands'⟩ := e
  obtain rfl : property = property' := h
  obtain rfl : operator = operator' := hd.operator.trans he.operator.symm
  obtain rfl : operands = operands' := hd.operands.trans he.operands.symm
  rfl

end Condition

lemma Value.congruence_eq : Value.Congruence Eq where
  text _ := rfl
  isNull h := by rw [h]
  text? h := by rw [h]
  beq h h' := by rw [h, h']

lemma Translator.exists_of_siblingConditions {c : Condition} {ps : List (Predicate Condition)}
    (h : siblingConditions r c names = .ok ps) {d : Condition} :
    d ∈ ps.flatMap Predicate.conditions ↔ ∃ name ∈ names, ∃ path, r.sibling c name = .ok path ∧
      d = ⟨path, c.operator, c.operands⟩ := by
  induction names generalizing ps with
  | nil =>
    rw [siblingConditions] at h
    cases h
    simp
  | cons name names ih =>
    rw [siblingConditions] at h
    cases hpath : r.sibling c name with
    | error e => simp [hpath] at h
    | ok path =>
      simp only [hpath] at h
      obtain ⟨rest, hrest, rfl⟩ := exists_of_map_eq_ok h
      simp [ih hrest, hpath]

namespace Stage

variable {c d e x : Condition} {depth start : Nat} {check : Condition → Except PrepareError Unit}

/-- The translator of a property that stands for others makes the expansion of a condition. -/
lemma translator_of_declared (declared : ∃ p,
    r.property? c.property.leaf.owner c.property.leaf.name = some p ∧
      p.translator? = some (.expand names)) {result : Option (Predicate Condition)}
    (h : translator r c = .ok result) : ∃ p, result = some p ∧
      ∀ d, d ∈ p.conditions ↔ c.Expands r d := by
  obtain ⟨declaration, hp, ht⟩ := declared
  have hiff := fun d => Condition.expands_iff_of_declared (d := d) ⟨declaration, hp, ht⟩
  obtain ⟨name, type, nullable, translator?⟩ := declaration
  obtain rfl : translator? = some (.expand names) := ht
  rw [Registry.property?] at hp
  simp only [translator, hp] at h
  cases htranslate : Translator.translate r c (.expand names) with
  | error e => simp [htranslate] at h
  | ok p =>
    rw [htranslate] at h
    obtain rfl := Except.ok.inj h
    refine ⟨p, rfl, fun d => ?_⟩
    unfold Translator.translate at htranslate
    split at htranslate
    · rename_i heq
      cases heq
    · cases htranslate
    · rename_i names' _ heq
      obtain rfl : names = names' := by simpa using heq
      cases hps : Translator.siblingConditions r c names with
      | error e => simp [hps] at htranslate
      | ok ps =>
        simp only [hps, Except.ok.injEq] at htranslate
        rw [hiff, ← Translator.exists_of_siblingConditions hps, ← htranslate]
        split <;> simp

/-- Behind the rules a condition is changed to its expansion, unless it is its own and only one. -/
lemma change_of_declared (declared : ∃ p,
    r.property? c.property.leaf.owner c.property.leaf.name = some p ∧
      p.translator? = some (.expand names)) {change : Option (Nat × Predicate Condition)}
    (h : firstChange c 6 [translator r] = .ok change) :
    (change = none ∧ c.Expands r c ∧ (c == c) = true ∧ ∀ d, c.Expands r d → d = c) ∨
      ∃ p, change = some (6, p) ∧ ∀ d, d ∈ p.conditions ↔ c.Expands r d := by
  rcases firstChange_cons h with ⟨p, hp, -, rfl⟩ | ⟨hleaves, hrest⟩
  · obtain ⟨_, hsome, hconditions⟩ := translator_of_declared declared hp
    cases hsome
    exact .inr ⟨p, rfl, hconditions⟩
  · obtain rfl : none = change := Except.ok.inj hrest
    rcases hleaves with hnone | ⟨p, hp, hbeq⟩
    · obtain ⟨p, hsome, -⟩ := translator_of_declared declared hnone
      cases hsome
    · obtain ⟨_, hsome, hconditions⟩ := translator_of_declared declared hp
      cases hsome
      cases p with
      | cond e =>
        have he : (e == c) = true := hbeq
        have hexpands : c.Expands r e := (hconditions e).mp (by simp)
        obtain rfl := hexpands.eq_of_beq he
        refine .inl ⟨rfl, hexpands, he, fun d hd => ?_⟩
        simpa using (hconditions d).mpr hd
      | and ps => cases hbeq
      | or ps => cases hbeq

/-! ### Where a condition goes on -/

/-- A condition starts from the first stage, or it compares with the empty text and is past the
rules. -/
inductive Begins (c : Condition) : Nat → Prop where
  | whole : Begins c 0
  | past (blank : c.Blank) : Begins c 6

/-- Where what a rule makes of a condition goes on. -/
lemma begins_of_change {n : Nat} {p : Predicate Condition}
    (h : Rule.change c 0 Rule.all = some (n, p)) (he : e ∈ p.conditions) :
    Begins e (if e == c then n + 1 else 0) := by
  cases hec : e == c with
  | false => exact .whole
  | true =>
    obtain ⟨rfl, hblank, rfl⟩ := Rule.eq_of_change h he hec
    exact .past hblank

lemma firstChange_of_change {change : Nat × Predicate Condition}
    (h : Rule.change c 0 Rule.all = some change) :
    firstChange c 0 ((all r).drop 0) = .ok (some change) := by
  rw [List.drop_zero, firstChange_all, h]

/-- A rule changes the condition first, or the translator has its turn. -/
lemma Begins.change_or_translator (h : Begins c start) :
    (start = 0 ∧ ∃ n p, Rule.change c 0 Rule.all = some (n, p)) ∨
      firstChange c start ((all r).drop start) = firstChange c 6 [translator r] := by
  cases h with
  | whole =>
    cases hchange : Rule.change c 0 Rule.all with
    | none => exact .inr (by rw [List.drop_zero, firstChange_all, hchange])
    | some change => exact .inl ⟨rfl, change.1, change.2, rfl⟩
  | past => exact .inr rfl

/-- A condition that settles recurs as itself if it goes on behind the rules. -/
lemma Begins.beq_self (h : Begins c start) (hc : Settles (all r) check depth 0 c) :
    start = 0 ∨ (c == c) = true := by
  cases h with
  | whole => exact .inl rfl
  | past hblank =>
    obtain ⟨p, hchange, hmem⟩ := Rule.change_of_blank hblank
    exact .inr (hc.beq_self (firstChange_of_change hchange) hmem)

/-- What settles from the first stage on settles where it goes on. -/
lemma Begins.settles (h : Begins c start) (hc : Settles (all r) check depth 0 c) :
    Settles (all r) check (depth + 1) start c := by
  cases h with
  | whole => exact hc.mono (Nat.le_succ depth)
  | past hblank =>
    obtain ⟨p, hchange, hmem⟩ := Rule.change_of_blank hblank
    have hfirst := firstChange_of_change (r := r) hchange
    have hself := hc.beq_self hfirst hmem
    obtain ⟨depth, _, rfl, -⟩ := hc.exists_change
    have hcopy := (settles_succ_of_some hfirst).mp hc c hmem
    rw [hself] at hcopy
    exact hcopy.mono (by omega)

/-- What is reached from where a condition goes on is reached from the first stage on. -/
lemma Begins.reaches (h : Begins c start) (hself : start = 0 ∨ (c == c) = true)
    (hreach : Reaches (all r) start c x) : Reaches (all r) 0 c x := by
  cases h with
  | whole => exact hreach
  | past hblank =>
    obtain ⟨p, hchange, hmem⟩ := Rule.change_of_blank hblank
    have hself : (c == c) = true := hself.resolve_left (by decide)
    refine .onward (firstChange_of_change hchange) hmem ?_
    rw [hself]
    exact hreach

/-! ### What remains of an expansion -/

lemma Begins.of_alike (h : Begins c start) (hcd : c.Alike Eq d) : Begins d start := by
  cases h with
  | whole => exact .whole
  | past hblank => exact .past (hcd.blank Value.congruence_eq hblank)

lemma exists_change_of_alike (hcd : c.Alike Eq d) {n : Nat} {p : Predicate Condition}
    (h : Rule.change c 0 Rule.all = some (n, p)) :
    ∃ q, Rule.change d 0 Rule.all = some (n, q) ∧
      List.Forall₂ (Condition.Matches Eq c d) p.conditions q.conditions := by
  have hrel := Rule.change_alike (List.Subset.refl _) Value.congruence_eq hcd 0
  rw [h] at hrel
  cases hd : Rule.change d 0 Rule.all with
  | none => simp [hd] at hrel
  | some change =>
    obtain ⟨m, q⟩ := change
    rw [hd] at hrel
    obtain ⟨rfl, hmatches⟩ : n = m ∧ _ := by simpa using hrel
    exact ⟨q, rfl, hmatches⟩

/-- If a condition on a virtual property settles, so do the conditions that it expands to. -/
lemma Settles.of_expands (hc : c.Virtual r names) (hbegins : Begins c start)
    (hd : c.Expands r d) (h : Settles (all r) check depth start c) :
    Settles (all r) check depth start d := by
  induction depth generalizing start c d with
  | zero =>
    obtain ⟨_, _, hdepth, -⟩ := h.exists_change
    cases hdepth
  | succ depth ih =>
    have hcd := hc.alike hd
    rcases hbegins.change_or_translator (r := r) with ⟨rfl, n, p, hp⟩ | htranslator
    · obtain ⟨q, hq, hmatches⟩ := exists_change_of_alike hcd hp
      rw [settles_succ_of_some (firstChange_of_change hp)] at h
      rw [settles_succ_of_some (firstChange_of_change hq)]
      intro f hf
      obtain ⟨e, he, hmatch⟩ := exists_of_mem_forall₂ hmatches hf
      rw [← hmatch.repeats]
      exact ih (hc.of_property hmatch.source) (begins_of_change hp he)
        (hc.expands_of_matches hd hmatch) (h e he)
    · obtain ⟨_, change, -, hchange⟩ := h.exists_change
      rcases change_of_declared hc.declared (htranslator ▸ hchange) with ⟨rfl, -, -, honly⟩ | ⟨p, rfl, hp⟩
      · exact honly d hd ▸ h
      · have hrest := (settles_succ_of_some hchange).mp h d ((hp d).mpr hd)
        cases hdc : d == c with
        | true => exact (hd.eq_of_beq hdc).symm ▸ h
        | false =>
          rw [hdc] at hrest
          exact (hbegins.of_alike hcd).settles hrest

/-- What remains of a condition in the expansion remains of the condition. -/
lemma Reaches.of_expands (hc : c.Virtual r names) (hbegins : Begins c start)
    (hd : c.Expands r d) (h : Settles (all r) check depth start c)
    (hreach : Reaches (all r) start d x) : Reaches (all r) start c x := by
  induction depth generalizing start c d with
  | zero =>
    obtain ⟨_, _, hdepth, -⟩ := h.exists_change
    cases hdepth
  | succ depth ih =>
    have hcd := hc.alike hd
    rcases hbegins.change_or_translator (r := r) with ⟨rfl, n, p, hp⟩ | htranslator
    · obtain ⟨q, hq, hmatches⟩ := exists_change_of_alike hcd hp
      rw [settles_succ_of_some (firstChange_of_change hp)] at h
      cases hreach with
      | stop hstop => cases hstop.symm.trans (firstChange_of_change hq)
      | @onward _ _ _ f _ _ hchange hf rest =>
        cases hchange.symm.trans (firstChange_of_change hq)
        obtain ⟨e, he, hmatch⟩ := exists_of_mem_forall₂ hmatches hf
        rw [← hmatch.repeats] at rest
        exact .onward (firstChange_of_change hp) he (ih (hc.of_property hmatch.source)
          (begins_of_change hp he) (hc.expands_of_matches hd hmatch) (h e he) rest)
    · obtain ⟨_, change, -, hchange⟩ := h.exists_change
      rcases change_of_declared hc.declared (htranslator ▸ hchange) with ⟨rfl, -, -, honly⟩ | ⟨p, rfl, hp⟩
      · exact honly d hd ▸ hreach
      · have hrest := (settles_succ_of_some hchange).mp h d ((hp d).mpr hd)
        cases hdc : d == c with
        | true => exact hd.eq_of_beq hdc ▸ hreach
        | false =>
          rw [hdc] at hrest
          refine .onward hchange ((hp d).mpr hd) ?_
          rw [hdc]
          exact (hbegins.of_alike hcd).reaches ((hbegins.of_alike hcd).beq_self hrest) hreach

/-- What remains of a condition remains of one in the expansion. -/
lemma Reaches.exists_expands (hc : c.Virtual r names) (hbegins : Begins c start)
    (h : Settles (all r) check depth start c) (hreach : Reaches (all r) start c x) :
    ∃ d, c.Expands r d ∧ Reaches (all r) 0 d x := by
  induction depth generalizing start c with
  | zero =>
    obtain ⟨_, _, hdepth, -⟩ := h.exists_change
    cases hdepth
  | succ depth ih =>
    rcases hbegins.change_or_translator (r := r) with ⟨rfl, n, p, hp⟩ | htranslator
    · rw [settles_succ_of_some (firstChange_of_change hp)] at h
      cases hreach with
      | stop hstop => cases hstop.symm.trans (firstChange_of_change hp)
      | @onward _ _ _ e _ _ hchange he rest =>
        cases hchange.symm.trans (firstChange_of_change hp)
        obtain ⟨f, hf, hreach⟩ := ih (hc.of_property (Rule.property_of_change hp he))
          (begins_of_change hp he) (h e he) rest
        -- the property that `f` is on has the condition itself in the expansion
        obtain ⟨d, hd, hproperty⟩ := hc.exists_expands (Rule.property_of_change hp he) hf
        obtain ⟨q, hq, hmatches⟩ := exists_change_of_alike (hc.alike hd) hp
        obtain ⟨g, hg, hmatch⟩ := exists_of_mem_forall₂ hmatches.flip he
        obtain rfl := (hc.expands_of_matches hd hmatch).eq_of_property hf (hmatch.target.trans hproperty.symm)
        refine ⟨d, hd, ?_⟩
        cases hec : e == c with
        | true =>
          obtain ⟨rfl, -⟩ := Rule.eq_of_change hp he hec
          exact hd.eq_of_property hf hproperty.symm ▸ hreach
        | false =>
          refine .onward (firstChange_of_change hq) hg ?_
          rw [← hmatch.repeats, hec]
          exact hreach
    · obtain ⟨_, change, -, hchange⟩ := h.exists_change
      rcases change_of_declared hc.declared (htranslator ▸ hchange) with
        ⟨rfl, hown, hself, -⟩ | ⟨p, rfl, hp⟩
      · exact ⟨c, hown, hbegins.reaches (.inr hself) hreach⟩
      · cases hreach with
        | stop hstop => cases hstop.symm.trans hchange
        | @onward _ _ _ e _ _ hchange' he rest =>
          cases hchange'.symm.trans hchange
          have hexpands := (hp e).mp he
          cases hec : e == c with
          | true =>
            obtain rfl := hexpands.eq_of_beq hec
            refine ⟨e, hexpands, hbegins.reaches (.inr hec) ?_⟩
            exact .onward hchange he rest
          | false =>
            rw [hec] at rest
            exact ⟨e, hexpands, rest⟩

end Stage

/-! ### Settling -/

lemma exists_forall₂ {α β : Type} {R : α → β → Prop} {xs : List α} (h : ∀ x ∈ xs, ∃ y, R x y) :
    ∃ ys, List.Forall₂ R xs ys := by
  induction xs with
  | nil => exact ⟨[], .nil⟩
  | cons x xs ih =>
    rw [List.forall_mem_cons] at h
    obtain ⟨⟨y, hy⟩, hrest⟩ := h
    obtain ⟨ys, hys⟩ := ih hrest
    exact ⟨y :: ys, .cons hy hys⟩

/-- What a condition is settled to on a sibling. -/
def Condition.SettlesOn (r : Registry) (c : Condition) (name : String) (q : Predicate Condition) :
    Prop :=
  ∃ path, r.sibling c name = .ok path ∧ r.settle ⟨path, c.operator, c.operands⟩ = .ok q

/-- **Expansion**: a condition on a property that stands for others is settled on each of these, and
it holds if it holds on one of them, or on all of them if it is a negation. -/
theorem Registry.settle_virtual {c : Condition} {q : Predicate Condition}
    (hc : c.Virtual r names) (resolved : ∀ name ∈ names, ∃ path, r.sibling c name = .ok path)
    (h : r.settle c = .ok q) : ∃ qs, List.Forall₂ (c.SettlesOn r) names qs ∧
      ∀ test, q.holds test = if c.operator.isNegation then qs.all (Predicate.holds test)
        else qs.any (Predicate.holds test) := by
  have hsettles : Stage.Settles (Stage.all r) Condition.check (maxRuleDepth + 1) 0 c := ⟨q, h⟩
  obtain ⟨qs, hqs⟩ : ∃ qs, List.Forall₂ (c.SettlesOn r) names qs := by
    refine exists_forall₂ fun name hname => ?_
    obtain ⟨path, hpath⟩ := resolved name hname
    have hd := hc.expands_iff.mpr ⟨name, hname, path, hpath, rfl⟩
    obtain ⟨q', hq'⟩ := hsettles.of_expands hc .whole hd
    exact ⟨q', path, hpath, hq'⟩
  have hconditions : ∀ x, x ∈ q.conditions ↔ ∃ q' ∈ qs, x ∈ q'.conditions := by
    intro x
    rw [Stage.mem_settle_iff h]
    constructor
    · intro hreach
      obtain ⟨d, hd, hreach⟩ := hreach.exists_expands hc .whole hsettles
      obtain ⟨name, hname, path, hpath, rfl⟩ := hc.expands_iff.mp hd
      obtain ⟨q', hmem, path', hpath', hq'⟩ := exists_of_mem_forall₂ hqs.flip hname
      obtain rfl := Except.ok.inj (hpath.symm.trans hpath')
      exact ⟨q', hmem, (Stage.mem_settle_iff hq').mpr hreach⟩
    · rintro ⟨q', hmem, hx⟩
      obtain ⟨name, hname, path, hpath, hq'⟩ := exists_of_mem_forall₂ hqs hmem
      have hd := hc.expands_iff.mpr ⟨name, hname, path, hpath, rfl⟩
      exact ((Stage.mem_settle_iff hq').mp hx).of_expands hc .whole hd hsettles
  have hside : ∀ q' ∈ qs, q'.Only c.operator.side := by
    intro q' hmem
    obtain ⟨name, -, path, -, hq'⟩ := exists_of_mem_forall₂ hqs hmem
    exact (sides_of_settle hq').only
  refine ⟨qs, hqs, fun test => ?_⟩
  have hparts := (sides_of_settle h).only.holds_eq_of_parts (s := test) (t := test) hside
    (fun x hx => ?_) fun q' hq' x hx => ⟨x, (hconditions x).mpr ⟨q', hq', hx⟩, rfl⟩
  · rw [hparts, Operator.side]
    cases c.operator.isNegation <;> rfl
  · obtain ⟨q', hq', hx⟩ := (hconditions x).mp hx
    exact ⟨q', hq', x, hx, rfl⟩

end EntityQuery
