import EntityQuery.Proofs.Preparation.Expanded

/-!
# The properties that a condition is spread over

A property may stand for others, and these for others again. Which properties a condition ends with
is decided by the declarations alone, not by its operator or its operands, as long as no rule has
anything to say about it. An equality with a value is spread as the membership in a list of values
is; it leaves more behind than itself only where the empty text is compared with, or where case is
disregarded.
-/

namespace EntityQuery

variable {r : Registry}

/-! ### Paths -/

namespace Registry

/-- The property at the end of a path stands for the one at the end of another path, among others. -/
def Offers (r : Registry) (path next : PropertyPath) : Prop :=
  Condition.Expands r ⟨path, .eq, []⟩ ⟨next, .eq, []⟩

/-- What the property at the end of a path comes down to: a property that stands for no others, or
one that stands for itself as well. -/
inductive Spreads (r : Registry) : PropertyPath → PropertyPath → Prop where
  | plain {path : PropertyPath} (h : ∀ next, ¬ r.Offers path next) : Spreads r path path
  | own {path : PropertyPath} (h : r.Offers path path) : Spreads r path path
  | onward {path next last : PropertyPath} (h : r.Offers path next) (rest : Spreads r next last) :
      Spreads r path last

/-- The property at the end of a path is declared to disregard case. -/
def IgnoresCase (r : Registry) (path : PropertyPath) : Prop :=
  ∃ p, r.property? path.leaf.owner path.leaf.name = some p ∧ p.translator? = some .ignoreCase

lemma IgnoresCase.not_offers {path next : PropertyPath} (h : r.IgnoresCase path) :
    ¬ r.Offers path next := by
  rintro ⟨⟨p, names, name, hp, ht, -⟩, -, -⟩
  obtain ⟨p', hp', ht'⟩ := h
  obtain rfl := Option.some.inj (hp.symm.trans hp')
  simp [ht] at ht'

end Registry

namespace Condition

variable {c d : Condition} {path next : PropertyPath}

lemma expands_iff_offers : c.Expands r d ↔
    r.Offers c.property d.property ∧ d.operator = c.operator ∧ d.operands = c.operands := by
  constructor
  · rintro ⟨⟨p, names, name, hp, ht, hname, hpath⟩, hop, hoperands⟩
    exact ⟨⟨⟨p, names, name, hp, ht, hname, hpath⟩, rfl, rfl⟩, hop, hoperands⟩
  · rintro ⟨⟨⟨p, names, name, hp, ht, hname, hpath⟩, -, -⟩, hop, hoperands⟩
    exact ⟨⟨p, names, name, hp, ht, hname, hpath⟩, hop, hoperands⟩

/-- Something that is offered is declared. -/
lemma exists_declared_of_offers (h : r.Offers c.property next) : ∃ names p,
    r.property? c.property.leaf.owner c.property.leaf.name = some p ∧
      p.translator? = some (.expand names) := by
  obtain ⟨⟨p, names, -, hp, ht, -⟩, -, -⟩ := h
  exact ⟨names, p, hp, ht⟩

end Condition

/-! ### Chains of changes -/

namespace Stage

variable {c d : Condition} {p : Predicate Condition} {stages : List Stage} {start n k : Nat}

/-- A change has the number of the stage that makes it. -/
lemma exists_index_of_firstChange (h : firstChange c n stages = .ok (some (k, p))) :
    ∃ i stage, stages[i]? = some stage ∧ k = n + i ∧ stage c = .ok (some p) ∧
      (p == .cond c) = false := by
  induction stages generalizing n with
  | nil => simp [firstChange] at h
  | cons stage rest ih =>
    rcases firstChange_cons h with ⟨q, hs, hq, hchange⟩ | ⟨-, h⟩
    · obtain ⟨rfl, rfl⟩ := Prod.mk.inj (Option.some.inj hchange)
      exact ⟨0, stage, rfl, rfl, hs, hq⟩
    · obtain ⟨i, stage', hi, rfl, hs⟩ := ih h
      exact ⟨i + 1, stage', hi, by omega, hs⟩

lemma leaves_of_firstChange (h : firstChange c n stages = .ok none) :
    ∀ stage ∈ stages, stage.Leaves c := by
  induction stages generalizing n with
  | nil => simp
  | cons stage rest ih =>
    rcases firstChange_cons h with ⟨q, -, -, hchange⟩ | ⟨hleaves, h⟩
    · cases hchange
    · exact List.forall_mem_cons.mpr ⟨hleaves, ih h⟩

lemma mem_drop_all (h : start ≤ 6) : translator r ∈ (all r).drop start := by
  have hlast : (all r).drop 6 = [translator r] := rfl
  have hmem : translator r ∈ (all r).drop 6 := by simp [hlast]
  rw [← Nat.add_sub_cancel' h, ← List.drop_drop] at hmem
  exact List.mem_of_mem_drop hmem

/-- What a change makes of a condition is on the same property and goes on with the translator or
before it, or it is offered instead. -/
lemma offers_of_firstChange (h : firstChange c start ((all r).drop start) = .ok (some (n, p)))
    (hd : d ∈ p.conditions) :
    (d.property = c.property ∧ (if d == c then n + 1 else 0) ≤ 6) ∨
      r.Offers c.property d.property := by
  obtain ⟨i, stage, hi, rfl, hs, hne⟩ := exists_index_of_firstChange h
  rw [List.getElem?_drop, all, List.getElem?_append] at hi
  split at hi
  · rename_i hrule
    have hmem := List.mem_of_getElem? hi
    obtain ⟨f, hf, rfl⟩ := List.mem_map.mp hmem
    refine .inl ⟨(Rule.follows_of_mem hf (Except.ok.inj hs) hd).property, ?_⟩
    have hlength : start + i < 6 := hrule
    split <;> omega
  · obtain rfl : translator r = stage := List.mem_singleton.mp (List.mem_of_getElem? hi) |>.symm
    obtain ⟨declaration, t, hfound, ht, htranslate⟩ := translator_eq_some hs
    rcases Translator.of_mem_translate htranslate hd with
      ⟨rfl, rfl⟩ | ⟨names, rfl, name, hname, path, hpath, rfl⟩
    · have hfresh : (Translator.disregardCase c == c) = false := hne
      exact .inl ⟨(Translator.disregardCase_follows c).property, by simp [hfresh]⟩
    · exact .inr ⟨⟨declaration, names, name, hfound, ht, hname, hpath⟩, rfl, rfl⟩

/-- **A condition ends on the properties that its property comes down to.** -/
theorem Reaches.spreads (h : Reaches (all r) start c d)
    (hstart : start ≤ 6 ∨ r.Offers c.property c.property) : r.Spreads c.property d.property := by
  induction h with
  | @stop start c h =>
    rcases hstart with hle | hown
    · by_cases hoffers : ∃ next, r.Offers c.property next
      · obtain ⟨next, hnext⟩ := hoffers
        obtain ⟨names, hdeclared⟩ := Condition.exists_declared_of_offers hnext
        have hleaves := leaves_of_firstChange h _ (mem_drop_all hle)
        have hchange : firstChange c 6 [translator r] = .ok none := by
          rcases hleaves with hnone | ⟨p, hp, hbeq⟩
          · simp [firstChange, hnone]
          · simp [firstChange, hp, hbeq]
        rcases change_of_declared hdeclared hchange with ⟨-, hself, -⟩ | ⟨p, hp, -⟩
        · exact .own (Condition.expands_iff_offers.mp hself).1
        · cases hp
      · exact .plain (not_exists.mp hoffers)
    · exact .own hown
  | @onward start n c d' e p h hd rest ih =>
    rcases offers_of_firstChange h hd with ⟨hproperty, hle⟩ | hoffers
    · exact hproperty ▸ ih (.inl hle)
    · refine .onward hoffers (ih ?_)
      cases hself : d' == c with
      | false => exact .inl (by simp)
      | true =>
        have hbeq : Condition.beq d' c = true := hself
        simp only [Condition.beq, Bool.and_eq_true, beq_iff_eq] at hbeq
        rw [← hbeq.1.1] at hoffers
        exact .inr hoffers

end Stage

/-! ### Equality and membership -/

namespace Condition

variable {c d : Condition} {path : PropertyPath}

/-- An equality with a value or the membership in a list of values, none of which is null. -/
structure Equates (c : Condition) : Prop where
  operator : c.operator = .isIn ∨ c.operator = .eq ∧ ∃ x, c.operands = [x]
  present : ∀ x ∈ c.operands, x.isNull = false

lemma Equates.on (h : c.Equates) (path : PropertyPath) :
    Equates ⟨path, c.operator, c.operands⟩ :=
  ⟨h.operator, h.present⟩

lemma Equates.rule_eq_none (h : c.Equates) :
    Rule.absence c = none ∧ Rule.nullComparison c = none ∧ Rule.nullInList c = none ∧
      Rule.containsList c = none ∧ Rule.textContains c = none := by
  obtain ⟨hop, hpresent⟩ := h
  have hnull : c.operands.any Value.isNull = false := by simpa using hpresent
  refine ⟨?_, Rule.nullComparison_eq_none ?_, ?_, ?_, ?_⟩
  · unfold Rule.absence
    rcases hop with hop | ⟨hop, -⟩ <;> rw [hop]
  · intro hvs
    simp [hvs, Value.isNull] at hnull
  · simp [Rule.nullInList, hnull]
  · rw [Rule.containsList_eq]
    rcases hop with hop | ⟨hop, -⟩ <;> rw [hop] <;> cases c.hasSingle <;> rfl
  · unfold Rule.textContains
    rcases hop with hop | ⟨hop, -⟩ <;> rw [hop] <;> cases c.property.kind <;> rfl

lemma emptyText_eq_none_of_not_blank (hblank : ¬ c.Blank) : Rule.emptyText c = none := by
  by_contra hsome
  obtain ⟨p, hp⟩ := Option.ne_none_iff_exists'.mp hsome
  exact hblank (Rule.repeats_emptyText hp).1

/-- No rule has anything to say, except that a comparison with the empty text is passed on. -/
lemma Equates.exists_begins (h : c.Equates) : ∃ start, Stage.Begins c start ∧
    Stage.firstChange c start ((Stage.all r).drop start) =
      Stage.firstChange c 6 [Stage.translator r] := by
  by_cases hblank : c.Blank
  · exact ⟨6, .past hblank, rfl⟩
  · obtain ⟨habsence, hnull, hlist, hcontains, htext⟩ := h.rule_eq_none
    refine ⟨0, .whole, ?_⟩
    rw [List.drop_zero, Stage.firstChange_all]
    simp [Rule.change, Rule.all, habsence, hnull, hlist, hcontains, htext,
      emptyText_eq_none_of_not_blank hblank]

/-- Disregarding case leaves all but an equality with a text as they are. -/
lemma Equates.disregardCase (h : c.Equates) : Translator.disregardCase c = c ∨
    ∃ s, c.operator = .eq ∧ c.operands = [.text s] ∧
      Translator.disregardCase c = c.replace .ilike [.text (escapeLike s)] := by
  rcases h.operator with hop | ⟨hop, x, hx⟩
  · exact .inl (by simp [Translator.disregardCase, hop])
  · cases hs : c.text? with
    | none => exact .inl (by simp [Translator.disregardCase, hop, hs])
    | some s =>
      obtain rfl := Rule.text?_of_single hx hs
      exact .inr ⟨s, hop, hx, by simp [Translator.disregardCase, hop, hs]⟩

end Condition

/-- Rules that have nothing to say change nothing. -/
lemma Rule.change_eq_none {c : Condition} {fs : List Rule} {n : Nat} (h : ∀ f ∈ fs, f c = none) :
    Rule.change c n fs = none := by
  induction fs generalizing n with
  | nil => rfl
  | cons f fs ih =>
    obtain ⟨hf, hfs⟩ := List.forall_mem_cons.mp h
    rw [Rule.change, hf]
    exact ih hfs

/-- No rule has anything to say about a comparison with a pattern. -/
lemma Rule.eq_none_of_isPattern {c : Condition} (h : c.operator.isPattern = true) :
    ∀ f ∈ Rule.all, f c = none := by
  obtain ⟨path, operator, operands⟩ := c
  simp only [Rule.all, List.mem_cons, List.not_mem_nil, or_false]
  rintro f (rfl | rfl | rfl | rfl | rfl | rfl)
  · cases operator <;> first | rfl | cases h
  · cases operator <;> first | rfl | cases h
  · cases operator <;> first | rfl | cases h
  · cases operator <;> first | rfl | cases h
  · unfold Rule.textContains
    cases path.kind <;> cases operator <;> first | rfl | cases h
  · unfold Rule.emptyText
    cases path.kind <;> cases operator <;> first | rfl | cases h

namespace Stage

variable {c d : Condition} {check : Condition → Except PrepareError Unit} {depth start : Nat}

/-- A pattern in which case is disregarded stays as it is where case is disregarded. -/
lemma reaches_ilike {path : PropertyPath} (hcase : r.IgnoresCase path) (s : String) :
    Reaches (all r) 0 ⟨path, .ilike, [.text s]⟩ ⟨path, .ilike, [.text s]⟩ := by
  refine .stop ?_
  obtain ⟨⟨name, type, nullable, translator?⟩, hp, ht⟩ := hcase
  obtain rfl : translator? = some .ignoreCase := ht
  have hrules := Rule.change_eq_none (n := 0)
    (Rule.eq_none_of_isPattern (c := ⟨path, .ilike, [.text s]⟩) rfl)
  rw [Registry.property?] at hp
  have hself : (Predicate.cond (⟨path, .ilike, [.text s]⟩ : Condition) ==
      .cond ⟨path, .ilike, [.text s]⟩) = true := by
    simp [BEq.beq, Predicate.beq, Condition.beq, Value.beqAll, Value.beq]
  rw [List.drop_zero, firstChange_all, hrules]
  simp [firstChange, translator, hp, Translator.translate, Translator.disregardCase, hself]

/-- The property of a condition that the translator changes otherwise disregards case. -/
lemma ignoresCase_of_translator {p : Predicate Condition}
    (hplain : ∀ next, ¬ r.Offers c.property next) (h : translator r c = .ok (some p)) :
    r.IgnoresCase c.property ∧ p = .cond (Translator.disregardCase c) := by
  obtain ⟨declaration, t, hfound, ht, htranslate⟩ := translator_eq_some h
  cases t with
  | ignoreCase =>
    refine ⟨⟨declaration, hfound, ht⟩, ?_⟩
    rw [Translator.translate] at htranslate
    exact (Except.ok.inj htranslate).symm
  | expand names =>
    cases names with
    | nil => cases htranslate
    | cons name names =>
      -- the first of several properties is offered
      rw [Translator.translate] at htranslate
      · rw [Translator.siblingConditions] at htranslate
        cases hpath : r.sibling c name with
        | error e => simp [hpath] at htranslate
        | ok path =>
          exact absurd ⟨⟨declaration, _, name, hfound, ht, by simp, hpath⟩, rfl, rfl⟩ (hplain path)
      · simp

/-- A condition that a change repeats from where it begins equals itself. -/
lemma Begins.beq_self_of_mem (h : Begins c start) (hsettles : Settles (all r) check depth 0 c)
    {n : Nat} {p : Predicate Condition}
    (hchange : firstChange c start ((all r).drop start) = .ok (some (n, p)))
    (hc : c ∈ p.conditions) : (c == c) = true := by
  rcases h.beq_self hsettles with rfl | hself
  · exact hsettles.beq_self hchange hc
  · exact hself

/-- A condition stays where it is if its property stands for no others. -/
lemma exists_reaches_of_plain (hc : c.Equates) (hplain : ∀ next, ¬ r.Offers c.property next)
    (hsettles : Settles (all r) check depth 0 c) :
    Reaches (all r) 0 c c ∨ r.IgnoresCase c.property ∧ ∃ s, c.operator = .eq ∧
      c.operands = [.text s] ∧
      Reaches (all r) 0 c ⟨c.property, .ilike, [.text (escapeLike s)]⟩ := by
  obtain ⟨start, hbegins, htranslator⟩ := hc.exists_begins (r := r)
  have hself := hbegins.beq_self hsettles
  obtain ⟨_, change, -, hchange⟩ := (hbegins.settles hsettles).exists_change
  cases change with
  | none => exact .inl (hbegins.reaches hself (.stop hchange))
  | some change =>
    obtain ⟨n, p⟩ := change
    obtain ⟨stage, hmem, hs, hne⟩ := exists_of_firstChange (htranslator ▸ hchange)
    obtain rfl := List.mem_singleton.mp hmem
    obtain ⟨hcase, rfl⟩ := ignoresCase_of_translator hplain hs
    rcases hc.disregardCase with heq | ⟨s, hop, hvs, heq⟩
    · -- a copy would have been no change
      have hbeq := hbegins.beq_self_of_mem hsettles hchange (by simp [heq])
      have hfresh : (Translator.disregardCase c == c) = false := hne
      rw [heq, hbeq] at hfresh
      cases hfresh
    · have hfresh : (Translator.disregardCase c == c) = false := hne
      have hmem : Translator.disregardCase c ∈
          (Predicate.cond (Translator.disregardCase c)).conditions := by simp
      refine .inr ⟨hcase, s, hop, hvs, hbegins.reaches hself (.onward hchange hmem ?_)⟩
      rw [hfresh, heq]
      exact reaches_ilike hcase _

/-- **A condition that equates ends on every property that its property comes down to**: as it is,
or as a pattern where case is disregarded. -/
theorem exists_reaches_of_spreads {path last : PropertyPath} (h : r.Spreads path last)
    (hc : c.Equates) (hpath : c.property = path) (hsettles : Settles (all r) check depth 0 c) :
    Reaches (all r) 0 c ⟨last, c.operator, c.operands⟩ ∨ r.IgnoresCase last ∧ ∃ s,
      c.operator = .eq ∧ c.operands = [.text s] ∧
      Reaches (all r) 0 c ⟨last, .ilike, [.text (escapeLike s)]⟩ := by
  induction h generalizing c depth with
  | plain hplain =>
    subst hpath
    exact exists_reaches_of_plain hc hplain hsettles
  | own hown =>
    subst hpath
    obtain ⟨start, hbegins, htranslator⟩ := hc.exists_begins (r := r)
    obtain ⟨_, change, -, hchange⟩ := (hbegins.settles hsettles).exists_change
    obtain ⟨names, hdeclared⟩ := Condition.exists_declared_of_offers hown
    refine .inl (hbegins.reaches (hbegins.beq_self hsettles) ?_)
    rcases change_of_declared hdeclared (htranslator ▸ hchange) with ⟨rfl, -⟩ | ⟨p, rfl, hp⟩
    · exact .stop hchange
    · have hmem := (hp c).mpr (Condition.expands_iff_offers.mpr ⟨hown, rfl, rfl⟩)
      refine .onward hchange hmem ?_
      rw [hbegins.beq_self_of_mem hsettles hchange hmem]
      exact .stop rfl
  | @onward path next last hoffers rest ih =>
    subst hpath
    obtain ⟨start, hbegins, htranslator⟩ := hc.exists_begins (r := r)
    have hstart := hbegins.settles hsettles
    obtain ⟨_, change, -, hchange⟩ := hstart.exists_change
    obtain ⟨names, hdeclared⟩ := Condition.exists_declared_of_offers hoffers
    have hexpands : c.Expands r ⟨next, c.operator, c.operands⟩ :=
      Condition.expands_iff_offers.mpr ⟨hoffers, rfl, rfl⟩
    rcases change_of_declared hdeclared (htranslator ▸ hchange) with ⟨rfl, -, -, honly⟩ | ⟨p, rfl, hp⟩
    · exact ih hc (congrArg Condition.property (honly _ hexpands)).symm hsettles
    · have hmem := (hp _).mpr hexpands
      have hnext := (settles_succ_of_some hchange).mp hstart _ hmem
      cases hsame : (⟨next, c.operator, c.operands⟩ : Condition) == c with
      | true =>
        exact ih hc (congrArg Condition.property (hexpands.eq_of_beq hsame)).symm hsettles
      | false =>
        rw [hsame] at hnext
        have honward {d : Condition}
            (hd : Reaches (all r) 0 ⟨next, c.operator, c.operands⟩ d) : Reaches (all r) 0 c d := by
          refine hbegins.reaches (hbegins.beq_self hsettles) (.onward hchange hmem ?_)
          rw [hsame]
          exact hd
        rcases ih (hc.on next) rfl hnext with hreach | ⟨hcase, s, hop, hvs, hreach⟩
        · exact .inl (honward hreach)
        · exact .inr ⟨hcase, s, hop, hvs, honward hreach⟩

end Stage

/-! ### What an equality leaves behind -/

/-- What remains of an equality with a value: the equality, a test for absence beside an equality
with the empty text, or a pattern in place of a text where case is disregarded. -/
inductive Condition.StemsFrom (r : Registry) (x : Value) (d : Condition) : Prop where
  | same (operator : d.operator = .eq) (operands : d.operands = [x])
  | absence (operator : d.operator = .isNull ∨ d.operator = .isEmpty) (operands : d.operands = [])
      (blank : x = .text "")
  | pattern {s : String} (case : r.IgnoresCase d.property) (operator : d.operator = .ilike)
      (operands : d.operands = [.text (escapeLike s)]) (text : x = .text s)

namespace Condition

variable {x : Value} {c d : Condition} {p : Predicate Condition}

lemma StemsFrom.of_absence (h : c.StemsFrom r x) (hp : Rule.absence c = some p)
    (hd : d ∈ p.conditions) : d.StemsFrom r x := by
  have hunary : c.operator.isUnary = true := by
    unfold Rule.absence at hp
    split at hp <;> simp_all [Operator.isUnary]
  cases h with
  | same hop _ => simp [hop, Operator.isUnary] at hunary
  | pattern _ hop _ _ => simp [hop, Operator.isUnary] at hunary
  | absence hop hvs hx =>
    have hd' : (d.operator = .isNull ∨ d.operator = .isEmpty) ∧ d.operands = [] := by
      unfold Rule.absence at hp
      rcases hop with hop | hop <;> rw [hop] at hp <;> cases hk : c.property.kind <;>
        simp [hk] at hp <;> subst hp <;> simp at hd <;> subst hd <;> simp [Condition.replace]
    exact .absence hd'.1 hd'.2 hx

lemma StemsFrom.of_emptyText (h : c.StemsFrom r x) (hp : Rule.emptyText c = some p)
    (hd : d ∈ p.conditions) : d.StemsFrom r x := by
  obtain ⟨hblank, -, -, -⟩ := Rule.repeats_emptyText hp
  cases h with
  | same hop hvs =>
    obtain rfl : x = .text "" := Rule.text?_of_single hvs hblank.text
    unfold Rule.emptyText at hp
    rw [hop, hblank.kind, hblank.text] at hp
    obtain rfl := Option.some.inj hp
    simp at hd
    rcases hd with rfl | rfl
    · exact .absence (.inl rfl) rfl rfl
    · exact .same hop hvs
  | absence hop _ _ => rcases hblank.operator with h | h <;> simp [h] at hop
  | pattern _ hop _ _ => rcases hblank.operator with h | h <;> simp [h] at hop

/-- A rule makes only such conditions of what remains of an equality. -/
lemma StemsFrom.of_rule (hx : x.isNull = false) (h : c.StemsFrom r x) {f : Rule}
    (hf : f ∈ Rule.all) (hp : f c = some p) (hd : d ∈ p.conditions) : d.StemsFrom r x := by
  have hlist : c.operator.acceptsList = false := by
    cases h with
    | same hop _ => rw [hop]; rfl
    | absence hop _ _ => rcases hop with hop | hop <;> rw [hop] <;> rfl
    | pattern _ hop _ _ => rw [hop]; rfl
  simp only [Rule.all, List.mem_cons, List.not_mem_nil, or_false] at hf
  rcases hf with rfl | rfl | rfl | rfl | rfl | rfl
  · exact h.of_absence hp hd
  · have hnull : c.operands ≠ [.null] := by
      intro hvs
      cases h with
      | same _ hx' => cases hvs.symm.trans hx'; cases hx
      | absence _ hx' _ => cases hvs.symm.trans hx'
      | pattern _ _ hx' _ => cases hvs.symm.trans hx'
    rw [Rule.nullComparison_eq_none hnull] at hp
    cases hp
  · unfold Rule.nullInList at hp
    cases hop : c.operator <;> simp_all [Operator.takesList, Operator.acceptsList]
  · rw [Rule.containsList_eq] at hp
    cases hop : c.operator <;> simp_all [Operator.acceptsList]
  · unfold Rule.textContains at hp
    cases hop : c.operator <;> simp_all [Operator.acceptsList]
  · exact h.of_emptyText hp hd

lemma StemsFrom.disregardCase (h : c.StemsFrom r x) (hcase : r.IgnoresCase c.property) :
    (Translator.disregardCase c).StemsFrom r x := by
  unfold Translator.disregardCase
  split
  · rename_i s hop hs
    cases h with
    | same _ hvs => exact .pattern hcase rfl rfl (Rule.text?_of_single hvs hs)
    | absence hop' _ _ => simp [hop] at hop'
    | pattern _ hop' _ _ => simp [hop] at hop'
  case h_5 => exact h
  all_goals
    rename_i hop _
    cases h <;> simp_all

/-- So does a translator. -/
lemma StemsFrom.of_translator (h : c.StemsFrom r x)
    (hp : Stage.translator r c = .ok (some p)) (hd : d ∈ p.conditions) : d.StemsFrom r x := by
  obtain ⟨declaration, t, hfound, ht, htranslate⟩ := Stage.translator_eq_some hp
  cases t with
  | ignoreCase =>
    rcases Translator.of_mem_translate htranslate hd with ⟨-, rfl⟩ | ⟨names, hnames, -⟩
    · exact h.disregardCase ⟨declaration, hfound, ht⟩
    · cases hnames
  | expand names =>
    have hexpands : c.Expands r d := by
      have hdeclared : ∃ p, r.property? c.property.leaf.owner c.property.leaf.name = some p ∧
          p.translator? = some (.expand names) := ⟨declaration, hfound, ht⟩
      obtain ⟨_, hsome, hconditions⟩ := Stage.translator_of_declared hdeclared hp
      cases hsome
      exact (hconditions d).mp hd
    cases h with
    | same hop hvs =>
      exact .same (hexpands.operator.trans hop) (hexpands.operands.trans hvs)
    | absence hop hvs hx =>
      exact .absence (by rwa [hexpands.operator]) (hexpands.operands.trans hvs) hx
    | pattern hcase _ _ _ =>
      exact absurd (expands_iff_offers.mp hexpands).1 hcase.not_offers

end Condition

/-- What remains of the membership in a list is the membership in this list. -/
lemma Condition.Equates.isIn_of_stage {c d : Condition} {p : Predicate Condition} (h : c.Equates)
    (hop : c.operator = .isIn) {stage : Stage} (hstage : stage ∈ Stage.all r)
    (hp : stage c = .ok (some p)) (hd : d ∈ p.conditions) :
    d.operator = .isIn ∧ d.operands = c.operands := by
  simp only [Stage.all, List.mem_append, List.mem_map, List.mem_singleton] at hstage
  rcases hstage with ⟨f, hf, rfl⟩ | rfl
  · have hp : f c = some p := Except.ok.inj hp
    obtain ⟨habsence, hnull, hlist, hcontains, htext⟩ := h.rule_eq_none
    simp only [Rule.all, List.mem_cons, List.not_mem_nil, or_false] at hf
    rcases hf with rfl | rfl | rfl | rfl | rfl | rfl
    · cases habsence.symm.trans hp
    · cases hnull.symm.trans hp
    · cases hlist.symm.trans hp
    · cases hcontains.symm.trans hp
    · cases htext.symm.trans hp
    · rcases (Rule.repeats_emptyText hp).1.operator with h | h <;> cases hop.symm.trans h
  · obtain ⟨declaration, t, hfound, ht, htranslate⟩ := Stage.translator_eq_some hp
    rcases Translator.of_mem_translate htranslate hd with
      ⟨-, rfl⟩ | ⟨names, rfl, name, hname, path, hpath, rfl⟩
    · have hsame : Translator.disregardCase c = c := by simp [Translator.disregardCase, hop]
      rw [hsame]
      exact ⟨hop, rfl⟩
    · exact ⟨hop, rfl⟩

/-! ### Settling both -/

namespace Registry

variable {path : PropertyPath} {vs : List Value} {x : Value} {t u : Predicate Condition}

/-- The membership in a list without null remains what it is. -/
theorem isIn_of_settle (present : ∀ v ∈ vs, v.isNull = false)
    (h : r.settle ⟨path, .isIn, vs⟩ = .ok t) :
    ∀ d ∈ t.conditions, d.operator = .isIn ∧ d.operands = vs := by
  have hkept : ∀ d ∈ t.conditions, (d.operator = .isIn ∧ d.operands = vs) ∧ d.check = .ok () := by
    refine Stage.of_mem_settle (fun stage hstage c p hc hp d hd => ?_) h ⟨rfl, rfl⟩
    obtain ⟨hop, rfl⟩ := hc
    exact Condition.Equates.isIn_of_stage ⟨.inl hop, present⟩ hop hstage hp hd
  exact fun d hd => (hkept d hd).1

/-- **What remains of an equality** with a value that is not null. -/
theorem stemsFrom_of_settle (hx : x.isNull = false) (h : r.settle ⟨path, .eq, [x]⟩ = .ok u) :
    ∀ d ∈ u.conditions, d.StemsFrom r x := by
  intro d hd
  refine (Stage.of_mem_settle (fun stage hstage c p hc hp d hd => ?_) h (.same rfl rfl) d hd).1
  simp only [Stage.all, List.mem_append, List.mem_map, List.mem_singleton] at hstage
  rcases hstage with ⟨f, hf, rfl⟩ | rfl
  · exact hc.of_rule hx hf (Except.ok.inj hp) hd
  · exact hc.of_translator hp hd

/-- Whatever remains of an equality with a value, the membership in a list remains on the same
property. -/
lemma isIn_mem_of_mem (present : ∀ v ∈ vs, v.isNull = false)
    (ht : r.settle ⟨path, .isIn, vs⟩ = .ok t) (hu : r.settle ⟨path, .eq, [x]⟩ = .ok u)
    {d : Condition} (hd : d ∈ u.conditions) : ⟨d.property, .isIn, vs⟩ ∈ t.conditions := by
  have hspreads : r.Spreads path d.property :=
    ((Stage.mem_settle_iff hu).mp hd).spreads (.inl (Nat.zero_le 6))
  have hequates : Condition.Equates ⟨path, .isIn, vs⟩ := ⟨.inl rfl, present⟩
  rcases Stage.exists_reaches_of_spreads hspreads hequates rfl ⟨t, ht⟩ with hreach | ⟨-, s, hop, -⟩
  · exact (Stage.mem_settle_iff ht).mpr hreach
  · cases hop

/-- Wherever the membership in a list remains, an equality with a value remains as well, or the
pattern that it becomes where case is disregarded. -/
lemma eq_mem_of_mem (hx : x.isNull = false) (ht : r.settle ⟨path, .isIn, vs⟩ = .ok t)
    (hu : r.settle ⟨path, .eq, [x]⟩ = .ok u) {d : Condition} (hd : d ∈ t.conditions) :
    ⟨d.property, .eq, [x]⟩ ∈ u.conditions ∨ ∃ s, x = .text s ∧
      ⟨d.property, .ilike, [.text (escapeLike s)]⟩ ∈ u.conditions := by
  have hspreads : r.Spreads path d.property :=
    ((Stage.mem_settle_iff ht).mp hd).spreads (.inl (Nat.zero_le 6))
  have hequates : Condition.Equates ⟨path, .eq, [x]⟩ :=
    ⟨.inr ⟨rfl, x, rfl⟩, List.forall_mem_singleton.mpr hx⟩
  rcases Stage.exists_reaches_of_spreads hspreads hequates rfl ⟨u, hu⟩ with
    hreach | ⟨-, s, -, hvs, hreach⟩
  · exact .inl ((Stage.mem_settle_iff hu).mpr hreach)
  · exact .inr ⟨s, (List.cons.inj hvs).1, (Stage.mem_settle_iff hu).mpr hreach⟩

end Registry

end EntityQuery
