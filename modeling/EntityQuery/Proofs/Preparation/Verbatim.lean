import EntityQuery.Proofs.Preparation.Plain
import EntityQuery.Proofs.Preparation.Preserved

/-!
# Text that is taken verbatim

An escaped text is a pattern for this text alone, and between percent signs one for the texts that
it occurs in. Comparisons with a text that disregard case, and containments of a text, come down to
such patterns. So nothing has a meaning of its own in a text that is compared with.
-/

namespace EntityQuery

/-! ### Patterns for texts -/

/-- A text is another one, or the same up to the case of ASCII letters if so wanted. -/
def IsText (ignoreCase : Bool) (s t : String) : Prop :=
  if ignoreCase then t.toList.map Char.toLower = s.toList.map Char.toLower else t = s

/-- Some part of a text is another one. -/
def HasText (ignoreCase : Bool) (s t : String) : Prop :=
  ∃ part : String, part.toList <:+: t.toList ∧ IsText ignoreCase s part

/-- A pattern that is accepted and can be read, and matches the texts that pass a test. -/
def LikePattern.Matches (pattern : String) (ignoreCase : Bool) (test : String → Prop) : Prop :=
  checkPattern pattern = .ok () ∧ ∃ p, compile pattern ignoreCase = .ok p ∧
    ∀ t, p.accepts t = true ↔ test t

section Patterns

variable {ignoreCase : Bool} {pattern : String} {ps : List PatternPiece}

lemma isText_iff_folded {s t : String} : IsText ignoreCase s t ↔
    Pattern.folded ignoreCase t.toList = Pattern.folded ignoreCase s.toList := by
  cases ignoreCase <;> simp [IsText, Pattern.folded, String.toList_inj]

lemma sameText_eq_true_iff {s t : String} :
    sameText ignoreCase s t = true ↔ IsText ignoreCase s t := by
  rw [sameText, decide_eq_true_iff, isText_iff_folded]

lemma occursIn_eq_true_iff {s t : String} :
    occursIn ignoreCase s t = true ↔ HasText ignoreCase s t := by
  rw [occursIn, decide_eq_true_iff, Pattern.folded_infix_iff]
  constructor
  · rintro ⟨before, part, after, ht, hpart⟩
    refine ⟨String.ofList part, ⟨before, after, ?_⟩, ?_⟩
    · rw [String.toList_ofList, ht, List.append_assoc]
    · rwa [isText_iff_folded, String.toList_ofList]
  · rintro ⟨part, ⟨before, after, ht⟩, hpart⟩
    exact ⟨before, part.toList, after, by rw [← ht, List.append_assoc], isText_iff_folded.mp hpart⟩

lemma LikePattern.matches_of_pieces {test : String → Prop}
    (h : Pattern.pieces? pattern.toList = some ps)
    (htest : ∀ t, patternSpells ignoreCase pattern t = true ↔ test t) :
    Matches pattern ignoreCase test := by
  refine ⟨by rw [checkPattern, h], ⟨ps, ignoreCase⟩, by rw [compile, h], fun t => ?_⟩
  rw [← htest, accepts, Pattern.describes_eq_spells, patternSpells, h, Option.any_some]

/-- An escaped text is the pattern for itself. -/
lemma LikePattern.matches_escapeLike (ignoreCase : Bool) (s : String) :
    Matches (escapeLike s) ignoreCase (IsText ignoreCase s) := by
  have hpieces := Pattern.pieces?_escapePattern_append s.toList []
  rw [List.append_nil] at hpieces
  refine matches_of_pieces (by rw [escapeLike, String.toList_ofList, hpieces]; rfl) fun t => ?_
  rw [patternSpells_escapeLike, sameText_eq_true_iff]

/-- Between percent signs it is the pattern for the texts that have it for a part. -/
lemma LikePattern.matches_containsPattern (ignoreCase : Bool) (s : String) :
    Matches (Rule.containsPattern s) ignoreCase (HasText ignoreCase s) := by
  have hpieces := Pattern.pieces?_escapePattern_append s.toList ['%']
  have hlist : (Rule.containsPattern s).toList = '%' :: (escapePattern s.toList ++ ['%']) := by
    simp [Rule.containsPattern, escapeLike]
  refine matches_of_pieces (by rw [hlist, Pattern.pieces?, hpieces]; rfl) fun t => ?_
  rw [Rule.patternSpells_containsPattern, occursIn_eq_true_iff]

end Patterns

variable {r : Registry} {path : PropertyPath} {ignoreCase : Bool}

/-! ### Conditions that become patterns -/

/-- What an equality with a text becomes where case is disregarded: a pattern, with a test for
absence before it if the text is empty. -/
def Condition.alternatives (path : PropertyPath) (s : String) : List Condition :=
  (if s = "" then [⟨path, .isNull, []⟩] else []) ++ [⟨path, .ilike, [.text (escapeLike s)]⟩]

namespace Stage

variable {operator : Operator} {s : String} {depth start n : Nat} {c : Condition}
  {p : Predicate Condition}

lemma settle_of_none (h : firstChange c start ((all r).drop start) = .ok none)
    (hcheck : c.check = .ok ()) :
    settle (all r) Condition.check (depth + 1) start c = .ok (.cond c) := by
  simp [settle, h, hcheck, Except.map]

lemma settle_of_some (h : firstChange c start ((all r).drop start) = .ok (some (n, p))) :
    settle (all r) Condition.check (depth + 1) start c =
      p.mapM fun d => settle (all r) Condition.check depth (if d == c then n + 1 else 0) d := by
  simp [settle, h]

lemma beq_self_of_text :
    ((⟨path, operator, [.text s]⟩ : Condition) == ⟨path, operator, [.text s]⟩) = true := by
  simp [BEq.beq, Condition.beq, Value.beqAll, Value.beq]

/-- What no rule changes is left to the translator. -/
lemma firstChange_of_rules (hrules : ∀ f ∈ Rule.all, f c = none) :
    firstChange c 0 (all r) = firstChange c 6 [translator r] := by
  rw [firstChange_all, Rule.change_eq_none hrules]

lemma firstChange_eq_none (hrules : ∀ f ∈ Rule.all, f c = none)
    (h : (translator r).Leaves c) : firstChange c 0 (all r) = .ok none := by
  rw [firstChange_of_rules hrules]
  rcases h with h | ⟨p, h, hp⟩
  · simp [firstChange, h]
  · simp [firstChange, h, hp]

lemma leaves_of_disregardCase (ht : TranslatesCase r path ignoreCase) (hc : c.property = path)
    (hsame : ignoreCase = true → Translator.disregardCase c = c ∧ (c == c) = true) :
    (translator r).Leaves c := by
  have htranslate := ht c hc
  cases ignoreCase with
  | false => exact .inl htranslate
  | true =>
    obtain ⟨heq, hself⟩ := hsame rfl
    rw [if_pos rfl, heq] at htranslate
    exact .inr ⟨.cond c, htranslate, hself⟩

variable (ht : TranslatesCase r path ignoreCase) (hk : path.kind = .text)
include ht hk

/-- A pattern stays as it is once no case is left to be disregarded. -/
lemma settle_pattern {i : Bool} (hi : ignoreCase = true → i = true) (hp : checkPattern s = .ok ()) :
    settle (all r) Condition.check (depth + 1) 0 ⟨path, if i then .ilike else .like, [.text s]⟩ =
      .ok (.cond ⟨path, if i then .ilike else .like, [.text s]⟩) := by
  refine settle_of_none (firstChange_eq_none (Rule.eq_none_of_isPattern ?_) ?_) ?_
  · cases i <;> rfl
  · refine leaves_of_disregardCase ht rfl fun h => ⟨?_, beq_self_of_text⟩
    rw [hi h]
    rfl
  · have hcheck : Condition.check ⟨path, if i then .ilike else .like, [.text s]⟩ = .ok () := by
      cases i <;> simp [Condition.check, Strategy.of?, hk, hp]
    exact hcheck

omit ht in
/-- What the translator turns into a pattern without case becomes this pattern, if the rules leave
it to the translator. -/
lemma settle_disregarded (ht : TranslatesCase r path true) (hc : c.property = path)
    (hrules : firstChange c start ((all r).drop start) = firstChange c 6 [translator r])
    (hop : c.operator ≠ .ilike)
    (hpattern : Translator.disregardCase c = ⟨path, .ilike, [.text s]⟩)
    (hp : checkPattern s = .ok ()) :
    settle (all r) Condition.check (depth + 2) start c = .ok (.cond ⟨path, .ilike, [.text s]⟩) := by
  have hfresh : ((⟨path, .ilike, [.text s]⟩ : Condition) == c) = false :=
    Rule.beq_eq_false_of_operator hop.symm
  have hchange : firstChange c start ((all r).drop start) =
      .ok (some (6, .cond ⟨path, .ilike, [.text s]⟩)) := by
    rw [hrules]
    simp [firstChange, ht c hc, hpattern, Predicate.beq_cond_eq, Predicate.isCond, hfresh]
  rw [settle_of_some hchange, Predicate.mapM, hfresh, if_neg (by decide)]
  exact settle_pattern (i := true) ht hk (fun _ => rfl) hp

omit ht in
/-- The containment of a text becomes a pattern first of all. -/
lemma settle_contains_eq (s : String) :
    settle (all r) Condition.check (depth + 1) 0 ⟨path, .contains, [.text s]⟩ =
      settle (all r) Condition.check depth 0 ⟨path, .like, [.text (Rule.containsPattern s)]⟩ := by
  have hfresh : ((⟨path, .like, [.text (Rule.containsPattern s)]⟩ : Condition) ==
      ⟨path, .contains, [.text s]⟩) = false := Rule.beq_eq_false_of_operator (by simp)
  have hchange : firstChange ⟨path, .contains, [.text s]⟩ 0 (all r) =
      .ok (some (4, .cond ⟨path, .like, [.text (Rule.containsPattern s)]⟩)) := by
    rw [firstChange_all]
    simp [Rule.change, Rule.all, Rule.absence, Rule.nullComparison, Rule.nullInList,
      Rule.containsList, Rule.textContains, Operator.takesList, Value.isNull, hk, Condition.text?,
      Value.text?, Condition.replace, Predicate.beq_cond_eq, Predicate.isCond, hfresh]
  rw [settle_of_some hchange, Predicate.mapM, hfresh, if_neg (by decide)]

/-- It remains one, without case if this is disregarded. -/
lemma settle_contains (s : String) :
    settle (all r) Condition.check (depth + 3) 0 ⟨path, .contains, [.text s]⟩ =
      .ok (.cond
        ⟨path, if ignoreCase then .ilike else .like, [.text (Rule.containsPattern s)]⟩) := by
  have hp := (LikePattern.matches_containsPattern false s).1
  rw [settle_contains_eq hk]
  cases hcase : ignoreCase with
  | false => exact settle_pattern (i := false) (hcase ▸ ht) hk (by simp) hp
  | true =>
    exact settle_disregarded hk (hcase ▸ ht) rfl
      (firstChange_of_rules (Rule.eq_none_of_isPattern rfl)) (by simp) rfl hp

lemma settle_isNull : settle (all r) Condition.check (depth + 1) 0 ⟨path, .isNull, []⟩ =
    .ok (.cond ⟨path, .isNull, []⟩) := by
  refine settle_of_none (firstChange_eq_none ?_ ?_) ?_
  · simp [Rule.all, Rule.absence, Rule.nullComparison, Rule.nullInList, Rule.containsList,
      Rule.textContains, Rule.emptyText, Operator.takesList, hk]
  · refine leaves_of_disregardCase ht rfl fun _ => ⟨rfl, ?_⟩
    simp [BEq.beq, Condition.beq, Value.beqAll]
  · simp [Condition.check, Strategy.of?, hk]

omit ht in
/-- An equality with the empty text becomes a test for absence, which starts again, beside a copy
that goes on behind the rules. -/
lemma settle_eq_empty (ht : TranslatesCase r path true) :
    settle (all r) Condition.check (depth + 3) 0 ⟨path, .eq, [.text ""]⟩ =
      .ok (.anyOf ((Condition.alternatives path "").map .cond)) := by
  have hself : ((⟨path, .eq, [.text ""]⟩ : Condition) == ⟨path, .eq, [.text ""]⟩) = true :=
    beq_self_of_text
  have hfresh : ((⟨path, .isNull, []⟩ : Condition) == ⟨path, .eq, [.text ""]⟩) = false :=
    Rule.beq_eq_false_of_operator (by simp)
  have hchange : firstChange ⟨path, .eq, [.text ""]⟩ 0 (all r) =
      .ok (some (5, .anyOf [.cond ⟨path, .isNull, []⟩, .cond ⟨path, .eq, [.text ""]⟩])) := by
    rw [firstChange_all]
    simp [Rule.change, Rule.all, Rule.absence, Rule.nullComparison, Rule.nullInList,
      Rule.containsList, Rule.textContains, Rule.emptyText, Operator.takesList, hk,
      Condition.text?, Value.text?, Condition.replace, Predicate.beq_cond_eq]
    rfl
  have hnull : settle (all r) Condition.check (depth + 2) 0 ⟨path, .isNull, []⟩ =
      .ok (.cond ⟨path, .isNull, []⟩) := settle_isNull ht hk
  have hpattern : settle (all r) Condition.check (depth + 2) 6 ⟨path, .eq, [.text ""]⟩ =
      .ok (.cond ⟨path, .ilike, [.text (escapeLike "")]⟩) :=
    settle_disregarded hk ht rfl rfl (by simp) rfl (LikePattern.matches_escapeLike true "").1
  have hall : Predicate.mapAllM (fun d => settle (all r) Condition.check (depth + 2)
      (if d == ⟨path, .eq, [.text ""]⟩ then 5 + 1 else 0) d)
      [.cond ⟨path, .isNull, []⟩, .cond ⟨path, .eq, [.text ""]⟩] =
        .ok [.cond ⟨path, .isNull, []⟩, .cond ⟨path, .ilike, [.text (escapeLike "")]⟩] := by
    simp only [Predicate.mapAllM, Predicate.mapM, hfresh, hself, hnull, hpattern, if_true,
      Bool.false_eq_true, if_false, Except.map]
  rw [settle_of_some hchange]
  change (Predicate.or [.cond _, .cond _]).mapM _ = _
  rw [Predicate.mapM, hall]
  rfl

omit ht in
/-- An equality that disregards case becomes a pattern, beside a test for absence if it is with the
empty text. -/
lemma settle_eq (ht : TranslatesCase r path true) (s : String) :
    settle (all r) Condition.check (depth + 3) 0 ⟨path, .eq, [.text s]⟩ =
      .ok (.anyOf ((Condition.alternatives path s).map .cond)) := by
  by_cases hs : s = ""
  · exact hs ▸ settle_eq_empty hk ht
  · have hplain : Condition.Plain ⟨path, .eq, [.text s]⟩ (.text s) :=
      ⟨.inl rfl, rfl, rfl, fun _ h => hs (by simpa using h)⟩
    have hrules := firstChange_of_rules (r := r) fun f hf => hplain.rule_eq_none hf
    rw [Condition.alternatives, if_neg hs]
    exact settle_disregarded hk ht rfl hrules (by simp) rfl
      (LikePattern.matches_escapeLike true s).1

end Stage

/-! ### Patterns that are spread -/

/-- A comparison with a pattern, with or without case. -/
def Condition.IsLike (pattern : String) (c : Condition) : Prop :=
  (c.operator = .like ∨ c.operator = .ilike) ∧ c.operands = [.text pattern]

/-- A stage makes of a comparison with a pattern such comparisons only. -/
lemma Condition.IsLike.of_stage {s : String} {c d : Condition} {p : Predicate Condition}
    (h : c.IsLike s) {stage : Stage} (hstage : stage ∈ Stage.all r) (hp : stage c = .ok (some p))
    (hd : d ∈ p.conditions) : d.IsLike s := by
  obtain ⟨hop, hvs⟩ := h
  have hpattern : c.operator.isPattern = true := by
    rcases hop with hop | hop <;> rw [hop] <;> rfl
  simp only [Stage.all, List.mem_append, List.mem_map, List.mem_singleton] at hstage
  rcases hstage with ⟨f, hf, rfl⟩ | rfl
  · have hnone := Rule.eq_none_of_isPattern hpattern f hf
    cases hnone.symm.trans (Except.ok.inj hp)
  · obtain ⟨declaration, t, -, -, htranslate⟩ := Stage.translator_eq_some hp
    rcases Translator.of_mem_translate htranslate hd with ⟨-, rfl⟩ | ⟨-, -, -, -, path, -, rfl⟩
    · have htext : c.text? = some s := by rw [text?, hvs]; rfl
      rcases hop with hop | hop <;>
        simp [Translator.disregardCase, IsLike, Condition.replace, hop, htext, hvs]
    · exact ⟨hop, hvs⟩

/-- **What remains of a containment**, on whatever properties a property stands for, are comparisons
with the pattern. -/
theorem Registry.isLike_of_settle {s : String} {t : Predicate Condition} (hk : path.kind = .text)
    (h : r.settle ⟨path, .contains, [.text s]⟩ = .ok t) :
    ∀ d ∈ t.conditions, d.IsLike (Rule.containsPattern s) ∧ d.check = .ok () := by
  rw [settle, maxRuleDepth, Stage.settle_contains_eq hk] at h
  exact Stage.of_mem_settle (fun stage hstage c p hc hp d hd => hc.of_stage hstage hp hd) h
    ⟨.inl rfl, rfl⟩

/-! ### Values that are found -/

namespace Condition

variable {v : Value} {s : String}

/-- A pattern accepts the texts that it matches, and no other value. -/
lemma acceptsValue_pattern {test : String → Prop} (hk : path.kind = .text)
    (h : LikePattern.Matches s ignoreCase test) :
    acceptsValue v ⟨path, if ignoreCase then .ilike else .like, [.text s]⟩ = true ↔
      ∃ t, v = .text t ∧ test t := by
  obtain ⟨-, p, hp, htest⟩ := h
  have hmatcher : matcher ⟨path, if ignoreCase then .ilike else .like, [.text s]⟩ =
      .ok ⟨.pattern ignoreCase false, [.text s], some p⟩ := by
    have hof : Strategy.of? (if ignoreCase then .ilike else .like) .text =
        some (.pattern ignoreCase false) := by cases ignoreCase <;> rfl
    simp [matcher, Strategy.require, hk, hof, Matcher.make, Matcher.make.bind,
      Strategy.operandCount?, Value.text?, hp, Except.map]
  rw [acceptsValue, hmatcher]
  cases v with
  | text t => simpa [Matcher.accepts, Value.text?] using htest t
  | _ => simp [Matcher.accepts, Value.text?]

/-- A comparison with a pattern for the texts that another one occurs in accepts these. -/
lemma IsLike.acceptsValue_iff {c : Condition} (hc : c.IsLike (Rule.containsPattern s))
    (hcheck : c.check = .ok ()) : c.acceptsValue v = true ↔
      ∃ t, v = .text t ∧ HasText (c.operator == .ilike) s t := by
  obtain ⟨path, operator, operands⟩ := c
  obtain ⟨hop, rfl⟩ := hc
  obtain ⟨strategy, hs⟩ := exists_strategy_of_check hcheck
  have hkind : path.kind = .text := by
    rcases hop with rfl | rfl <;> revert hs <;> cases path.kind <;> simp [Strategy.of?]
  have haccepts (ignoreCase : Bool) := acceptsValue_pattern (v := v) hkind
    (LikePattern.matches_containsPattern ignoreCase s)
  rcases hop with rfl | rfl
  · exact haccepts false
  · exact haccepts true

lemma acceptsValue_isNull (hk : path.kind = .text) :
    acceptsValue v ⟨path, .isNull, []⟩ = true ↔ v = .null := by
  have hmatcher : matcher ⟨path, .isNull, []⟩ = .ok ⟨.nullness false, [], none⟩ := by
    simp [matcher, Strategy.require, Strategy.of?, hk, Matcher.make, Matcher.make.bind,
      Strategy.operandCount?]
  rw [acceptsValue, hmatcher]
  cases v <;> simp [Matcher.accepts, Value.isNull]

lemma property_of_mem_alternatives : ∀ d ∈ alternatives path s, d.property = path := by
  by_cases hs : s = "" <;> simp [alternatives, hs]

/-- The alternatives of an equality accept the text, and the absence of one if it is empty. -/
lemma exists_mem_alternatives (hk : path.kind = .text) :
    (∃ d ∈ alternatives path s, d.acceptsValue v = true) ↔
      (∃ t, v = .text t ∧ IsText true s t) ∨ s = "" ∧ v = .null := by
  have hpattern := acceptsValue_pattern (v := v) hk
    (LikePattern.matches_escapeLike true s)
  rw [if_pos rfl] at hpattern
  have hnull := acceptsValue_isNull (v := v) hk
  by_cases hs : s = ""
  · rw [← hpattern, ← hnull]
    simp [alternatives, hs, or_comm]
  · rw [← hpattern]
    simp [alternatives, hs]

end Condition

/-- The values that an expression reads at the ends of a path: null where one is missing. -/
def valuesRead {ι : Type} [Instance ι] (i : ι) (path : PropertyPath) : List Value :=
  (Instance.ends (some i) path.parents).map (Instance.read · path.leaf.name)

/-- A condition is prepared, and can be run over a list of instances and as an expression. Either
way it holds of an instance if some value at the end of a path passes a test. -/
def RawCondition.Searches (ι : Type) [Instance ι] (r : Registry) (context : QueryContext)
    (entity : String) (c : RawCondition) (path : PropertyPath) (test : Value → Prop) : Prop :=
  ∃ t f b, RawQuery.prepare r context entity (.of (.cond c)) = .ok (.of t) ∧
    Filter.compile t = .ok f ∧ BooleanExpression.ofPredicate t = .ok b ∧
    ∀ i : ι, (f.accepts i = true ↔ ∃ v ∈ valuesAt i path, test v) ∧
      (b.evaluate i = true ↔ ∃ v ∈ valuesRead i path, test v)

section Searches

variable {ι : Type} [Instance ι] {context : QueryContext} {entity text s : String} {q : Resolved}
  {c : RawCondition} {test : Value → Prop}

/-- The values that a prepared condition accepts decide about both ways of running it. -/
lemma Condition.Prepared.found_and_stated_iff {c : Condition} (h : c.Prepared r entity) (i : ι) :
    (c.found i = true ↔ ∃ v ∈ valuesAt i c.property, c.acceptsValue v = true) ∧
      (c.stated i = true ↔ ∃ v ∈ valuesRead i c.property, c.acceptsValue v = true) := by
  obtain ⟨m, b, hm, -, -, hb, heval⟩ := Condition.exists_matcher (ι := ι) h
  have haccepts : ∀ v, c.acceptsValue v = m.accepts v := fun v => by rw [acceptsValue, hm]
  constructor
  · simp only [found_eq hm, List.any_eq_true, haccepts]
  · simp [stated, hb, heval, ends, valuesRead, haccepts]

/-- The alternatives that a condition is prepared as search for the values that one of them
accepts. -/
lemma RawCondition.searches_of_prepare (cs : List Condition)
    (hp : RawQuery.prepare r context entity (.of (.cond c)) = .ok (.of (.anyOf (cs.map .cond))))
    (hpath : ∀ d ∈ cs, d.property = path)
    (htest : ∀ v, (∃ d ∈ cs, d.acceptsValue v = true) ↔ test v) :
    c.Searches ι r context entity path test := by
  have hprepared : ∀ d ∈ (Predicate.anyOf (cs.map .cond)).conditions, d.Prepared r entity :=
    RawQuery.prepared_of_prepare hp rfl
  obtain ⟨f, hf, haccepts⟩ := Filter.exists_compile (ι := ι) fun d hd => by
    obtain ⟨m, -, hm, -⟩ := Condition.exists_matcher (ι := ι) (hprepared d hd)
    exact ⟨m, hm⟩
  obtain ⟨b, hb, heval⟩ := BooleanExpression.exists_ofPredicate (ι := ι) fun d hd => by
    obtain ⟨-, b, -, -, -, hb, -⟩ := Condition.exists_matcher (ι := ι) (hprepared d hd)
    exact ⟨b, hb⟩
  have hdecided : ∀ d ∈ cs, ∀ i : ι, _ := fun d hd i => by
    refine (hprepared d ?_).found_and_stated_iff i
    rw [Predicate.conditions_anyOf, List.flatMap_map]
    exact List.mem_flatMap.mpr ⟨d, hd, by simp⟩
  -- whatever values are searched, some alternative accepts one if one passes the test
  have hany : ∀ (g : Condition → Bool) (values : PropertyPath → List Value),
      (∀ d ∈ cs, g d = true ↔ ∃ v ∈ values d.property, d.acceptsValue v = true) →
        ((Predicate.anyOf (cs.map .cond)).holds g = true ↔ ∃ v ∈ values path, test v) := by
    intro g values hg
    rw [Predicate.holds_anyOf, List.any_map, List.any_eq_true]
    constructor
    · rintro ⟨d, hd, hgd⟩
      obtain ⟨v, hv, hd'⟩ := (hg d hd).mp (by simpa using hgd)
      exact ⟨v, hpath d hd ▸ hv, (htest v).mp ⟨d, hd, hd'⟩⟩
    · rintro ⟨v, hv, hpass⟩
      obtain ⟨d, hd, hd'⟩ := (htest v).mpr hpass
      exact ⟨d, hd, by simpa using (hg d hd).mpr ⟨v, (hpath d hd).symm ▸ hv, hd'⟩⟩
  refine ⟨_, f, b, hp, hf, hb, fun i => ⟨?_, ?_⟩⟩
  · rw [haccepts]
    exact hany _ (valuesAt i) fun d hd => (hdecided d hd i).1
  · rw [heval]
    exact hany _ (valuesRead i) fun d hd => (hdecided d hd i).2

/-- A text that a text property is compared with stays as it is. -/
lemma Registry.operandsOf_text {operator : Operator} (hk : path.kind = .text)
    (binary : operator.isUnary = false) :
    r.operandsOf context path ⟨text, operator, some (.string s)⟩ = .ok [.text s] := by
  have htype : path.type = .text := by
    rw [PropertyPath.kind] at hk
    rw [PropertyPath.type]
    cases h : path.leaf.type <;> rw [h] at hk <;> first | rfl | cases hk
  rw [operandsOf_single binary (by simp), coerce, htype, convert_text]
  rfl

/-- A comparison of a text property with a text is prepared as what becomes of it. -/
lemma RawQuery.prepare_text {operator : Operator} {t : Predicate Condition}
    (hq : r.resolve entity text = .ok q) (hk : q.path.kind = .text)
    (binary : operator.isUnary = false) :
    RawQuery.prepare r context entity (.of (.cond ⟨text, operator, some (.string s)⟩)) =
      .ok (.of t) ↔ r.settle ⟨q.path, operator, [.text s]⟩ = .ok t := by
  cases he : r.entity? entity with
  | none => simp [Registry.resolve, he] at hq
  | some e =>
    have hpath : r.pathOf e text = .ok q.path := by
      simp [Registry.pathOf, Registry.entity?_name he, hq]
    have hvs : r.operandsOf context q.path ⟨text, operator, some (.string s)⟩ = .ok [.text s] :=
      Registry.operandsOf_text hk binary
    rw [prepare_cond_eq_ok]
    constructor
    · rintro ⟨e', path, vs, t', he', hpath', hvs', hsettle, ht⟩
      obtain rfl := Option.some.inj (he.symm.trans he')
      obtain rfl := Except.ok.inj (hpath.symm.trans hpath')
      obtain rfl := Except.ok.inj (hvs.symm.trans hvs')
      cases ht
      exact hsettle
    · exact fun hsettle => ⟨e, q.path, _, t, he, hpath, hvs, hsettle, rfl⟩

/-- **Text is taken verbatim.** An escaped text is a pattern for the text alone, and between percent
signs for the texts that it occurs in, up to the case of letters if that is disregarded. The
containment of a text comes down to such patterns, whatever other properties the property stands
for. If it stands for none, the texts that contain the text are found; and where case is
disregarded, an equality finds those that are the text, and null if this is empty. -/
theorem RawQuery.text_verbatim (s : String) :
    (∀ ignoreCase, LikePattern.Matches (escapeLike s) ignoreCase (IsText ignoreCase s) ∧
      LikePattern.Matches (Rule.containsPattern s) ignoreCase (HasText ignoreCase s)) ∧
    ∀ {r : Registry} (context : QueryContext) {entity text : String} {q : Resolved},
      r.resolve entity text = .ok q → q.path.kind = .text →
      (∀ t, RawQuery.prepare r context entity
          (.of (.cond ⟨text, .contains, some (.string s)⟩)) = .ok (.of t) →
        ∀ d ∈ t.conditions, d.IsLike (Rule.containsPattern s) ∧
          ∀ v, d.acceptsValue v = true ↔ ∃ t, v = .text t ∧ HasText (d.operator == .ilike) s t) ∧
      ∀ {ι : Type} [Instance ι] (ignoreCase : Bool),
        q.definition.translator? = (if ignoreCase then some .ignoreCase else none) →
        RawCondition.Searches ι r context entity ⟨text, .contains, some (.string s)⟩ q.path
          (fun v => ∃ t, v = .text t ∧ HasText ignoreCase s t) ∧
        (ignoreCase = true →
          RawCondition.Searches ι r context entity ⟨text, .eq, some (.string s)⟩ q.path
            fun v => (∃ t, v = .text t ∧ IsText true s t) ∨ s = "" ∧ v = .null) := by
  refine ⟨fun ignoreCase =>
    ⟨LikePattern.matches_escapeLike ignoreCase s,
      LikePattern.matches_containsPattern ignoreCase s⟩, ?_⟩
  intro r context entity text q hq hk
  refine ⟨fun t hp d hd => ?_, fun {ι} _ ignoreCase htranslator => ?_⟩
  · obtain ⟨hlike, hcheck⟩ :=
      Registry.isLike_of_settle hk ((prepare_text hq hk rfl).mp hp) d hd
    exact ⟨hlike, fun v => hlike.acceptsValue_iff hcheck⟩
  obtain ⟨-, hdeclared⟩ := Registry.admits_of_resolve hq
  have ht := Stage.translatesCase_of_declares hdeclared htranslator
  constructor
  · let found : Condition :=
      ⟨q.path, if ignoreCase then .ilike else .like, [.text (Rule.containsPattern s)]⟩
    have hsettle : r.settle ⟨q.path, .contains, [.text s]⟩ = .ok (.anyOf ([found].map .cond)) :=
      Stage.settle_contains ht hk s
    refine RawCondition.searches_of_prepare [found] ((prepare_text hq hk rfl).mpr hsettle)
      (by simp [found]) fun v => ?_
    simp only [List.mem_singleton, exists_eq_left]
    exact Condition.acceptsValue_pattern hk (LikePattern.matches_containsPattern ignoreCase s)
  · rintro rfl
    have hsettle : r.settle ⟨q.path, .eq, [.text s]⟩ =
        .ok (.anyOf ((Condition.alternatives q.path s).map .cond)) := Stage.settle_eq hk ht s
    exact RawCondition.searches_of_prepare _ ((prepare_text hq hk rfl).mpr hsettle)
      Condition.property_of_mem_alternatives fun v => Condition.exists_mem_alternatives hk

end Searches

open Staff in
/-- Among two representatives, one without a boss and one whose boss is called Ann, a percent sign
is in no name of a boss, and an equality in other letters finds the second one. -/
theorem RawQuery.text_verbatim_bosses :
    (registry (some .ignoreCase)).resolve "Representative" "boss.name" =
        .ok ⟨nameOfBoss, ⟨"name", .text, true, some .ignoreCase⟩⟩ ∧ nameOfBoss.kind = .text ∧
      (∃ t f b, RawQuery.prepare (registry (some .ignoreCase)) Staff.context "Representative"
          (.of (.cond ⟨"boss.name", .contains, some (.string "%")⟩)) = .ok (.of t) ∧
        Filter.compile t = .ok f ∧ BooleanExpression.ofPredicate t = .ok b ∧
        ∀ i ∈ [john, joe], ¬ f.accepts i = true ∧ ¬ b.evaluate i = true) ∧
      ∃ t f b, RawQuery.prepare (registry (some .ignoreCase)) Staff.context "Representative"
          (.of (.cond ⟨"boss.name", .eq, some (.string "aNN")⟩)) = .ok (.of t) ∧
        Filter.compile t = .ok f ∧ BooleanExpression.ofPredicate t = .ok b ∧
        f.accepts joe = true ∧ b.evaluate joe = true ∧ ¬ f.accepts john = true := by
  have hresolve : (registry (some .ignoreCase)).resolve "Representative" "boss.name" =
      .ok ⟨nameOfBoss, ⟨"name", .text, true, some .ignoreCase⟩⟩ := rfl
  obtain ⟨-, hverbatim⟩ := RawQuery.text_verbatim "%"
  obtain ⟨t, f, b, hp, hf, hb, hfound⟩ :=
    ((hverbatim Staff.context hresolve rfl).2 (ι := Staff) true rfl).1
  obtain ⟨-, hverbatim'⟩ := RawQuery.text_verbatim "aNN"
  obtain ⟨t', f', b', hp', hf', hb', hfound'⟩ :=
    ((hverbatim' Staff.context hresolve rfl).2 (ι := Staff) true rfl).2 rfl
  have hvalues : (valuesAt john nameOfBoss = [.null] ∧ valuesRead john nameOfBoss = [.null]) ∧
      valuesAt joe nameOfBoss = [.text "Ann"] ∧ valuesRead joe nameOfBoss = [.text "Ann"] :=
    ⟨⟨rfl, rfl⟩, rfl, rfl⟩
  have hpercent : ¬ HasText true "%" "Ann" := by
    rw [← occursIn_eq_true_iff]
    decide
  have hann : IsText true "aNN" "Ann" := by
    rw [← sameText_eq_true_iff]
    decide
  refine ⟨hresolve, rfl, ⟨t, f, b, hp, hf, hb, fun i hi => ?_⟩, t', f', b', hp', hf', hb', ?_, ?_,
    ?_⟩
  · rw [(hfound i).1, (hfound i).2]
    rcases List.mem_pair.mp hi with rfl | rfl <;> simp [hvalues, hpercent]
  · simp [(hfound' joe).1, hvalues, hann]
  · simp [(hfound' joe).2, hvalues, hann]
  · simp [(hfound' john).1, hvalues]

end EntityQuery
