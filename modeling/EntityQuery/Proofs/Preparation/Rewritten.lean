import EntityQuery.Proofs.Preparation.Meaning

/-!
# Rules keep the meaning

A rule takes a condition apart without changing what it says about a value. One rule leaves a copy
of its condition behind: the empty text stands for absence as well, and once that has been said, the
copy is about the empty text only. So a condition that this rule has passed is read without it.
-/

namespace EntityQuery

variable {r : Registry}

/-- The meaning without what the empty text says about absence. -/
def Condition.meaningPast (ignoreCase : Bool) (v : Value) (c : Condition) : Bool :=
  if c.operator = .eq then
    (c.operands.headD .null).isNull && v.isAbsent || v.equals ignoreCase (c.operands.headD .null)
  else c.meaning ignoreCase v

/-! ### Rules -/

namespace Rule

open Condition

variable {path : PropertyPath} {ignoreCase : Bool} {v : Value} {c d : Condition}
  {p : Predicate Condition}

/-- What a rule makes of a condition means the same, and the condition does not recur in it. -/
structure Keeps (path : PropertyPath) (ignoreCase : Bool) (v : Value) (c : Condition)
    (p : Predicate Condition) : Prop where
  suited : ∀ d ∈ p.conditions, d.Suited path
  fresh : ∀ d ∈ p.conditions, (d == c) = false
  meaning : p.holds (Condition.meaning ignoreCase v) = c.meaning ignoreCase v

lemma beq_eq_false_of_operator (h : d.operator ≠ c.operator) : (d == c) = false := by
  simp [BEq.beq, Condition.beq, h]

lemma length_eq_of_beqAll {vs ws : List Value} (h : Value.beqAll vs ws = true) :
    vs.length = ws.length := by
  induction vs generalizing ws with
  | nil => cases ws <;> simp_all [Value.beqAll]
  | cons v vs ih =>
    cases ws with
    | nil => simp [Value.beqAll] at h
    | cons w ws =>
      simp only [Value.beqAll, Bool.and_eq_true] at h
      simp [ih h.2]

lemma beq_eq_false_of_length (h : d.operands.length ≠ c.operands.length) : (d == c) = false := by
  cases hvs : Value.beqAll d.operands c.operands with
  | true => exact absurd (length_eq_of_beqAll hvs) h
  | false => simp [BEq.beq, Condition.beq, hvs]

lemma keeps_cond {e : Condition} (suited : e.Suited path) (fresh : (e == c) = false)
    (meaning : e.meaning ignoreCase v = c.meaning ignoreCase v) :
    Keeps path ignoreCase v c (.cond e) :=
  ⟨by simpa using suited, by simpa using fresh, by simpa using meaning⟩

lemma suited_replace_nil {operator : Operator} (hc : c.Suited path)
    (h : operator.isUnary = true) : (c.replace operator []).Suited path where
  property := hc.property
  unary _ := rfl
  single hu := absurd (h.symm.trans hu) (by decide)
  some hl := by
    cases operator <;> simp_all [Condition.replace, Operator.isUnary, Operator.acceptsList]
  typed s hs := by simp [Condition.replace] at hs

/-- Emptiness and absence of one property are the same. -/
lemma keeps_absence (hc : c.Suited path) (h : absence c = some p) :
    Keeps path ignoreCase v c p := by
  unfold absence at h
  split at h <;> simp only [Option.some.injEq, reduceCtorEq] at h <;> subst h <;>
    rename_i hop hk
  all_goals
    refine keeps_cond (suited_replace_nil hc rfl) (beq_eq_false_of_operator ?_) ?_
    · simp_all [Condition.replace]
    · simp_all [Condition.replace, Condition.meaning]

/-- Comparison with null is a test for absence. -/
lemma keeps_nullComparison (hc : c.Suited path) (h : nullComparison c = some p) :
    Keeps path ignoreCase v c p := by
  unfold nullComparison at h
  split at h <;> simp only [Option.some.injEq, reduceCtorEq] at h <;> subst h <;>
    rename_i hop hvs
  all_goals
    refine keeps_cond (suited_replace_nil hc rfl) (beq_eq_false_of_operator ?_) ?_
    · simp [Condition.replace, hop]
    · simp [Condition.replace, Condition.meaning, Condition.namesAbsence, hop, hvs]

lemma keeps_anyOf (ds : List Condition) (h : ∀ d ∈ ds, d.Suited path ∧ (d == c) = false)
    (meaning : ds.any (Condition.meaning ignoreCase v) = c.meaning ignoreCase v) :
    Keeps path ignoreCase v c (.anyOf (ds.map .cond)) where
  suited d hd := (h d (by simpa using hd)).1
  fresh d hd := (h d (by simpa using hd)).2
  meaning := by
    rw [Predicate.holds_anyOf, List.any_map, ← meaning]
    exact congrArg (List.any ds) (funext fun d => Predicate.holds_cond _ d)

lemma keeps_allOf (ds : List Condition) (h : ∀ d ∈ ds, d.Suited path ∧ (d == c) = false)
    (meaning : ds.all (Condition.meaning ignoreCase v) = c.meaning ignoreCase v) :
    Keeps path ignoreCase v c (.allOf (ds.map .cond)) where
  suited d hd := (h d (by simpa using hd)).1
  fresh d hd := (h d (by simpa using hd)).2
  meaning := by
    rw [Predicate.holds_allOf, List.all_map, ← meaning]
    exact congrArg (List.all ds) (funext fun d => Predicate.holds_cond _ d)

lemma not_isUnary_of_acceptsList {operator : Operator} (h : operator.acceptsList = true) :
    operator.isUnary = false := by
  cases operator <;> simp_all [Operator.acceptsList, Operator.isUnary]

lemma suited_replace_list {vs : List Value} (hc : c.Suited path)
    (hop : c.operator.acceptsList = true) (hne : vs ≠ []) (hvs : ∀ x ∈ vs, x ∈ c.operands) :
    (c.replace c.operator vs).Suited path where
  property := hc.property
  unary hu := absurd ((not_isUnary_of_acceptsList hop).symm.trans hu) (by decide)
  single _ hl := absurd (hl.symm.trans hop) (by decide)
  some _ := hne
  typed s hs := hc.typed s (hvs _ hs)

/-- A test for absence in place of a condition that is none. -/
lemma unary_replace {operator : Operator} (hc : c.Suited path) (hu : operator.isUnary = true)
    (hop : c.operator.isUnary = false) :
    (c.replace operator []).Suited path ∧ (c.replace operator [] == c) = false := by
  refine ⟨suited_replace_nil hc hu, beq_eq_false_of_operator fun h => ?_⟩
  rw [← h] at hop
  exact absurd (hu.symm.trans hop) (by decide)

lemma any_notNull_filter (vs : List Value) (test : Value → Bool) :
    ((vs.filter fun x => !x.isNull).any fun x => !x.isNull && test x) =
      vs.any fun x => !x.isNull && test x := by
  rw [List.any_filter]
  exact congrArg (List.any vs) (funext fun x => by cases x.isNull <;> rfl)

/-- Null among the operands of a list is a test for absence of its own. -/
lemma keeps_nullInList (hc : c.Suited path) (h : nullInList c = some p) :
    Keeps path ignoreCase v c p := by
  simp only [nullInList] at h
  split at h
  · rename_i hcond
    obtain ⟨htakes, hnull⟩ := Bool.and_eq_true_iff.mp hcond
    have hop : c.operator = .isIn ∨ c.operator = .notIn := by
      revert htakes
      cases c.operator <;> simp [Operator.takesList]
    have haccepts : c.operator.acceptsList = true := by
      rcases hop with hop | hop <;> rw [hop] <;> rfl
    have hunary := not_isUnary_of_acceptsList haccepts
    have hsome := any_notNull_filter c.operands
    have hnone : (c.operands.filter fun x => !x.isNull).any Value.isNull = false := by simp
    have hmem : ∀ x ∈ c.operands.filter fun x => !x.isNull, x ∈ c.operands :=
      fun x hx => List.mem_of_mem_filter hx
    -- the list without its nulls is shorter
    have hshorter : (c.operands.filter fun x => !x.isNull).length ≠ c.operands.length := by
      rw [Ne, List.length_filter_eq_length_iff]
      obtain ⟨w, hw, hwnull⟩ := List.any_eq_true.mp hnull
      exact fun hall => by simpa [hwnull] using hall w hw
    revert h hsome hnone hmem hshorter
    generalize (c.operands.filter fun x => !x.isNull) = values
    intro h hsome hnone hmem hshorter
    cases values with
    | nil =>
      have hfalse : ∀ test : Value → Bool,
          (c.operands.any fun x => !x.isNull && test x) = false := fun test => (hsome test).symm
      rcases hop with hop | hop <;> rw [hop] at h <;>
        simp only [List.isEmpty_nil, if_true, reduceCtorEq, beq_iff_eq, if_false, beq_self_eq_true,
          Option.some.injEq] at h <;> subst h
      · refine keeps_anyOf [c.replace .isNull []] ?_ ?_
        · simpa using unary_replace hc rfl hunary
        · simp [Condition.meaning, Condition.replace, hop, hnull, hfalse]
      · refine keeps_allOf [c.replace .isNotNull []] ?_ ?_
        · simpa using unary_replace hc rfl hunary
        · simp [Condition.meaning, Condition.replace, hop, hfalse]
    | cons w ws =>
      have hlist := suited_replace_list hc haccepts (List.cons_ne_nil w ws) hmem
      have hfresh := beq_eq_false_of_length (d := c.replace c.operator (w :: ws)) hshorter
      rcases hop with hop | hop <;> rw [hop] at h hlist hfresh <;>
        simp only [List.isEmpty_cons, Bool.false_eq_true, if_false, reduceCtorEq, beq_iff_eq,
          beq_self_eq_true, if_true, Option.some.injEq] at h <;> subst h
      · refine keeps_anyOf [c.replace .isNull [], c.replace .isIn (w :: ws)] ?_ ?_
        · simpa using ⟨unary_replace hc rfl hunary, hlist, hfresh⟩
        · simp [Condition.meaning, Condition.replace, hop, hnull, hnone, hsome]
      · refine keeps_allOf [c.replace .isNotNull [], c.replace .notIn (w :: ws)] ?_ ?_
        · simpa using ⟨unary_replace hc rfl hunary, hlist, hfresh⟩
        · simp [Condition.meaning, Condition.replace, hop, hsome]
  · cases h

/-- The condition that one operand of `contains` becomes. -/
def part (c : Condition) (x : Value) : Condition :=
  if x.isNull then c.replace (if c.operator == .notContains then .isNotEmpty else .isEmpty) []
  else c.replace c.operator [x]

lemma map_containsPart : c.operands.map (containsPart c) = (c.operands.map (part c)).map .cond := by
  rw [List.map_map]
  rfl

/-- Apart from a single value that is not null, a list is taken apart. -/
lemma operands_of_containsList (h : containsList c = some p) :
    (c.operator = .contains ∧ p = .anyOf ((c.operands.map (part c)).map .cond) ∨
      c.operator = .notContains ∧ p = .allOf ((c.operands.map (part c)).map .cond)) ∧
      ∀ x, c.operands = [x] → x.isNull = true := by
  unfold containsList at h
  extract_lets single at h
  rw [map_containsPart] at h
  have hsingle : single = false := by
    cases hs : single with
    | true => split at h <;> simp [hs] at h
    | false => rfl
  refine ⟨?_, fun x hx => by simpa [single, hx] using hsingle⟩
  rw [hsingle] at h
  split at h
  · rename_i hop
    exact .inl ⟨hop, (Option.some.inj h).symm⟩
  · rename_i hop
    exact .inr ⟨hop, (Option.some.inj h).symm⟩
  · cases h

/-- A part is a test for absence, or it has one operand where the list has several. -/
lemma suited_part (hc : c.Suited path) (haccepts : c.operator.acceptsList = true)
    (hsingle : ∀ x, c.operands = [x] → x.isNull = true) :
    ∀ d ∈ c.operands.map (part c), d.Suited path ∧ (d == c) = false := by
  have hunary := not_isUnary_of_acceptsList haccepts
  intro d hd
  obtain ⟨x, hx, rfl⟩ := List.mem_map.mp hd
  unfold part
  cases hnull : x.isNull with
  | true =>
    rw [if_pos rfl]
    split <;> exact unary_replace hc rfl hunary
  | false =>
    rw [if_neg (by decide)]
    refine ⟨suited_replace_list hc haccepts (by simp) (by simpa using hx),
      beq_eq_false_of_length fun hlen => ?_⟩
    obtain ⟨y, hy⟩ := List.length_eq_one_iff.mp hlen.symm
    rw [hy, List.mem_singleton] at hx
    exact absurd (hnull.symm.trans (hx ▸ hsingle y hy)) (by decide)

lemma meaning_part_contains (hop : c.operator = .contains) (x : Value) :
    (part c x).meaning ignoreCase v =
      (x.isNull && v.isAbsent || !x.isNull && v.includes ignoreCase x) := by
  unfold part
  cases hx : x.isNull <;> simp [Condition.meaning, Condition.replace, hop, hx]

lemma meaning_part_notContains (hop : c.operator = .notContains) (x : Value) :
    (part c x).meaning ignoreCase v =
      if x.isNull then !v.isAbsent
      else if c.property.kind = .collection then !v.isNull && !v.includes ignoreCase x
      else !v.isAbsent && !v.includes ignoreCase x := by
  unfold part
  cases hx : x.isNull <;> simp [Condition.meaning, Condition.replace, hop, hx]

lemma isNull_of_present {v : Value} (h : v.isAbsent = false) : v.isNull = false := by
  cases v <;> simp_all [Value.isAbsent, Value.isNull]

/-- `contains` with a list is about its values one by one. -/
lemma keeps_containsList (hc : c.Suited path) (h : containsList c = some p) :
    Keeps path ignoreCase v c p := by
  obtain ⟨⟨hop, rfl⟩ | ⟨hop, rfl⟩, hsingle⟩ := operands_of_containsList h
  · refine keeps_anyOf _ (suited_part hc (by rw [hop]; rfl) hsingle) ?_
    rw [List.any_map, Condition.meaning, hop]
    simp only [Function.comp_def, meaning_part_contains hop]
    induction c.operands with
    | nil => simp
    | cons x xs ih =>
      simp only [List.any_cons, ih]
      cases x.isNull <;> cases v.isAbsent <;> grind
  · refine keeps_allOf _ (suited_part hc (by rw [hop]; rfl) hsingle) ?_
    have hne := hc.some (by rw [hop]; rfl)
    rw [List.all_map, Condition.meaning, hop]
    simp only [Function.comp_def, meaning_part_notContains hop]
    revert hne
    generalize c.operands = xs
    intro hne
    by_cases hk : c.property.kind = .collection
    · simp only [hk, if_true]
      cases habsent : v.isAbsent with
      | true => 
        induction xs with
        | nil => exact absurd rfl hne
        | cons x xs ih => cases xs <;> grind
      | false =>
        have hnull := isNull_of_present habsent
        induction xs with
        | nil => exact absurd rfl hne
        | cons x xs ih => cases xs <;> grind
    · simp only [hk, if_false]
      induction xs with
      | nil => exact absurd rfl hne
      | cons x xs ih => cases xs <;> grind

lemma single_of_containsList_eq_none (h : containsList c = none)
    (hop : c.operator = .contains ∨ c.operator = .notContains) :
    ∃ x, c.operands = [x] ∧ x.isNull = false := by
  unfold containsList at h
  rcases hvs : c.operands with _ | ⟨x, _ | ⟨y, ys⟩⟩
  · rcases hop with hop | hop <;> simp [hop, hvs] at h
  · refine ⟨x, rfl, ?_⟩
    rcases hop with hop | hop <;> simpa [hop, hvs] using h
  · rcases hop with hop | hop <;> simp [hop, hvs] at h

lemma patternSpells_containsPattern (s t : String) :
    patternSpells ignoreCase (containsPattern s) t = occursIn ignoreCase s t := by
  have h := Pattern.pieces?_escapePattern_append s.toList ['%']
  have hlist : (containsPattern s).toList = '%' :: (escapePattern s.toList ++ ['%']) := by
    simp [containsPattern, escapeLike]
  rw [patternSpells, hlist, Pattern.pieces?, h]
  simpa [Pattern.pieces?, occursIn] using Pattern.spells_between_runs s.toList t.toList

lemma isLike_containsPattern (hv : v = .null ∨ ∃ t, v = .text t) (s : String) :
    v.isLike ignoreCase (.text (containsPattern s)) = v.includes ignoreCase (.text s) := by
  rcases hv with rfl | ⟨t, rfl⟩
  · rfl
  · exact patternSpells_containsPattern s t

lemma text?_of_single {x : Value} {s : String} (h : c.operands = [x]) (hs : c.text? = some s) :
    x = .text s := by
  cases x <;> simp_all [Condition.text?, Value.text?]

lemma suited_replace_text {operator : Operator} {s : String} (hc : c.Suited path)
    (hk : path.kind = .text ∨ path.kind = .collection) (hu : operator.isUnary = false)
    (hl : operator.acceptsList = false) : (c.replace operator [.text s]).Suited path where
  property := hc.property
  unary h := absurd (hu.symm.trans h) (by decide)
  single _ _ := ⟨_, rfl⟩
  some h := absurd (hl.symm.trans h) (by decide)
  typed _ _ := hk

/-- A text contains the texts that match between two runs of any characters. -/
lemma keeps_textContains (hc : c.Suited path) (hlist : containsList c = none)
    (hv : v.Fits r path.type) (h : textContains c = some p) :
    Keeps path ignoreCase v c p := by
  unfold textContains at h
  split at h <;> simp only [Option.some.injEq, reduceCtorEq] at h <;> subst h <;>
    rename_i s hk hop hs <;> rw [hc.property] at hk
  · obtain ⟨x, hx, -⟩ := single_of_containsList_eq_none hlist (.inl hop)
    obtain rfl := text?_of_single hx hs
    refine keeps_cond (suited_replace_text hc (.inl hk) rfl rfl)
      (beq_eq_false_of_operator (by simp [Condition.replace, hop])) ?_
    have htext :
        v.isLike ignoreCase (.text (containsPattern s)) = v.includes ignoreCase (.text s) :=
      isLike_containsPattern (hv.text_or_null hk) s
    simpa [Condition.meaning, Condition.replace, hop, hx, Value.isNull] using htext
  · obtain ⟨x, hx, -⟩ := single_of_containsList_eq_none hlist (.inr hop)
    obtain rfl := text?_of_single hx hs
    refine keeps_cond (suited_replace_text hc (.inl hk) rfl rfl)
      (beq_eq_false_of_operator (by simp [Condition.replace, hop])) ?_
    have htext :
        v.isLike ignoreCase (.text (containsPattern s)) = v.includes ignoreCase (.text s) :=
      isLike_containsPattern (hv.text_or_null hk) s
    simp [Condition.meaning, Condition.replace, hop, hx, hc.property, hk, Value.isNull, htext]

/-- A rule that keeps a condition's meaning never repeats the condition. -/
lemma Keeps.beq_eq_false (h : Keeps path ignoreCase v c p) : (p == .cond c) = false := by
  cases p with
  | cond d => exact h.fresh d (by simp)
  | and ps => rfl
  | or ps => rfl

lemma eq_none_of_leaves {f : Rule} (hf : ∀ p, f c = some p → (p == .cond c) = false)
    (h : (Stage.ofRule f).Leaves c) : f c = none := by
  rcases h with h | ⟨p, h, hp⟩
  · exact Except.ok.inj h
  · exact absurd (hp.symm.trans (hf p (Except.ok.inj h))) (by decide)

/-! ### The empty text -/

/-- The empty text is absent or empty; the copy of the condition that remains is about the empty
text only. -/
lemma emptyText_eq_some (hc : c.Suited path) (h : emptyText c = some p) :
    path.kind = .text ∧ c.operands = [.text ""] ∧
      (c.operator = .eq ∧ p = .anyOf [.cond (c.replace .isNull []), .cond c] ∨
        c.operator = .ne ∧ p = .allOf [.cond (c.replace .isNotNull []), .cond c]) := by
  unfold emptyText at h
  split at h <;> simp only [Option.some.injEq, reduceCtorEq] at h <;> subst h <;>
    rename_i hk hop hs <;> rw [hc.property] at hk
  · obtain ⟨x, hx⟩ := hc.single (by rw [hop]; rfl) (by rw [hop]; rfl)
    exact ⟨hk, text?_of_single hx hs ▸ hx, .inl ⟨hop, rfl⟩⟩
  · obtain ⟨x, hx⟩ := hc.single (by rw [hop]; rfl) (by rw [hop]; rfl)
    exact ⟨hk, text?_of_single hx hs ▸ hx, .inr ⟨hop, rfl⟩⟩

/-- Where the rule has nothing to say, the empty text is not compared with. -/
lemma meaningPast_eq_meaning (hc : c.Suited path) (h : emptyText c = none) :
    c.meaningPast ignoreCase v = c.meaning ignoreCase v := by
  unfold Condition.meaningPast
  split
  · rename_i hop
    obtain ⟨x, hx⟩ := hc.single (by rw [hop]; rfl) (by rw [hop]; rfl)
    have hnames : c.namesAbsence = x.isNull := by
      cases x <;> simp only [Condition.namesAbsence, hx, List.headD_cons, Value.isNull]
      rename_i s
      cases hk : c.property.kind == .text with
      | false => rfl
      | true =>
        have hs : s ≠ "" := by
          rintro rfl
          simp [emptyText, hop, beq_iff_eq.mp hk, Condition.text?, hx, Value.text?] at h
        simpa using hs
    simp [Condition.meaning, hop, hnames, hx]
  · rfl

end Rule

/-! ### Case -/

namespace Translator

open Condition

variable {path : PropertyPath} {v : Value} {c : Condition}

/-- An operand that holds text is the only one, and the value is text too, unless it is absent or a
collection. -/
lemma equals_text (hv : v.Fits r path.type) (hk : path.kind = .text ∨ path.kind = .collection)
    (s : String) : v.isLike true (.text (escapeLike s)) = v.equals true (.text s) := by
  have hcases : v = .null ∨ (∃ t, v = .text t) ∨ ∃ items, v = .list items := by
    rcases hk with hk | hk
    · rcases hv.text_or_null hk with h | h
      · exact .inl h
      · exact .inr (.inl h)
    · rcases hv.list_or_null hk with h | h
      · exact .inl h
      · exact .inr (.inr h)
  rcases hcases with rfl | ⟨t, rfl⟩ | ⟨items, rfl⟩
  · exact (Value.null_sameAs (.text s)).symm
  · exact patternSpells_escapeLike true s t
  · exact (Value.list_sameAs_text items s).symm

lemma operands_of_text? {s : String} (hc : c.Suited path) (hu : c.operator.isUnary = false)
    (hl : c.operator.acceptsList = false) (hs : c.text? = some s) : c.operands = [.text s] := by
  obtain ⟨x, hx⟩ := hc.single hu hl
  exact Rule.text?_of_single hx hs ▸ hx

lemma suited_disregardCase (hc : c.Suited path) : (disregardCase c).Suited path := by
  have htext : ∀ s, c.operands = [.text s] → path.kind = .text ∨ path.kind = .collection :=
    fun s hs => hc.typed s (by simp [hs])
  unfold disregardCase
  split
  · rename_i s hop hs
    have hops := operands_of_text? hc (by rw [hop]; rfl) (by rw [hop]; rfl) hs
    exact Rule.suited_replace_text hc (htext s hops) rfl rfl
  · rename_i s hop hs
    have hops := operands_of_text? hc (by rw [hop]; rfl) (by rw [hop]; rfl) hs
    exact Rule.suited_replace_text hc (htext s hops) rfl rfl
  · rename_i s hop hs
    have hops := operands_of_text? hc (by rw [hop]; rfl) (by rw [hop]; rfl) hs
    rw [hops]
    exact Rule.suited_replace_text hc (htext s hops) rfl rfl
  · rename_i s hop hs
    have hops := operands_of_text? hc (by rw [hop]; rfl) (by rw [hop]; rfl) hs
    rw [hops]
    exact Rule.suited_replace_text hc (htext s hops) rfl rfl
  · exact hc

/-- A comparison with the case disregarded is the pattern that it becomes. -/
lemma meaning_disregardCase (hc : c.Suited path) (hv : v.Fits r path.type) :
    (disregardCase c).meaning true v = c.meaningPast true v := by
  have htext : ∀ s, c.operands = [.text s] →
      v.isLike true (.text (escapeLike s)) = v.equals true (.text s) :=
    fun s hs => equals_text hv (hc.typed s (by simp [hs])) s
  unfold disregardCase meaningPast
  split
  · rename_i s hop hs
    have hops := operands_of_text? hc (by rw [hop]; rfl) (by rw [hop]; rfl) hs
    simp [meaning, replace, hop, hops, htext s hops, Value.isNull]
  · rename_i s hop hs
    have hops := operands_of_text? hc (by rw [hop]; rfl) (by rw [hop]; rfl) hs
    simp [meaning, replace, hop, hops, htext s hops]
  · rename_i s hop hs
    simp [meaning, replace, hop]
  · rename_i s hop hs
    simp [meaning, replace, hop]
  · rename_i heq _ _ _
    split
    · -- equality with an operand that is no text is left as it is
      rename_i hop
      obtain ⟨x, hx⟩ := hc.single (by rw [hop]; rfl) (by rw [hop]; rfl)
      have hnames : c.namesAbsence = x.isNull := by
        cases x <;> simp only [namesAbsence, hx, List.headD_cons, Value.isNull]
        rename_i s
        exact (heq s hop (by simp [text?, hx, Value.text?])).elim
      simp [meaning, hop, hnames, hx]
    · rfl

end Translator

end EntityQuery
