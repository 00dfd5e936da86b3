import EntityQuery.Proofs.Execution.Agreement
import EntityQuery.Proofs.Preparation.Operands
import EntityQuery.Proofs.Preparation.Rewritten

/-!
# Preparation keeps the meaning

The conditions that are left when no rule applies any more are tested by matchers, and a matcher
accepts what its condition means. With the rules keeping the meaning, so does preparation: the main
statement is about a condition as it is written and what either executor decides in the end.
-/

namespace EntityQuery

variable {r : Registry}

/-! ### Matchers -/

namespace Condition

variable {path : PropertyPath} {ignoreCase : Bool} {v : Value} {c : Condition} {m : Matcher}

/-- Whether the matcher of a condition accepts a value. -/
def acceptsValue (v : Value) (c : Condition) : Bool :=
  match c.matcher with
  | .ok m => m.accepts v
  | .error _ => false

/-- No comparison of texts is left that a translator would still turn into one without case. -/
def CaseSettled (ignoreCase : Bool) (c : Condition) : Prop :=
  ignoreCase = true → c.operator = .eq ∨ c.operator = .ne ∨ c.operator = .like ∨
    c.operator = .notLike → c.text? = none

lemma CaseSettled.ignoreCase_eq_false {t : String} (h : c.CaseSettled ignoreCase)
    (hop : c.operator = .eq ∨ c.operator = .ne ∨ c.operator = .like ∨ c.operator = .notLike)
    (ht : c.text? = some t) : ignoreCase = false := by
  by_contra hcase
  rw [Bool.not_eq_false] at hcase
  rw [h hcase hop] at ht
  cases ht

lemma equals_eq_sameAs (x : Value) (h : ignoreCase = false ∨ ∀ s, x ≠ .text s) :
    v.equals ignoreCase x = v.sameAs x := by
  rcases h with rfl | h
  · cases v <;> cases x <;> try rfl
    rename_i s t
    rw [Value.equals, sameText_false, Value.text_sameAs_text]
  · cases v <;> cases x <;> first | rfl | exact absurd rfl (h _)

lemma accepts_pattern {i n : Bool} {t : String} {ps : List PatternPiece}
    (hs : m.strategy = .pattern i n) (hp : m.pattern? = some ⟨ps, i⟩)
    (hps : Pattern.pieces? t.toList = some ps) (hv : v = .null ∨ ∃ s, v = .text s) :
    m.accepts v = (!v.isAbsent && (v.isLike i (.text t) != n)) := by
  rcases hv with rfl | ⟨s, rfl⟩
  · simp [Matcher.accepts, hs, Value.text?, Value.isAbsent]
  · simp [Matcher.accepts_text hs hp hps, Value.isAbsent, Value.isLike]

lemma sameAs_eq_false_of_isNull {x : Value} (h : v.isNull = true) : v.sameAs x = false := by
  cases v <;> simp_all [Value.isNull, Value.null_sameAs]

lemma accepts_ordering {operator : Operator} {x : Value} (hs : m.strategy = .ordering operator)
    (hops : m.operands = [x]) (hc : c.operator = operator) (hx : c.operands = [x])
    (hop : Strategy.of? c.operator path.kind = some (.ordering operator)) :
    m.accepts v = c.meaning ignoreCase v := by
  subst hc
  simp only [Matcher.accepts, hs, Matcher.operand, hops, List.headD_cons]
  cases hop' : c.operator <;> simp [Strategy.of?, hop'] at hop <;>
    simp only [Condition.meaning, hop', hx, List.headD_cons, Value.isOrdered] <;>
    cases hcmp : v.compare? x <;> simp [Matcher.holds] <;> rename_i o <;> cases o <;> decide

lemma any_sameAs_of_present {xs : List Value} (h : ∀ x ∈ xs, x.isNull = false)
    (test : Value → Bool) : (xs.any fun x => !x.isNull && test x) = xs.any test := by
  rw [Bool.eq_iff_iff, List.any_eq_true, List.any_eq_true]
  constructor
  · rintro ⟨x, hx, hs⟩
    exact ⟨x, hx, by simpa [h x hx] using hs⟩
  · rintro ⟨x, hx, hs⟩
    exact ⟨x, hx, by simpa [h x hx] using hs⟩

lemma isLike_eq_false_of_isAbsent (h : v.isAbsent = true) (x : Value) :
    v.isLike ignoreCase x = false := by
  cases v <;> simp_all [Value.isAbsent, Value.isLike]

/-- **Matchers**: a condition that is settled and passes the check is tested for what it means. -/
lemma acceptsValue_eq (hc : c.Suited path) (hv : v.Fits r path.type) (hcheck : c.check = .ok ())
    (hcase : c.CaseSettled ignoreCase) : c.acceptsValue v = c.meaningPast ignoreCase v := by
  obtain ⟨s, hs⟩ := exists_strategy_of_check hcheck
  have htakes := takes_of_check hs hc.unary hcheck
  obtain ⟨m, hm, hstrategy, hops, hpattern⟩ := Matcher.make_of_takes htakes
  have haccepts : c.acceptsValue v = m.accepts v := by
    simp [acceptsValue, matcher, Strategy.require, hs, hm]
  rw [haccepts]
  rw [hc.property] at hs
  have hop := Strategy.operator_of_eq_some hs
  have hkind := Strategy.kind_eq_collection_iff hs
  have hscalar : s.comparesCollections = false → v.isAbsent = v.isNull := fun h =>
    hv.isAbsent_of_scalar fun hk => by simp [hkind.mp hk] at h
  cases hcs : s with
  | nullness n =>
    subst hcs
    have habsent := hscalar rfl
    cases n <;> simp [Matcher.accepts, hstrategy, meaningPast, meaning, hop, Strategy.operator,
      habsent]
  | emptiness n =>
    subst hcs
    have hlacks : Matcher.lacksElements v = v.isAbsent := by cases v <;> rfl
    cases n <;> simp [Matcher.accepts, hstrategy, meaningPast, meaning, hop, Strategy.operator,
      hlacks]
  | equality n =>
    subst hcs
    have habsent := hscalar rfl
    obtain ⟨x, hx, hnull⟩ := htakes.single rfl
    have hequals : v.equals ignoreCase x = v.sameAs x := by
      refine equals_eq_sameAs x (or_iff_not_imp_right.mpr fun hne => ?_)
      obtain ⟨t, rfl⟩ := not_forall_not.mp hne
      have htext : c.text? = some t := by simp [text?, hx, Value.text?]
      exact hcase.ignoreCase_eq_false (by cases n <;> simp [hop, Strategy.operator]) htext
    have hsame : v.isNull = true → v.sameAs x = false := sameAs_eq_false_of_isNull
    cases n <;> cases hv' : v.isNull <;>
      simp_all [Matcher.accepts, Matcher.operand, meaningPast, meaning, Strategy.operator]
  | ordering o =>
    subst hcs
    obtain ⟨x, hx, -⟩ := htakes.single rfl
    rw [accepts_ordering hstrategy (hops.trans hx) hop hx hs, meaningPast, if_neg]
    rintro heq
    rw [heq] at hs
    revert hs
    cases path.kind <;> simp [Strategy.of?]
  | pattern i n =>
    subst hcs
    obtain ⟨t, ht, -⟩ := htakes.readable
    obtain ⟨ps, hps, hp⟩ := hpattern i n t rfl ht
    rw [accepts_pattern hstrategy hp hps (hv.text_or_null (Strategy.kind_eq_text hs))]
    have hlike : i = true ∨ i = ignoreCase := by
      cases i with
      | true => exact .inl rfl
      | false =>
        have htext : c.text? = some t := by simp [text?, ht, Value.text?]
        have hfalse :=
          hcase.ignoreCase_eq_false (by cases n <;> simp [hop, Strategy.operator]) htext
        exact .inr hfalse.symm
    have habsent := fun h => @isLike_eq_false_of_isAbsent i v h (.text t)
    cases i <;> cases n <;> cases hv' : v.isAbsent <;>
      simp_all [meaningPast, meaning, Strategy.operator]
  | membership n =>
    subst hcs
    have habsent := hscalar rfl
    have hpresent := htakes.present
    have hnone : c.operands.any Value.isNull = false := by simpa using hpresent
    have hsome := any_sameAs_of_present hpresent v.sameAs
    have hsame : v.isNull = true → c.operands.any (v.sameAs ·) = false := fun h => by
      simp [sameAs_eq_false_of_isNull h]
    cases n <;> cases hv' : v.isNull <;>
      simp_all [Matcher.accepts, meaningPast, meaning, Strategy.operator]
  | containment n =>
    subst hcs
    obtain ⟨x, hx, hnull⟩ := htakes.single rfl
    have hk := hkind.mpr rfl
    rw [← hc.property] at hk
    rcases hv.list_or_null (hkind.mpr rfl) with rfl | ⟨items, rfl⟩
    · have habsent : Value.null.isNull = true := rfl
      cases n <;> simp [Matcher.accepts, hstrategy, meaningPast, meaning, hop, Strategy.operator,
        hx, hnull, hk, habsent, Value.includes]
    · have hpresent : (Value.list items).isNull = false := rfl
      cases n <;> simp [Matcher.accepts, Matcher.operand, hstrategy, hops, meaningPast, meaning,
        hop, Strategy.operator, hx, hnull, hk, hpresent, Value.includes]

end Condition

/-! ### Settling -/

namespace Stage

open Condition

variable {path : PropertyPath} {ignoreCase : Bool} {v : Value} {c : Condition}
  {p q : Predicate Condition} {depth : Nat}

/-- The translator of a path's property, if it has one, disregards case. -/
def TranslatesCase (r : Registry) (path : PropertyPath) (ignoreCase : Bool) : Prop :=
  ∀ c : Condition, c.property = path → translator r c =
    .ok (if ignoreCase then some (.cond (Translator.disregardCase c)) else none)

lemma caseSettled_of_leaves (ht : TranslatesCase r path ignoreCase) (hc : c.Suited path)
    (h : (translator r).Leaves c) : c.CaseSettled ignoreCase := by
  rintro rfl hop
  have htranslate := ht c hc.property
  rw [if_pos rfl] at htranslate
  rcases h with h | ⟨p, h, hp⟩
  · rw [htranslate] at h
    cases h
  · rw [htranslate] at h
    cases h
    by_contra htext
    obtain ⟨s, hs⟩ := Option.ne_none_iff_exists'.mp htext
    have hne : (Translator.disregardCase c).operator ≠ c.operator := by
      rcases hop with hop | hop | hop | hop <;>
        simp [Translator.disregardCase, hop, hs, Condition.replace]
    exact absurd (hp.symm.trans (Rule.beq_eq_false_of_operator hne)) (by decide)

/-- A predicate whose conditions are on a path accepts a value or does not. -/
def Decides (path : PropertyPath) (v : Value) (q : Predicate Condition) (b : Bool) : Prop :=
  (∀ d ∈ q.conditions, d.Suited path) ∧ q.holds (acceptsValue v) = b

/-- What is to be shown of a condition that goes through all stages, and of one that is past the
rule about the empty text. -/
structure Preserves (r : Registry) (path : PropertyPath) (ignoreCase : Bool) (v : Value)
    (depth : Nat) : Prop where
  whole {c : Condition} {q : Predicate Condition} (hc : c.Suited path)
    (h : settle (all r) Condition.check depth 0 c = .ok q) :
    Decides path v q (c.meaning ignoreCase v)
  past {c : Condition} {q : Predicate Condition} (hc : c.Suited path)
    (h : settle (all r) Condition.check depth 6 c = .ok q) :
    Decides path v q (c.meaningPast ignoreCase v)

/-- If what becomes of each condition decides about it, then the whole decides about the
predicate. -/
lemma decides_of_mapM {f : Condition → Except PrepareError (Predicate Condition)}
    {test : Condition → Bool} (h : p.mapM f = .ok q)
    (hf : ∀ d ∈ p.conditions, ∀ q', f d = .ok q' → Decides path v q' (test d)) :
    Decides path v q (p.holds test) := by
  constructor
  · intro d hd
    obtain ⟨b, hb, q', hq', hd⟩ := Predicate.exists_of_mem_conditions_mapM h hd
    exact (hf b hb q' hq').1 d hd
  · exact Predicate.holds_mapM h fun d hd q' hq' => (hf d hd q' hq').2

/-- The conditions of a rule that keeps the meaning start again from the first stage. -/
lemma decides_of_keeps (ih : Preserves r path ignoreCase v depth)
    (hk : Rule.Keeps path ignoreCase v c p) {n : Nat}
    (h : p.mapM (fun d => settle (all r) Condition.check depth (if d == c then n + 1 else 0) d) =
      .ok q) : Decides path v q (c.meaning ignoreCase v) := by
  rw [← hk.meaning]
  refine decides_of_mapM h fun d hd q' hq' => ?_
  rw [hk.fresh d hd, if_neg (by decide)] at hq'
  exact ih.whole (hk.suited d hd) hq'

lemma beq_self_of_emptyText (h : c.operands = [.text ""]) : (c == c) = true := by
  have hops : Value.beqAll c.operands c.operands = true := by
    rw [h]
    rfl
  simp [BEq.beq, Condition.beq, hops]

/-- The rule about the empty text has its copy of the condition go on behind it. -/
lemma decides_of_emptyText (ih : Preserves r path ignoreCase v depth) (hc : c.Suited path)
    (hp : Rule.emptyText c = some p)
    (h : p.mapM (fun d => settle (all r) Condition.check depth (if d == c then 5 + 1 else 0) d) =
      .ok q) : Decides path v q (c.meaning ignoreCase v) := by
  obtain ⟨hk, hops, hcases⟩ := Rule.emptyText_eq_some hc hp
  have hself := beq_self_of_emptyText hops
  have hunary : c.operator.isUnary = false := by
    rcases hcases with ⟨hop, -⟩ | ⟨hop, -⟩ <;> rw [hop] <;> rfl
  have hsuited : ∀ d ∈ p.conditions, d.Suited path := by
    rcases hcases with ⟨-, rfl⟩ | ⟨-, rfl⟩
    · simpa [hc] using (Rule.unary_replace hc rfl hunary).1
    · simpa [hc] using (Rule.unary_replace hc rfl hunary).1
  -- the test for absence starts again, the copy is past the rule
  have hdecides : Decides path v q (p.holds fun d =>
      if d == c then d.meaningPast ignoreCase v else d.meaning ignoreCase v) := by
    refine decides_of_mapM h fun d hd q' hq' => ?_
    cases hd' : d == c with
    | true =>
      rw [hd', if_pos rfl] at hq'
      exact ih.past (hsuited d hd) hq'
    | false =>
      rw [hd', if_neg (by decide)] at hq'
      exact ih.whole (hsuited d hd) hq'
  have hnull : (c.replace .isNull [] == c) = false := (Rule.unary_replace hc rfl hunary).2
  have hnotNull : (c.replace .isNotNull [] == c) = false := (Rule.unary_replace hc rfl hunary).2
  convert hdecides using 1
  rcases hcases with ⟨hop, rfl⟩ | ⟨hop, rfl⟩
  · simp [hself, meaning, meaningPast, namesAbsence, replace, hop, hops, hc.property, hk,
      Value.isNull]
  · simp [hself, meaning, meaningPast, replace, hop, hops]

/-- What disregards case starts again from the first stage. -/
lemma decides_of_translator (ih : Preserves r path ignoreCase v depth) (hc : c.Suited path)
    (hv : v.Fits r path.type) (ht : TranslatesCase r path ignoreCase)
    (hp : translator r c = .ok (some p)) (hne : (p == .cond c) = false) {n : Nat}
    (h : p.mapM (fun d => settle (all r) Condition.check depth (if d == c then n + 1 else 0) d) =
      .ok q) : Decides path v q (c.meaningPast ignoreCase v) := by
  rw [ht c hc.property] at hp
  cases ignoreCase with
  | false => cases hp
  | true =>
    cases hp
    have hd : (Translator.disregardCase c == c) = false := hne
    rw [Predicate.mapM, hd, if_neg (by decide)] at h
    rw [← Translator.meaning_disregardCase hc hv]
    exact ih.whole (Translator.suited_disregardCase hc) h

lemma eq_none_of_leaves_emptyText (hc : c.Suited path) (h : (ofRule Rule.emptyText).Leaves c) :
    Rule.emptyText c = none := by
  refine Rule.eq_none_of_leaves (fun p hp => ?_) h
  obtain ⟨-, -, ⟨-, rfl⟩ | ⟨-, rfl⟩⟩ := Rule.emptyText_eq_some hc hp <;> rfl

lemma all_eq (r : Registry) : all r =
    [ofRule Rule.absence, ofRule Rule.nullComparison, ofRule Rule.nullInList,
      ofRule Rule.containsList, ofRule Rule.textContains, ofRule Rule.emptyText, translator r] :=
  rfl

/-- A condition that stands when the last stage has left it means what its matcher accepts. -/
lemma decides_of_settled (hc : c.Suited path) (hv : v.Fits r path.type)
    (ht : TranslatesCase r path ignoreCase) (hcheck : c.check = .ok ())
    (h : (translator r).Leaves c) : Decides path v (.cond c) (c.meaningPast ignoreCase v) :=
  ⟨by simpa using hc, by
    rw [Predicate.holds_cond]
    exact acceptsValue_eq hc hv hcheck (caseSettled_of_leaves ht hc h)⟩

/-- From the translator on, a condition is read without the rule about the empty text. -/
lemma decides_past (ih : Preserves r path ignoreCase v depth) (hc : c.Suited path)
    (hv : v.Fits r path.type) (ht : TranslatesCase r path ignoreCase)
    {change : Option (Nat × Predicate Condition)}
    (hchange : firstChange c 6 [translator r] = .ok change)
    (hsettled : change = none → c.check = .ok () ∧ q = .cond c)
    (hchanged : ∀ n p, change = some (n, p) → p.mapM (fun d =>
      settle (all r) Condition.check depth (if d == c then n + 1 else 0) d) = .ok q) :
    Decides path v q (c.meaningPast ignoreCase v) := by
  rcases firstChange_cons hchange with ⟨p, hp, hne, rfl⟩ | ⟨hleaves, hrest⟩
  · exact decides_of_translator ih hc hv ht hp hne (hchanged 6 p rfl)
  · cases hrest
    obtain ⟨hcheck, rfl⟩ := hsettled rfl
    exact decides_of_settled hc hv ht hcheck hleaves

/-- **Settling keeps the meaning.** -/
theorem preserves (hv : v.Fits r path.type) (ht : TranslatesCase r path ignoreCase) (depth : Nat) :
    Preserves r path ignoreCase v depth := by
  induction depth with
  | zero => exact ⟨fun _ h => (by cases h), fun _ h => (by cases h)⟩
  | succ depth ih =>
    have hopened : ∀ {start c q}, settle (all r) Condition.check (depth + 1) start c = .ok q →
        ∃ change, firstChange c start ((all r).drop start) = .ok change ∧
          (change = none → c.check = .ok () ∧ q = .cond c) ∧
          ∀ n p, change = some (n, p) → p.mapM (fun d =>
            settle (all r) Condition.check depth (if d == c then n + 1 else 0) d) = .ok q := by
      intro start c q h
      rcases settle_eq_ok h with ⟨hnone, hsettled⟩ | ⟨n, p, hsome, hp⟩
      · exact ⟨none, hnone, fun _ => hsettled, by simp⟩
      · refine ⟨some (n, p), hsome, by simp, ?_⟩
        rintro n' p' hnp
        cases hnp
        exact hp
    constructor
    · intro c q hc h
      obtain ⟨change, hchange, hsettled, hchanged⟩ := hopened h
      rw [List.drop_zero, all_eq] at hchange
      -- the first five rules keep the meaning
      rcases firstChange_cons hchange with ⟨p, hp, -, rfl⟩ | ⟨-, h1⟩
      · exact decides_of_keeps ih (Rule.keeps_absence hc (Except.ok.inj hp)) (hchanged _ p rfl)
      rcases firstChange_cons h1 with ⟨p, hp, -, rfl⟩ | ⟨-, h2⟩
      · exact decides_of_keeps ih (Rule.keeps_nullComparison hc (Except.ok.inj hp))
          (hchanged _ p rfl)
      rcases firstChange_cons h2 with ⟨p, hp, -, rfl⟩ | ⟨-, h3⟩
      · exact decides_of_keeps ih (Rule.keeps_nullInList hc (Except.ok.inj hp)) (hchanged _ p rfl)
      rcases firstChange_cons h3 with ⟨p, hp, -, rfl⟩ | ⟨hlist, h4⟩
      · exact decides_of_keeps ih (Rule.keeps_containsList hc (Except.ok.inj hp))
          (hchanged _ p rfl)
      have hkeeps : ∀ p, Rule.containsList c = some p → Rule.Keeps path ignoreCase v c p :=
        fun p hp => Rule.keeps_containsList hc hp
      have hlist := Rule.eq_none_of_leaves (fun p hp => (hkeeps p hp).beq_eq_false) hlist
      rcases firstChange_cons h4 with ⟨p, hp, -, rfl⟩ | ⟨-, h5⟩
      · exact decides_of_keeps ih (Rule.keeps_textContains hc hlist hv (Except.ok.inj hp))
          (hchanged _ p rfl)
      rcases firstChange_cons h5 with ⟨p, hp, -, rfl⟩ | ⟨hempty, h6⟩
      · exact decides_of_emptyText ih hc (Except.ok.inj hp) (hchanged _ p rfl)
      rw [← Rule.meaningPast_eq_meaning hc (eq_none_of_leaves_emptyText hc hempty)]
      exact decides_past ih hc hv ht h6 hsettled hchanged
    · intro c q hc h
      obtain ⟨change, hchange, hsettled, hchanged⟩ := hopened h
      exact decides_past ih hc hv ht hchange hsettled hchanged

end Stage

/-! ### Operands -/

namespace Registry

variable {context : QueryContext} {site : OperandSite} {target : PropertyType} {s : String}

lemma kind_of_scalar?_text {l : Literal} (h : l.scalar? target = some (.text s)) :
    target.kind = .text := by
  cases target <;> cases l <;> simp_all [Literal.scalar?, PropertyType.kind] <;> grind

/-- Text is the value of an operand for a property that holds text only. -/
lemma kind_of_convert_text {l : Literal} (h : r.convert site target l = .ok (.text s)) :
    target.kind = .text ∨ target.kind = .collection := by
  cases convert_eq_ok.mp h with
  | element => exact .inr rfl
  | reference hv =>
    cases l <;> simp [Literal.reference?] at hv
    split at hv <;> simp at hv
  | scalar hv => exact .inl (kind_of_scalar?_text hv)

lemma kind_of_coerce_text {property : String} {o : Operand}
    (h : r.coerce context property target o = .ok (.text s)) :
    target.kind = .text ∨ target.kind = .collection := by
  unfold coerce at h
  split at h
  all_goals first
    | exact kind_of_convert_text h
    | cases h
    | skip
  · rename_i f _
    unfold functionValue at h
    split at h
    · split at h
      · cases h
      · exact kind_of_convert_text h
    · split at h <;> cases h

/-- The operands of a condition are written as its operator wants them. -/
lemma suited_of_operandsOf {path : PropertyPath} {c : RawCondition} {vs : List Value}
    (h : r.operandsOf context path c = .ok vs) (hne : c.operand? ≠ some (.list [])) :
    Condition.Suited path ⟨path, c.operator, vs⟩ := by
  have hunary : c.operator.isUnary = true → vs = [] := operandsOf_unary h
  unfold operandsOf at h
  cases hu : c.operator.isUnary with
  | true =>
    refine ⟨rfl, hunary, fun hf => ?_, fun hl => ?_, ?_⟩
    · exact absurd (hu.symm.trans hf) (by decide)
    · exact absurd (hu.symm.trans (Rule.not_isUnary_of_acceptsList hl)) (by decide)
    · simp [hunary hu]
  | false =>
    have hsingle : ∀ o, r.coerce context path.text path.type o = .ok (vs.headD .null) →
        vs = [vs.headD .null] → Condition.Suited path ⟨path, c.operator, vs⟩ := by
      intro o ho hvs
      refine ⟨rfl, hunary, fun _ _ => ⟨_, hvs⟩, fun _ hnil => ?_, fun s hs => ?_⟩
      · rw [hvs] at hnil
        cases hnil
      · rw [hvs, List.mem_singleton] at hs
        exact kind_of_coerce_text (hs ▸ ho)
    rw [hu] at h
    split at h
    · rename_i hf
      cases hf
    · rename_i hf
      cases hf
    · cases h
    · rename_i items hitems _
      -- a list may only stand where the operator accepts one
      split at h
      · rename_i haccepts
        obtain ⟨hlen, hmem⟩ := coerceAll_eq_ok h
        refine ⟨rfl, hunary, fun _ hl => absurd (hl.symm.trans haccepts) (by decide),
          fun _ hnil => ?_, fun s hs => ?_⟩
        · have hvs : vs = [] := hnil
          rw [hvs, List.length_nil] at hlen
          exact hne (by rw [hitems, List.length_eq_zero_iff.mp hlen.symm])
        · obtain ⟨o, -, ho⟩ := hmem _ hs
          exact kind_of_coerce_text ho
      · cases h
    · rename_i o _ _ _
      obtain ⟨v, ho, rfl⟩ := exists_of_map_eq_ok h
      exact hsingle o ho rfl

end Registry

/-! ### Comparing with one value -/

namespace Matcher

variable {m : Matcher} {v : Value}

lemma accepts_equality (hs : m.strategy = .equality false) (hv : m.operands = [v]) (w : Value) :
    m.accepts w = w.sameAs v := by
  cases hw : w.isNull with
  | true =>
    obtain rfl : w = .null := by cases w <;> first | rfl | cases hw
    simp [accepts, hs, Value.isNull, Value.null_sameAs]
  | false => simp [accepts, hs, operand, hv, hw]

lemma accepts_containment (hs : m.strategy = .containment false) (hv : m.operands = [v])
    (items : List Value) : m.accepts (.list items) = items.any fun w => w.sameAs v := by
  simp [accepts, hs, operand, hv]

end Matcher

/-! ### Values at single-valued paths -/

open Instance

variable {ι : Type} [Instance ι]

lemma PropertyRef.valueAt_names {path : PropertyPath} (hsingle : path.isMultiValued = false)
    (i : ι) : (Instance.ends (some i) path.parents).map (fun o => read o path.leaf.name) =
      [PropertyRef.valueAt i path.names] := by
  have hnames : path.names = path.parents.map PathSegment.name ++ [path.leaf.name] := by
    simp [PropertyPath.names, PropertyPath.segments]
  rw [hnames, PropertyRef.valueAt_append, ends_of_not_indexed hsingle, PropertyRef.follow,
    List.foldl_map]
  rfl

lemma Registry.Fits.valueAt {entity : String} {i : ι} {path : PropertyPath}
    (hi : r.Fits entity i) (hadm : r.Admits entity path) (hsingle : path.isMultiValued = false) :
    (PropertyRef.valueAt i path.names).Fits r path.type := by
  obtain ⟨Of, htypes, hof⟩ := hi
  have hmem : PropertyRef.valueAt i path.names ∈
      (Instance.ends (some i) path.parents).map fun o => read o path.leaf.name := by
    simp [PropertyRef.valueAt_names hsingle]
  obtain ⟨o, ho, hvalue⟩ := List.mem_map.mp hmem
  obtain ⟨d, hd⟩ := hadm.leaf
  rw [← hvalue]
  cases o with
  | none => exact .null
  | some j =>
    have hj := of_ends htypes hadm.parents (by simpa using hof) (some j) ho j rfl
    have hfits := htypes.value hj hd.found
    rwa [← hd.type] at hfits

/-! ### Prepared conditions -/

lemma Stage.translatesCase_of_declares {path : PropertyPath} {d : PropertyDef} {ignoreCase : Bool}
    (hd : r.Declares path.leaf d)
    (ht : d.translator? = if ignoreCase then some .ignoreCase else none) :
    TranslatesCase r path ignoreCase := by
  intro c hc
  have hfound := hd.found
  unfold Registry.property? at hfound
  unfold Stage.translator
  rw [hc, hfound]
  obtain ⟨name, type, nullable, translator⟩ := d
  cases ignoreCase <;> simp at ht <;> subst ht <;> rfl

/-- A prepared condition on one path decides about the value there. -/
lemma Condition.found_eq_acceptsValue {entity : String} {c : Condition} {path : PropertyPath}
    (hc : c.Prepared r entity) (hpath : c.property = path) (hsingle : path.isMultiValued = false)
    {i : ι} (hi : r.Fits entity i) :
    c.found i = c.acceptsValue (PropertyRef.valueAt i path.names) ∧
      c.stated i = c.acceptsValue (PropertyRef.valueAt i path.names) := by
  subst hpath
  obtain ⟨m, -, hm, -⟩ := exists_matcher (ι := ι) hc
  have hfound : c.found i = c.acceptsValue (PropertyRef.valueAt i c.property.names) := by
    rw [found_eq hm, valuesAt_eq hi hc.admitted, hsingle, if_neg (by decide), ends,
      PropertyRef.valueAt_names hsingle, acceptsValue, hm, List.any_cons, List.any_nil,
      Bool.or_false]
  refine ⟨hfound, ?_⟩
  rw [stated_eq hc hi, gapped, hsingle, Bool.and_false, Bool.false_and, Bool.or_false, hfound]

/-- **Preparation keeps the meaning.** Let a query be one condition on a path of single values,
whose property has no translator or one that disregards case. If it prepares, then either way of
running it finds an instance exactly if the condition, with its operands converted, means the value
at the end of the path. -/
theorem prepared_iff_meant {context : QueryContext} {entity : String} {c : RawCondition}
    {p : PreparedQuery} {q : Resolved} {ignoreCase : Bool}
    (hp : RawQuery.prepare r context entity (.of (.cond c)) = .ok p)
    (hq : r.resolve entity c.property = .ok q) (hsingle : q.path.isMultiValued = false)
    (htranslator : q.definition.translator? = if ignoreCase then some .ignoreCase else none)
    (hoperand : c.operand? ≠ some (.list [])) :
    ∃ t vs f b, p.predicate = some t ∧ r.operandsOf context q.path c = .ok vs ∧
      Filter.compile t = .ok f ∧ BooleanExpression.ofPredicate t = .ok b ∧
      ∀ i : ι, r.Fits entity i →
        let meant := Condition.meaning ignoreCase (PropertyRef.valueAt i q.path.names)
          ⟨q.path, c.operator, vs⟩
        f.accepts i = meant ∧ b.evaluate i = meant := by
  have hprepared : ∀ t, p.predicate = some t → ∀ d ∈ t.conditions, d.Prepared r entity :=
    fun t ht => RawQuery.prepared_of_prepare hp ht
  obtain ⟨e, he, -, ⟨hnone, -⟩ | ⟨raw, t, hraw, ht, hmap⟩⟩ := RawQuery.exists_of_prepare hp
  · cases hnone
  cases hraw
  obtain ⟨hadm, hdeclared⟩ := Registry.admits_of_resolve hq
  -- preparing the condition settles what its path and its operands make of it
  have hpath : r.pathOf e c.property = .ok q.path := by
    simp [Registry.pathOf, Registry.entity?_name he, hq]
  rw [Predicate.mapM, Registry.prepareCondition, hpath] at hmap
  cases hvs : r.operandsOf context q.path c with
  | error err => simp [hvs] at hmap
  | ok vs =>
    simp only [hvs] at hmap
    have hsuited := Registry.suited_of_operandsOf hvs hoperand
    have htranslates := Stage.translatesCase_of_declares hdeclared htranslator
    obtain ⟨f, hf, haccepts⟩ := Filter.exists_compile (ι := ι) fun d hd => by
      obtain ⟨m, -, hm, -⟩ := Condition.exists_matcher (ι := ι) (hprepared t ht d hd)
      exact ⟨m, hm⟩
    obtain ⟨b, hb, heval⟩ := BooleanExpression.exists_ofPredicate (ι := ι) fun d hd => by
      obtain ⟨-, b, -, -, -, hb, -⟩ := Condition.exists_matcher (ι := ι) (hprepared t ht d hd)
      exact ⟨b, hb⟩
    refine ⟨t, vs, f, b, ht, rfl, hf, hb, fun i hi => ?_⟩
    have hv := hi.valueAt hadm hsingle
    obtain ⟨hconditions, hdecides⟩ := (Stage.preserves hv htranslates _).whole hsuited hmap
    have hdecided := fun d hd => Condition.found_eq_acceptsValue (hprepared t ht d hd)
      (hconditions d hd).property hsingle hi
    rw [haccepts, heval, ← hdecides]
    exact ⟨t.holds_congr fun d hd => (hdecided d hd).1, t.holds_congr fun d hd => (hdecided d hd).2⟩

namespace Staff

/-- The condition that a boss has no name, or one with a double n in it. -/
def bossWithDoubleN : RawCondition :=
  ⟨"boss.name", .contains, some (.list [.null, .string "NN"])⟩

/-- The path from a representative to the boss. -/
def boss : PropertyPath :=
  ⟨[], ⟨"boss", "Representative", .entity "Person", true, false⟩⟩

/-- The path from a representative to the name of the boss. -/
def nameOfBoss : PropertyPath :=
  ⟨[⟨"boss", "Representative", .entity "Person", true, false⟩],
    ⟨"name", "Person", .text, true, false⟩⟩

lemma operandsOf_bossWithDoubleN :
    (registry (some .ignoreCase)).operandsOf context nameOfBoss bossWithDoubleN =
      .ok [.null, .text "NN"] := by
  simp [Registry.operandsOf, bossWithDoubleN, Registry.coerceAll, Registry.coerce,
    Registry.convert_text, nameOfBoss, PropertyPath.type, Except.map,
    Operator.isUnary, Operator.acceptsList]

lemma settle_bossWithDoubleN :
    (registry (some .ignoreCase)).settle ⟨nameOfBoss, .contains, [.null, .text "NN"]⟩ =
      .ok (.anyOf [.cond ⟨nameOfBoss, .isNull, []⟩,
        .cond ⟨nameOfBoss, .ilike, [.text "%NN%"]⟩]) := by
  rfl

lemma prepare_bossWithDoubleN :
    RawQuery.prepare (registry (some .ignoreCase)) context "Representative"
      (.of (.cond bossWithDoubleN)) =
        .ok (.of (.anyOf [.cond ⟨nameOfBoss, .isNull, []⟩,
          .cond ⟨nameOfBoss, .ilike, [.text "%NN%"]⟩])) := by
  have hentity : (registry (some .ignoreCase)).requireEntity "Representative" =
      .ok ⟨"Representative", "id", [⟨"id", .text, false, none⟩,
        ⟨"boss", .entity "Person", true, none⟩]⟩ := rfl
  have hpath : (registry (some .ignoreCase)).pathOf ⟨"Representative", "id",
      [⟨"id", .text, false, none⟩, ⟨"boss", .entity "Person", true, none⟩]⟩
      bossWithDoubleN.property = .ok nameOfBoss := rfl
  have hsettle : (registry (some .ignoreCase)).settle
      ⟨nameOfBoss, bossWithDoubleN.operator, [.null, .text "NN"]⟩ = _ := settle_bossWithDoubleN
  simp only [RawQuery.prepare, hentity, Query.of, Predicate.mapM, Registry.prepareCondition,
    hpath, operandsOf_bossWithDoubleN, hsettle]
  rfl

end Staff

open Staff in
/-- Both representatives are found by a list with null and a text in capitals: one has no boss, and
the other's is called Ann. -/
theorem prepared_iff_meant_representatives :
    ∃ p, RawQuery.prepare (registry (some .ignoreCase)) context "Representative"
        (.of (.cond bossWithDoubleN)) = .ok p ∧
      ∃ t f b, p.predicate = some t ∧ Filter.compile t = .ok f ∧
        BooleanExpression.ofPredicate t = .ok b ∧
        ∀ i ∈ [john, joe], (registry (some .ignoreCase)).Fits "Representative" i ∧
          f.accepts i = true ∧ b.evaluate i = true := by
  have hresolve : (registry (some .ignoreCase)).resolve "Representative" bossWithDoubleN.property =
      .ok ⟨nameOfBoss, ⟨"name", .text, true, some .ignoreCase⟩⟩ := rfl
  have htranslator : (some Translator.ignoreCase) = if true then some .ignoreCase else none := rfl
  obtain ⟨t, vs, f, b, ht, hvs, hf, hb, hmeant⟩ := prepared_iff_meant (ι := Staff)
    prepare_bossWithDoubleN hresolve rfl htranslator (by simp [bossWithDoubleN])
  refine ⟨_, prepare_bossWithDoubleN, t, f, b, ht, hf, hb, fun i hi => ?_⟩
  have hfits : (registry (some .ignoreCase)).Fits "Representative" i := by
    refine ⟨_, types, ?_⟩
    rcases List.mem_pair.mp hi with rfl | rfl <;> rfl
  obtain ⟨haccepts, hevaluates⟩ := hmeant i hfits
  rw [operandsOf_bossWithDoubleN] at hvs
  cases hvs
  refine ⟨hfits, ?_⟩
  rw [haccepts, hevaluates]
  rcases List.mem_pair.mp hi with rfl | rfl <;> exact ⟨rfl, rfl⟩

end EntityQuery
