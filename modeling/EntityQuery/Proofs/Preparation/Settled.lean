import EntityQuery.Preparation.Query
import EntityQuery.Proofs.Predicate.Truth
import EntityQuery.Proofs.Registry.Admits

/-!
# What preparation leaves behind

Rules are applied to a condition until nothing changes. Whatever every rule keeps is therefore true
of all conditions that remain, wherever the rules have put them, and each of these has passed the
check. The main statement collects what this says about the conditions of a prepared query.
-/

namespace EntityQuery

variable {r : Registry}

/-! ### Applying stages -/

namespace Stage

variable {stages : List Stage} {check : Condition → Except PrepareError Unit}

/-- A stage has nothing to say about a condition, or repeats it. -/
def Leaves (stage : Stage) (c : Condition) : Prop :=
  stage c = .ok none ∨ ∃ p, stage c = .ok (some p) ∧ (p == .cond c) = true

/-- The first stage makes the change, or leaves the condition to those after it. -/
lemma firstChange_cons {stage : Stage} {rest : List Stage} {c : Condition} {n : Nat}
    {change : Option (Nat × Predicate Condition)}
    (h : firstChange c n (stage :: rest) = .ok change) :
    (∃ p, stage c = .ok (some p) ∧ (p == .cond c) = false ∧ change = some (n, p)) ∨
      (stage.Leaves c ∧ firstChange c (n + 1) rest = .ok change) := by
  rw [firstChange] at h
  cases hs : stage c with
  | error e => simp [hs] at h
  | ok result =>
    cases result with
    | none =>
      rw [hs] at h
      exact .inr ⟨.inl hs, h⟩
    | some p =>
      simp only [hs] at h
      cases hp : p == .cond c with
      | true =>
        rw [hp, if_pos rfl] at h
        exact .inr ⟨.inr ⟨p, hs, hp⟩, h⟩
      | false =>
        rw [hp, if_neg (by decide)] at h
        exact .inl ⟨p, rfl, hp, (Except.ok.inj h).symm⟩

/-- A change comes from one of the stages, which does not merely repeat the condition. -/
lemma exists_of_firstChange {c : Condition} {n k : Nat} {p : Predicate Condition}
    (h : firstChange c n stages = .ok (some (k, p))) :
    ∃ stage ∈ stages, stage c = .ok (some p) ∧ (p == .cond c) = false := by
  induction stages generalizing n with
  | nil => simp [firstChange] at h
  | cons stage rest ih =>
    rcases firstChange_cons h with ⟨q, hs, hq, hchange⟩ | ⟨-, h⟩
    · obtain ⟨rfl, rfl⟩ := Prod.mk.inj (Option.some.inj hchange)
      exact ⟨stage, by simp, hs, hq⟩
    · obtain ⟨stage', hmem, hs⟩ := ih h
      exact ⟨stage', List.mem_cons_of_mem stage hmem, hs⟩

/-- A condition is settled where it stands, or replaced by what a stage makes of it. -/
lemma settle_eq_ok {depth start : Nat} {c : Condition} {q : Predicate Condition}
    (h : settle stages check (depth + 1) start c = .ok q) :
    (firstChange c start (stages.drop start) = .ok none ∧ check c = .ok () ∧ q = .cond c) ∨
      ∃ n p, firstChange c start (stages.drop start) = .ok (some (n, p)) ∧
        p.mapM (fun d => settle stages check depth (if d == c then n + 1 else 0) d) = .ok q := by
  rw [settle] at h
  split at h
  · cases h
  · rename_i hnone
    refine .inl ⟨hnone, ?_⟩
    obtain ⟨u, hcheck, rfl⟩ := exists_of_map_eq_ok h
    exact ⟨hcheck, rfl⟩
  · rename_i n p hsome
    exact .inr ⟨n, p, hsome, h⟩

/-- **What every stage keeps, settling keeps**; and every condition that remains passes the
check. -/
theorem of_mem_settle {Inv : Condition → Prop}
    (keeps : ∀ stage ∈ stages, ∀ c p, Inv c → stage c = .ok (some p) → ∀ d ∈ p.conditions, Inv d)
    {depth start : Nat} {c : Condition} {q : Predicate Condition}
    (h : settle stages check depth start c = .ok q) (hc : Inv c) :
    ∀ d ∈ q.conditions, Inv d ∧ check d = .ok () := by
  induction depth generalizing start c q with
  | zero => simp [settle] at h
  | succ depth ih =>
    rcases settle_eq_ok h with ⟨-, hcheck, rfl⟩ | ⟨n, p, hchange, hp⟩
    · simpa using ⟨hc, hcheck⟩
    · obtain ⟨stage, hmem, hs, -⟩ := exists_of_firstChange hchange
      have hinv := keeps stage (List.mem_of_mem_drop hmem) c p hc hs
      intro d hd
      obtain ⟨b, hb, q', hq', hd⟩ := Predicate.exists_of_mem_conditions_mapM hp hd
      exact ih hq' (hinv b hb) d hd

end Stage

/-! ### What rules keep -/

namespace Rule

/-- The operands that a rule makes of those of a condition: some of them, or a text for a text. -/
inductive Passes (c : Condition) : List Value → Prop where
  | part {vs : List Value} (h : vs ⊆ c.operands) : Passes c vs
  | text {s : String} (h : c.text? = some s) (t : String) : Passes c [.text t]

/-- A condition of the same property, with operands that stem from the given ones. If it is not the
given condition, it has operands only if its operator takes some. -/
structure Follows (c d : Condition) : Prop where
  property : d.property = c.property
  unary : d = c ∨ (d.operator.isUnary = true → d.operands = [])
  operands : Passes c d.operands

lemma follows_self (c : Condition) : Follows c c :=
  ⟨rfl, .inl rfl, .part (List.Subset.refl _)⟩

lemma follows_nil (c : Condition) (operator : Operator) : Follows c (c.replace operator []) :=
  ⟨rfl, .inr fun _ => rfl, .part (List.nil_subset _)⟩

lemma follows_replace (c : Condition) {operator : Operator} {operands : List Value}
    (binary : operator.isUnary = false) (h : Passes c operands) :
    Follows c (c.replace operator operands) :=
  ⟨rfl, .inr fun hu => absurd (binary.symm.trans hu) (by decide), h⟩

lemma follows_of_absence {c d : Condition} {p : Predicate Condition} (h : absence c = some p)
    (hd : d ∈ p.conditions) : Follows c d := by
  unfold absence at h
  split at h <;> simp only [Option.some.injEq, reduceCtorEq] at h <;> subst h <;>
    simp only [Predicate.conditions_cond, List.mem_singleton] at hd <;> subst hd <;>
    exact follows_nil c _

lemma follows_of_nullComparison {c d : Condition} {p : Predicate Condition}
    (h : nullComparison c = some p) (hd : d ∈ p.conditions) : Follows c d := by
  unfold nullComparison at h
  split at h <;> simp only [Option.some.injEq, reduceCtorEq] at h <;> subst h <;>
    simp only [Predicate.conditions_cond, List.mem_singleton] at hd <;> subst hd <;>
    exact follows_nil c _

lemma not_isUnary_of_takesList {operator : Operator} (h : operator.takesList = true) :
    operator.isUnary = false := by
  cases operator <;> simp_all [Operator.takesList, Operator.isUnary]

lemma follows_of_nullInList {c d : Condition} {p : Predicate Condition}
    (h : nullInList c = some p) (hd : d ∈ p.conditions) : Follows c d := by
  simp only [nullInList] at h
  split at h
  · rename_i hcond
    have hlist : c.operator.isUnary = false :=
      not_isUnary_of_takesList (Bool.and_eq_true_iff.mp hcond).1
    -- the conditions are a test for absence and, at most, the list without its nulls
    have hsplit : d = c.replace .isNull [] ∨ d = c.replace .isNotNull [] ∨
        d = c.replace c.operator (c.operands.filter fun v => !v.isNull) := by
      split at h <;> simp only [Option.some.injEq] at h <;> subst h <;>
        split at hd <;> simp at hd <;> grind
    rcases hsplit with rfl | rfl | rfl
    · exact follows_nil c _
    · exact follows_nil c _
    · exact follows_replace c hlist (.part (List.filter_subset_self _))
  · cases h

lemma follows_containsPart {c d : Condition} {v : Value} (hop : c.operator.isUnary = false)
    (hv : v ∈ c.operands) (hd : d ∈ (containsPart c v).conditions) : Follows c d := by
  simp only [containsPart, Predicate.conditions_cond, List.mem_singleton] at hd
  subst hd
  split
  · exact follows_nil c _
  · exact follows_replace c hop (.part (List.cons_subset.mpr ⟨hv, List.nil_subset _⟩))

lemma follows_of_containsList {c d : Condition} {p : Predicate Condition}
    (h : containsList c = some p) (hd : d ∈ p.conditions) : Follows c d := by
  simp only [containsList] at h
  have hparts : c.operator.isUnary = false ∧
      (p = .anyOf (c.operands.map (containsPart c)) ∨
        p = .allOf (c.operands.map (containsPart c))) := by
    split at h
    · rename_i hop
      exact ⟨by rw [hop]; rfl, by grind⟩
    · rename_i hop
      exact ⟨by rw [hop]; rfl, by grind⟩
    · cases h
  obtain ⟨hop, rfl | rfl⟩ := hparts <;>
  · simp only [Predicate.conditions_anyOf, Predicate.conditions_allOf, List.mem_flatMap,
      List.mem_map] at hd
    obtain ⟨_, ⟨v, hv, rfl⟩, hd⟩ := hd
    exact follows_containsPart hop hv hd

lemma follows_of_textContains {c d : Condition} {p : Predicate Condition}
    (h : textContains c = some p) (hd : d ∈ p.conditions) : Follows c d := by
  unfold textContains at h
  split at h
  case h_3 => cases h
  all_goals
    rename_i htext
    obtain rfl := Option.some.inj h
    simp only [Predicate.conditions_cond, List.mem_singleton] at hd
    subst hd
    exact follows_replace c rfl (.text htext _)

lemma follows_of_emptyText {c d : Condition} {p : Predicate Condition}
    (h : emptyText c = some p) (hd : d ∈ p.conditions) : Follows c d := by
  unfold emptyText at h
  split at h <;> simp only [Option.some.injEq, reduceCtorEq] at h <;> subst h <;>
    simp at hd <;> rcases hd with rfl | rfl
  · exact follows_nil c _
  · exact follows_self _
  · exact follows_nil c _
  · exact follows_self _

/-- A rule yields conditions on the same property. -/
theorem follows_of_mem {f : Rule} (hf : f ∈ all) {c d : Condition} {p : Predicate Condition}
    (h : f c = some p) (hd : d ∈ p.conditions) : Follows c d := by
  simp only [all, List.mem_cons, List.not_mem_nil, or_false] at hf
  rcases hf with rfl | rfl | rfl | rfl | rfl | rfl
  · exact follows_of_absence h hd
  · exact follows_of_nullComparison h hd
  · exact follows_of_nullInList h hd
  · exact follows_of_containsList h hd
  · exact follows_of_textContains h hd
  · exact follows_of_emptyText h hd

end Rule

/-! ### What translators keep -/

/-- A sibling is resolved from the entity type that declares the property. -/
lemma Registry.exists_of_sibling {name : String} {c : Condition} {path : PropertyPath}
    (h : r.sibling c name = .ok path) : ∃ q, r.resolve c.property.leaf.owner name = .ok q ∧
      path = ⟨c.property.parents ++ q.path.parents, q.path.leaf⟩ := by
  obtain ⟨q, hq, rfl⟩ := exists_of_map_eq_ok h
  exact ⟨q, hq, rfl⟩

/-- A sibling is declared where the property is, so the same associations lead to it. -/
lemma Registry.admits_sibling {entity name : String} {c : Condition} {path : PropertyPath}
    (hc : r.Admits entity c.property) (h : r.sibling c name = .ok path) :
    r.Admits entity path := by
  obtain ⟨q, hq, rfl⟩ := exists_of_sibling h
  obtain ⟨hadm, -⟩ := admits_of_resolve hq
  exact ⟨hc.parents.append hadm.parents, hadm.leaf, hadm.unindexed⟩

namespace Translator

lemma disregardCase_follows (c : Condition) : Rule.Follows c (disregardCase c) := by
  unfold disregardCase
  split
  · rename_i htext
    exact Rule.follows_replace c rfl (.text htext _)
  · rename_i htext
    exact Rule.follows_replace c rfl (.text htext _)
  · exact Rule.follows_replace c rfl (.part (List.Subset.refl _))
  · exact Rule.follows_replace c rfl (.part (List.Subset.refl _))
  · exact Rule.follows_self c

/-- What stands for one name of an expansion is the condition on that sibling. -/
lemma exists_of_mem_siblingConditions {c : Condition} {names : List String}
    {ps : List (Predicate Condition)} (h : siblingConditions r c names = .ok ps) :
    ∀ p ∈ ps, ∃ name ∈ names, ∃ path, r.sibling c name = .ok path ∧
      p = .cond ⟨path, c.operator, c.operands⟩ := by
  induction names generalizing ps with
  | nil =>
    rw [siblingConditions] at h
    cases h
    simp
  | cons name names ih =>
    rw [siblingConditions] at h
    cases hpath : r.sibling c name with
    | error e => simp [hpath] at h
    | ok path =>
      simp only [hpath] at h
      obtain ⟨rest, hrest, rfl⟩ := exists_of_map_eq_ok h
      intro p hp
      rcases List.mem_cons.mp hp with rfl | hp
      · exact ⟨name, by simp, path, hpath, rfl⟩
      · obtain ⟨name', hmem, hp⟩ := ih hrest p hp
        exact ⟨name', by simp [hmem], hp⟩

/-- A translator yields the condition with the case disregarded, or the same condition on siblings
that it names. -/
lemma of_mem_translate {t : Translator} {c d : Condition} {p : Predicate Condition}
    (h : t.translate r c = .ok p) (hd : d ∈ p.conditions) :
    (p = .cond (disregardCase c) ∧ d = disregardCase c) ∨ ∃ names, t = .expand names ∧
      ∃ name ∈ names, ∃ path, r.sibling c name = .ok path ∧
        d = ⟨path, c.operator, c.operands⟩ := by
  unfold translate at h
  split at h
  · obtain rfl := Except.ok.inj h
    exact .inl ⟨rfl, by simpa using hd⟩
  · cases h
  · rename_i names _
    split at h
    · cases h
    · rename_i ps hps
      simp only [Except.ok.injEq] at h
      have hmem : d ∈ ps.flatMap Predicate.conditions := by
        split at h <;> subst h <;> simpa using hd
      obtain ⟨q, hq, hd⟩ := List.mem_flatMap.mp hmem
      obtain ⟨name, hname, path, hpath, rfl⟩ := exists_of_mem_siblingConditions hps q hq
      rw [Predicate.conditions_cond, List.mem_singleton] at hd
      exact .inr ⟨names, rfl, name, hname, path, hpath, hd⟩

end Translator

/-! ### What settling keeps -/

/-- A condition stands for another one by the expansion that the property of that one declares: it
is the same condition on a sibling. -/
structure Condition.Expands (r : Registry) (c d : Condition) : Prop where
  declared : ∃ p names name, r.property? c.property.leaf.owner c.property.leaf.name = some p ∧
    p.translator? = some (.expand names) ∧ name ∈ names ∧ r.sibling c name = .ok d.property
  operator : d.operator = c.operator
  operands : d.operands = c.operands

lemma Condition.Expands.exists_sibling {c d : Condition} (h : c.Expands r d) :
    ∃ name, r.sibling c name = .ok d.property := by
  obtain ⟨-, -, name, -, -, -, hpath⟩ := h.declared
  exact ⟨name, hpath⟩

/-- What a stage may make of a condition: one that follows it, or one on a sibling. -/
inductive Condition.Yields (r : Registry) (c d : Condition) : Prop where
  | follows (h : Rule.Follows c d)
  | expands (h : c.Expands r d)

namespace Stage

lemma translator_eq_some {c : Condition} {p : Predicate Condition}
    (h : translator r c = .ok (some p)) : ∃ declaration t,
      r.property? c.property.leaf.owner c.property.leaf.name = some declaration ∧
      declaration.translator? = some t ∧ t.translate r c = .ok p := by
  unfold translator at h
  split at h
  · rename_i name type nullable t hfound
    refine ⟨⟨name, type, nullable, some t⟩, t, hfound, rfl, ?_⟩
    cases ht : t.translate r c with
    | error e => simp [ht] at h
    | ok q => simpa [ht] using h
  · cases h

/-- **One stage**: each condition that it makes of another is on the same property, or on a sibling
in its place. -/
theorem yields_of_mem_all {stage : Stage} (hs : stage ∈ Stage.all r) {c d : Condition}
    {p : Predicate Condition} (h : stage c = .ok (some p)) (hd : d ∈ p.conditions) :
    c.Yields r d := by
  simp only [Stage.all, List.mem_append, List.mem_map, List.mem_singleton] at hs
  rcases hs with ⟨f, hf, rfl⟩ | rfl
  · simp only [ofRule, Except.ok.injEq] at h
    exact .follows (Rule.follows_of_mem hf h hd)
  · obtain ⟨declaration, t, hfound, ht, htranslate⟩ := translator_eq_some h
    rcases Translator.of_mem_translate htranslate hd with
      ⟨-, rfl⟩ | ⟨names, rfl, name, hname, path, hpath, rfl⟩
    · exact .follows (Translator.disregardCase_follows c)
    · exact .expands ⟨⟨declaration, names, name, hfound, ht, hname, hpath⟩, rfl, rfl⟩

end Stage

namespace Registry

variable {context : QueryContext} {Inv : Condition → Prop}

/-- What every stage keeps is true of all conditions that remain, and each of them is checked. -/
lemma of_mem_settle (keeps : ∀ c d, c.Yields r d → Inv c → Inv d) {c : Condition}
    {q : Predicate Condition} (hc : Inv c) (h : r.settle c = .ok q) :
    ∀ d ∈ q.conditions, Inv d ∧ d.check = .ok () :=
  Stage.of_mem_settle (fun _ hs b _ hb hstage d hd =>
    keeps b d (Stage.yields_of_mem_all hs hstage hd) hb) h hc

lemma exists_of_prepareCondition {e : EntityDef} {c : RawCondition} {q : Predicate Condition}
    (h : r.prepareCondition context e c = .ok q) : ∃ path vs, r.pathOf e c.property = .ok path ∧
      r.operandsOf context path c = .ok vs ∧ r.settle ⟨path, c.operator, vs⟩ = .ok q := by
  unfold prepareCondition at h
  cases hpath : r.pathOf e c.property with
  | error err => simp [hpath] at h
  | ok path =>
    cases hvs : r.operandsOf context path c with
    | error err => simp [hpath, hvs] at h
    | ok vs => exact ⟨path, vs, rfl, hvs, by simpa [hpath, hvs] using h⟩

/-! ### Prepared conditions -/

lemma exists_resolved_of_pathOf {e : EntityDef} {path : String} {p : PropertyPath}
    (h : r.pathOf e path = .ok p) : ∃ q, r.resolve e.name path = .ok q ∧ q.path = p := by
  unfold pathOf at h
  cases hq : r.resolve e.name path with
  | error err => simp [hq] at h
  | ok q => exact ⟨q, rfl, by simpa [hq] using h⟩

lemma admits_of_pathOf {e : EntityDef} {path : String} {p : PropertyPath}
    (h : r.pathOf e path = .ok p) : r.Admits e.name p := by
  obtain ⟨q, hq, rfl⟩ := exists_resolved_of_pathOf h
  exact (admits_of_resolve hq).1

lemma operandsOf_unary {path : PropertyPath} {c : RawCondition} {vs : List Value}
    (h : r.operandsOf context path c = .ok vs) (hu : c.operator.isUnary = true) : vs = [] := by
  unfold operandsOf at h
  cases ho : c.operand? with
  | none => simpa [ho, hu, eq_comm] using h
  | some o => simp [ho, hu] at h

end Registry

/-- A condition on an admitted path, with operands only where its operator takes some. -/
structure Condition.Formed (r : Registry) (entity : String) (c : Condition) : Prop where
  admitted : r.Admits entity c.property
  unary : c.operator.isUnary = true → c.operands = []

/-- What preparation promises about each condition. -/
structure Condition.Prepared (r : Registry) (entity : String) (c : Condition) : Prop
    extends Formed r entity c where
  checked : c.check = .ok ()

/-- Every stage yields well-formed conditions from a well-formed one. -/
lemma Condition.Formed.of_yields {entity : String} {c d : Condition} (hc : c.Formed r entity)
    (h : c.Yields r d) : d.Formed r entity := by
  cases h with
  | follows h =>
    obtain rfl | hunary := h.unary
    · exact hc
    · exact ⟨h.property ▸ hc.admitted, hunary⟩
  | expands h =>
    obtain ⟨name, hpath⟩ := h.exists_sibling
    refine ⟨Registry.admits_sibling hc.admitted hpath, fun hu => ?_⟩
    rw [h.operands]
    exact hc.unary (h.operator ▸ hu)

/-- A prepared sort clause is on a resolved path that can be sorted on. -/
lemma Registry.exists_of_prepareOrders {e : EntityDef} {os : List (Order String)}
    {orders : List (Order PropertyPath)} (h : r.prepareOrders e os = .ok orders) :
    ∀ o ∈ orders, ∃ o' ∈ os, r.pathOf e o'.property = .ok o.property ∧
      o.property.checkSortable = .ok () := by
  induction os generalizing orders with
  | nil =>
    obtain rfl := Except.ok.inj h
    simp
  | cons o' os ih =>
    rw [prepareOrders] at h
    cases hpath : r.pathOf e o'.property with
    | error err => simp [hpath] at h
    | ok path =>
      cases hcheck : path.checkSortable with
      | error err => simp [hpath, hcheck] at h
      | ok u =>
        simp only [hpath, hcheck] at h
        obtain ⟨rest, hos, rfl⟩ := exists_of_map_eq_ok h
        refine List.forall_mem_cons.mpr ⟨⟨o', by simp, hpath, hcheck⟩, fun o ho => ?_⟩
        obtain ⟨o'', hmem, hfound⟩ := ih hos o ho
        exact ⟨o'', by simp [hmem], hfound⟩

/-- Sort clauses are prepared on paths of single values. -/
lemma Registry.sortable_of_prepareOrders {e : EntityDef} {os : List (Order String)}
    {orders : List (Order PropertyPath)} (h : r.prepareOrders e os = .ok orders) :
    ∀ o ∈ orders, r.Admits e.name o.property ∧ o.property.isMultiValued = false ∧
      o.property.type.isCollection = false := by
  intro o ho
  obtain ⟨o', -, hpath, hcheck⟩ := exists_of_prepareOrders h o ho
  refine ⟨admits_of_pathOf hpath, ?_⟩
  unfold PropertyPath.checkSortable at hcheck
  cases hmulti : o.property.isMultiValued <;> cases hmany : o.property.type.isCollection <;>
    simp_all

/-- What preparing a query amounts to, part by part. -/
lemma RawQuery.exists_of_prepare {context : QueryContext} {entity : String} {q : RawQuery}
    {p : PreparedQuery} (h : q.prepare r context entity = .ok p) :
    ∃ e, r.entity? entity = some e ∧ r.prepareOrders e q.orders = .ok p.orders ∧
      (q.predicate = none ∧ p.predicate = none ∨ ∃ raw t, q.predicate = some raw ∧
        p.predicate = some t ∧ raw.mapM (r.prepareCondition context e) = .ok t) := by
  obtain ⟨predicate, orders⟩ := q
  unfold RawQuery.prepare Registry.requireEntity at h
  cases he : r.entity? entity with
  | none => simp [he] at h
  | some e =>
    simp only [he] at h
    refine ⟨e, rfl, ?_⟩
    cases predicate with
    | none =>
      obtain ⟨orders', ho, rfl⟩ := exists_of_map_eq_ok h
      exact ⟨ho, .inl ⟨rfl, rfl⟩⟩
    | some raw =>
      cases hmap : raw.mapM (r.prepareCondition context e) with
      | error err => simp [hmap, Except.map] at h
      | ok t =>
        simp only [hmap] at h
        obtain ⟨orders', ho, rfl⟩ := exists_of_map_eq_ok h
        exact ⟨ho, .inr ⟨raw, t, rfl, rfl, hmap⟩⟩

/-- A query without sort clauses is prepared condition by condition. -/
lemma RawQuery.prepare_of_eq_ok {context : QueryContext} {entity : String}
    {raw : Predicate RawCondition} {p : PreparedQuery} :
    RawQuery.prepare r context entity (.of raw) = .ok p ↔ ∃ e t, r.entity? entity = some e ∧
      raw.mapM (r.prepareCondition context e) = .ok t ∧ p = .of t := by
  constructor
  · intro h
    obtain ⟨e, he, horders, ⟨hnone, -⟩ | ⟨raw', t, hraw, ht, hmap⟩⟩ := exists_of_prepare h
    · cases hnone
    · cases hraw
      obtain ⟨predicate, orders⟩ := p
      obtain rfl : predicate = some t := ht
      obtain rfl : [] = orders := Except.ok.inj horders
      exact ⟨e, t, he, hmap, rfl⟩
  · rintro ⟨e, t, he, hmap, rfl⟩
    simp [prepare, Registry.requireEntity, he, Query.of, hmap, Except.map, Registry.prepareOrders]

/-- What preparing a single condition amounts to. -/
lemma RawQuery.prepare_cond_eq_ok {context : QueryContext} {entity : String} {c : RawCondition}
    {p : PreparedQuery} :
    RawQuery.prepare r context entity (.of (.cond c)) = .ok p ↔
      ∃ e path vs t, r.entity? entity = some e ∧ r.pathOf e c.property = .ok path ∧
        r.operandsOf context path c = .ok vs ∧ r.settle ⟨path, c.operator, vs⟩ = .ok t ∧
        p = .of t := by
  rw [prepare_of_eq_ok]
  constructor
  · rintro ⟨e, t, he, hmap, hp⟩
    rw [Predicate.mapM] at hmap
    obtain ⟨path, vs, hpath, hvs, hsettle⟩ := Registry.exists_of_prepareCondition hmap
    exact ⟨e, path, vs, t, he, hpath, hvs, hsettle, hp⟩
  · rintro ⟨e, path, vs, t, he, hpath, hvs, hsettle, hp⟩
    refine ⟨e, t, he, ?_, hp⟩
    simp [Predicate.mapM, Registry.prepareCondition, hpath, hvs, hsettle]

/-- A prepared condition stems from one that was written. -/
lemma RawQuery.exists_of_mem_prepare {context : QueryContext} {entity : String} {q : RawQuery}
    {p : PreparedQuery} (h : q.prepare r context entity = .ok p) {t : Predicate Condition}
    (ht : p.predicate = some t) {c : Condition} (hc : c ∈ t.conditions) :
    ∃ e raw b path vs t', r.entity? entity = some e ∧ q.predicate = some raw ∧
      b ∈ raw.conditions ∧ r.pathOf e b.property = .ok path ∧
      r.operandsOf context path b = .ok vs ∧ r.settle ⟨path, b.operator, vs⟩ = .ok t' ∧
      c ∈ t'.conditions := by
  obtain ⟨e, he, -, ⟨-, hnone⟩ | ⟨raw, t', hraw, ht', hmap⟩⟩ := exists_of_prepare h
  · rw [hnone] at ht
    cases ht
  · obtain rfl := Option.some.inj (ht'.symm.trans ht)
    obtain ⟨b, hb, q', hq', hc⟩ := Predicate.exists_of_mem_conditions_mapM hmap hc
    obtain ⟨path, vs, hpath, hvs, hsettle⟩ := Registry.exists_of_prepareCondition hq'
    exact ⟨e, raw, b, path, vs, q', he, hraw, hb, hpath, hvs, hsettle, hc⟩

/-- **Prepared queries**: every condition is on a path that the registry admits, has the operands
its operator takes and passes the check. -/
theorem RawQuery.prepared_of_prepare {context : QueryContext} {entity : String} {q : RawQuery}
    {p : PreparedQuery} (h : q.prepare r context entity = .ok p) {t : Predicate Condition}
    (ht : p.predicate = some t) : ∀ c ∈ t.conditions, c.Prepared r entity := by
  intro c hc
  obtain ⟨e, -, b, path, vs, t', he, -, -, hpath, hvs, hsettle, hc⟩ :=
    exists_of_mem_prepare h ht hc
  have hstart : Condition.Formed r entity ⟨path, b.operator, vs⟩ :=
    ⟨Registry.entity?_name he ▸ Registry.admits_of_pathOf hpath, Registry.operandsOf_unary hvs⟩
  obtain ⟨hformed, hcheck⟩ :=
    Registry.of_mem_settle (fun _ _ hyields hb => hb.of_yields hyields) hstart hsettle c hc
  exact ⟨hformed, hcheck⟩

end EntityQuery
