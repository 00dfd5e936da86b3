import EntityQuery.Proofs.Preparation.Rendered
import EntityQuery.Proofs.Preparation.Resettled
import EntityQuery.Proofs.Preparation.VirtualProperty

/-!
# Rendered queries keep their meaning

A prepared query is read from its own text as the same tree of conditions. If the literals of its
operands are converted back to equal values, then what is prepared is, condition by condition, the
same as before up to equality, and it is settled once more. The tree may grow by that, since what
went on behind a stage meets this stage again, but no instance is found or lost.
-/

namespace EntityQuery

variable {r : Registry} {context context' : QueryContext} {entity : String}

/-! ### Operands -/

namespace Registry

variable {property : String} {type : PropertyType} {v : Value} {vs : List Value}

/-- The literal of a value is an operand on its own, which is converted to a type as an equal
value. -/
def Restores (r : Registry) (context : QueryContext) (property : String) (type : PropertyType)
    (v : Value) : Prop :=
  ∃ o w, v.operand? = some o ∧ r.coerce context property type o = .ok w ∧ (w == v) = true

/-- Values that are read back are restored. -/
lemma ReadsBack.restores (h : r.ReadsBack context property type v) :
    r.Restores context property type v := by
  obtain ⟨tokens, kind, o, w, htokens, hkinds, hoperand, hcoerce, hw⟩ := h
  refine ⟨o, w, ?_, hcoerce, hw⟩
  have hliteral : Tokens.literal [kind, .endOfInput] = .ok (o, [.endOfInput]) := by
    have heq := hoperand .eq
    unfold Tokens.operand at heq
    split at heq
    · cases heq
    · obtain ⟨⟨o', rest⟩, hliteral, hpair⟩ := exists_of_map_eq_ok heq
      rw [hliteral]
      exact congrArg Except.ok hpair
  simp [Value.operand?, htokens, hkinds, hliteral]

/-- The operands of a list are converted back to equal values. -/
lemma exists_coerceAll (h : ∀ v ∈ vs, r.Restores context property type v) :
    ∃ ws, r.coerceAll context property type (vs.filterMap Value.operand?) = .ok ws ∧
      List.Forall₂ (fun w v => (w == v) = true) ws vs := by
  induction vs with
  | nil => exact ⟨[], rfl, .nil⟩
  | cons v vs ih =>
    rw [List.forall_mem_cons] at h
    obtain ⟨⟨o, w, ho, hcoerce, hwv⟩, hrest⟩ := h
    obtain ⟨ws, hws, hequal⟩ := ih hrest
    refine ⟨w :: ws, ?_, .cons hwv hequal⟩
    rw [List.filterMap_cons_some ho, coerceAll, hcoerce]
    simp [hws, Except.map]

/-- The operands of a condition that is read from its text are converted to equal values. -/
lemma exists_operandsOf {c : Condition} (shape : c.WellShaped)
    (restores : ∀ v ∈ c.operands, r.Restores context c.property.text c.property.type v) :
    ∃ ws, r.operandsOf context c.property c.raw = .ok ws ∧
      List.Forall₂ (fun w v => (w == v) = true) ws c.operands := by
  cases hunary : c.operator.isUnary with
  | true =>
    refine ⟨[], ?_, by rw [shape.unary hunary]; exact .nil⟩
    simp [operandsOf, Condition.raw, hunary]
  | false =>
    cases htakes : c.operator.takesList with
    | true =>
      obtain ⟨ws, hws, hequal⟩ := exists_coerceAll restores
      have haccepts := Operator.acceptsList_of_takesList htakes
      refine ⟨ws, ?_, hequal⟩
      simp [operandsOf, Condition.raw, hunary, htakes, haccepts, hws]
    | false =>
      obtain ⟨v, hv⟩ := shape.single hunary htakes
      obtain ⟨o, w, ho, hcoerce, hwv⟩ := restores v (by simp [hv])
      refine ⟨[w], ?_, by rw [hv]; exact .cons hwv .nil⟩
      have hsingle : ∀ os, o ≠ .list os := by
        rintro os rfl
        cases hcoerce
      simp only [operandsOf, Condition.raw, hunary, htakes, hv, ho]
      cases o with
      | list os => exact absurd rfl (hsingle os)
      | _ => simp [hcoerce, Except.map]

/-! ### Conditions and sort clauses -/

/-- A condition that is read from its text is an equal condition before it is settled. -/
def Recurs (r : Registry) (context : QueryContext) (e : EntityDef) (c : Condition) : Prop :=
  ∃ d, (d == c) = true ∧ r.prepareCondition context e c.raw = r.settle d

lemma recurs_of_prepared {e : EntityDef} {c : Condition} (hc : c.Prepared r e.name)
    (legible : c.property.Legible)
    (restores : ∀ v ∈ c.operands, r.Restores context c.property.text c.property.type v) :
    r.Recurs context e c := by
  have hpath : r.pathOf e c.raw.property = .ok c.property := pathOf_text hc.admitted legible
  obtain ⟨ws, hws, hequal⟩ := exists_operandsOf hc.wellShaped restores
  refine ⟨⟨c.property, c.operator, ws⟩, Condition.beq_eq_true_iff.mpr ⟨rfl, rfl, rfl, hequal⟩, ?_⟩
  simp only [prepareCondition, hpath, hws]
  rfl

/-- Sort clauses on paths that are resolved from their texts are prepared as they were. -/
lemma prepareOrders_readOrder {e : EntityDef} {orders : List (Order PropertyPath)}
    (h : ∀ o ∈ orders, r.pathOf e o.property.text = .ok o.property ∧
      o.property.checkSortable = .ok ()) :
    r.prepareOrders e (orders.map (Tokens.readOrder PropertyPath.text)) = .ok orders := by
  induction orders with
  | nil => rfl
  | cons o orders ih =>
    rw [List.forall_mem_cons] at h
    obtain ⟨⟨hpath, hsortable⟩, hrest⟩ := h
    simp [prepareOrders, Tokens.readOrder, hpath, hsortable, ih hrest, Except.map]

end Registry

/-! ### Truth -/

namespace Predicate

variable {C D E : Type} {f : C → Except E (Predicate D)} {p : Predicate C} {q : Predicate D}

/-- Tests that agree on what each condition is replaced by agree on the whole. -/
lemma holds_mapM_congr {s t : D → Bool} (h : p.mapM f = .ok q)
    (hst : ∀ c ∈ p.conditions, ∀ a, f c = .ok a → a.holds s = a.holds t) :
    q.holds s = q.holds t := by
  have hs : q.holds s = p.holds fun c => (f c).toOption.any (holds s) :=
    holds_mapM h fun c _ a ha => by rw [ha]; rfl
  have ht : q.holds t = p.holds fun c => (f c).toOption.any (holds s) :=
    holds_mapM h fun c hc a ha => (hst c hc a ha).symm.trans (by rw [ha]; rfl)
  exact hs.trans ht.symm

end Predicate

namespace Registry

variable {e : EntityDef} {raw : Predicate RawCondition} {t t' : Predicate Condition}

/-- A prepared predicate whose conditions recur can be prepared again, condition by condition. -/
lemma exists_mapM_raw (ht : raw.mapM (r.prepareCondition context e) = .ok t)
    (recurs : ∀ c ∈ t.conditions, r.Recurs context' e c) :
    ∃ t', t.mapM (fun c => r.prepareCondition context' e c.raw) = .ok t' := by
  refine Predicate.exists_mapM_iff.mpr fun c hc => ?_
  obtain ⟨d, hdc, hd⟩ := recurs c hc
  obtain ⟨b, -, a, ha, hc⟩ := (Predicate.mem_conditions_mapM ht).mp hc
  obtain ⟨path, vs, -, -, hsettle⟩ := exists_of_prepareCondition ha
  obtain ⟨q, hq, -⟩ := exists_settle_again hsettle hc
  obtain ⟨q', hq', -⟩ := exists_settle_of_beq (Condition.beq_symm hdc) hq
  exact ⟨q', hd.trans hq'⟩

/-- What a condition becomes that is read from its text; the condition, if it cannot be prepared. -/
def again (r : Registry) (context : QueryContext) (e : EntityDef) (c : Condition) :
    Predicate Condition :=
  (r.prepareCondition context e c.raw).toOption.getD (.cond c)

lemma again_eq {c : Condition} {q : Predicate Condition}
    (h : r.prepareCondition context e c.raw = .ok q) : r.again context e c = q := by
  simp [again, h, Except.toOption]

/-- What comes out is true as before, for tests that take equal conditions alike. -/
lemma holds_of_mapM_raw {test : Condition → Bool}
    (ht : raw.mapM (r.prepareCondition context e) = .ok t)
    (ht' : t.mapM (fun c => r.prepareCondition context' e c.raw) = .ok t')
    (recurs : ∀ c ∈ t.conditions, r.Recurs context' e c)
    (htest : ∀ x ∈ t'.conditions, ∀ y ∈ t.conditions, (x == y) = true → test x = test y) :
    t'.holds test = t.holds test := by
  have hprepared : ∀ c ∈ t.conditions,
      r.prepareCondition context' e c.raw = .ok (r.again context' e c) := by
    intro c hc
    obtain ⟨q, hq⟩ := Predicate.exists_mapM_iff.mp ⟨t', ht'⟩ c hc
    rw [again_eq hq, hq]
  have hread : t'.holds test = t.holds fun c => (r.again context' e c).holds test :=
    Predicate.holds_mapM ht' fun c _ q hq => by rw [again_eq hq]
  rw [hread]
  refine Predicate.holds_mapM_congr ht fun b hb a ha => ?_
  have hmem : ∀ c ∈ a.conditions, c ∈ t.conditions := fun c hc =>
    (Predicate.mem_conditions_mapM ht).mpr ⟨b, hb, a, ha, hc⟩
  obtain ⟨path, vs, -, -, hsettle⟩ := exists_of_prepareCondition ha
  refine holds_again hsettle (fun c hc => ?_) fun c hc x hx y hy => ?_
  · obtain ⟨d, hdc, hd⟩ := recurs c (hmem c hc)
    exact ⟨d, hdc, hd.symm.trans (hprepared c (hmem c hc))⟩
  · refine htest x ((Predicate.mem_conditions_mapM ht').mpr ⟨c, hmem c hc, _, ?_, hx⟩) y (hmem y hy)
    exact hprepared c (hmem c hc)

/-! ### Queries -/

variable {text : String} {p : PreparedQuery}

/-- The literals of all operands of a query are converted back, each for its property. -/
def RestoresQuery (r : Registry) (context : QueryContext) (p : PreparedQuery) : Prop :=
  ∀ t ∈ p.predicate, ∀ c ∈ t.conditions, ∀ v ∈ c.operands,
    r.Restores context c.property.text c.property.type v

/-- The query that is read from the text of a prepared one is prepared, with the same sort clauses,
and true of the same instances. -/
lemma exists_prepare_again (named : r.Named) (h : r.prepareText context entity text = .ok p)
    (restores : r.RestoresQuery context' p) :
    ∃ q p', RawQuery.parse p.text = .ok q ∧ q.prepare r context' entity = .ok p' ∧
      p'.orders = p.orders ∧ ∀ {ι : Type} [Instance ι] (i : ι),
        p'.holds (Condition.found i) = p.holds (Condition.found i) ∧
          p'.holds (Condition.stated i) = p.holds (Condition.stated i) := by
  obtain ⟨q, -, hprepare⟩ := prepareText_eq_ok.mp h
  obtain ⟨e, he, horders, hpredicate⟩ := RawQuery.exists_of_prepare hprepare
  obtain rfl := entity?_name he
  have hreads := parse_text_of_prepareText named h fun t ht c hc v hv => by
    obtain ⟨o, -, ho, -⟩ := restores t ht c hc v hv
    exact ⟨o, ho⟩
  have horders' : r.prepareOrders e (p.orders.map (Tokens.readOrder PropertyPath.text)) =
      .ok p.orders := by
    refine prepareOrders_readOrder fun o ho => ?_
    obtain ⟨o', -, hpath, hsortable⟩ := exists_of_prepareOrders horders o ho
    exact ⟨pathOf_text (admits_of_pathOf hpath) (legible_of_pathOf hpath), hsortable⟩
  rcases hpredicate with ⟨-, hnone⟩ | ⟨raw, t, -, ht, hmap⟩
  · refine ⟨_, p, hreads, RawQuery.prepare_eq_ok he horders' (.inl ⟨?_, hnone⟩), rfl,
      fun i => ⟨rfl, rfl⟩⟩
    simp [hnone]
  · have hprepared := RawQuery.prepared_of_prepare hprepare ht
    have hrecurs : ∀ c ∈ t.conditions, r.Recurs context' e c := fun c hc =>
      recurs_of_prepared (hprepared c hc) (RawQuery.legible_of_prepare hprepare ht c hc)
        (restores t ht c hc)
    obtain ⟨t', ht'⟩ := exists_mapM_raw hmap hrecurs
    have hturned : (t.turned false Condition.raw).mapM (r.prepareCondition context' e) = .ok t' := by
      rw [← Predicate.turned_id t']
      exact Predicate.mapM_turned ht' fun c _ a ha => by rw [ha, Predicate.turned_id]
    have hagain : RawQuery.prepare r context' e.name ⟨p.predicate.map
        (Predicate.turned false Condition.raw), p.orders.map (Tokens.readOrder PropertyPath.text)⟩ =
          .ok ⟨some t', p.orders⟩ := by
      refine RawQuery.prepare_eq_ok he horders' (.inr ⟨t.turned false Condition.raw, t', ?_, rfl,
        hturned⟩)
      simp [ht]
    refine ⟨_, _, hreads, hagain, rfl, fun i => ?_⟩
    have htest : ∀ x ∈ t'.conditions, ∀ y ∈ t.conditions, (x == y) = true →
        x.found i = y.found i ∧ x.stated i = y.stated i := fun x hx y hy hxy =>
      Condition.found_and_stated_congr hxy (RawQuery.prepared_of_prepare hagain rfl x hx)
        (hprepared y hy) i
    simp only [PreparedQuery.holds, ht, Option.all_some]
    exact ⟨holds_of_mapM_raw hmap ht' hrecurs fun x hx y hy hxy => (htest x hx y hy hxy).1,
      holds_of_mapM_raw hmap ht' hrecurs fun x hx y hy hxy => (htest x hx y hy hxy).2⟩

end Registry

/-- What a prepared query finds is told by its conditions and its sort clauses. -/
lemma RawQuery.findAll_of_prepare {q : RawQuery} {p : PreparedQuery} {ι : Type} [Instance ι]
    (h : q.prepare r context entity = .ok p) (items : List ι) :
    (Executor.ofCollection items).findAll p =
        .ok (Collection.sort p.orders (items.filter fun i => p.holds (Condition.found i))) ∧
      (Executor.ofPredicates (Memory.expressions items)).findAll p =
        .ok (Memory.findMatching (items.filter fun i => p.holds (Condition.stated i)) none
          (p.orders.map .ofOrder)) := by
  refine ⟨Executor.findAll_ofCollection items fun t ht c hc => ?_,
    Executor.findAll_ofPredicates items fun t ht c hc => ?_⟩
  all_goals obtain ⟨m, b, hm, -, hb, -⟩ := (prepared_of_prepare h ht c hc).exists_ready
  · exact ⟨m, hm⟩
  · exact ⟨b, hb⟩

/-- **Rendered queries keep their meaning.** Let the properties of a registry have names of the
query language, and let a text be prepared to a query each of whose operands is restored from its
literal, in the same context or in a later one. There the text of the query is prepared as well. The
new query has the same sort clauses, and in either way of running them both queries find the same
instances, in the same order. The properties that an expansion lists need not be of one type. -/
theorem rendered_keeps_meaning {text : String} {p : PreparedQuery} (named : r.Named)
    (h : r.prepareText context entity text = .ok p) (restores : r.RestoresQuery context' p) :
    ∃ p', r.prepareText context' entity p.text = .ok p' ∧ p'.orders = p.orders ∧
      ∀ {ι : Type} [Instance ι] (items : List ι),
        (∃ found, (Executor.ofCollection items).findAll p = .ok found ∧
          (Executor.ofCollection items).findAll p' = .ok found) ∧
        ∃ found, (Executor.ofPredicates (Memory.expressions items)).findAll p = .ok found ∧
          (Executor.ofPredicates (Memory.expressions items)).findAll p' = .ok found := by
  obtain ⟨q, -, hprepare⟩ := Registry.prepareText_eq_ok.mp h
  obtain ⟨q', p', hparse, hprepare', horders, hholds⟩ :=
    Registry.exists_prepare_again named h restores
  refine ⟨p', by simp [Registry.prepareText, hparse, hprepare'], horders, fun items => ?_⟩
  obtain ⟨hcollection, hpredicates⟩ := RawQuery.findAll_of_prepare hprepare items
  obtain ⟨hcollection', hpredicates'⟩ := RawQuery.findAll_of_prepare hprepare' items
  simp only [horders, hholds] at hcollection' hpredicates'
  exact ⟨⟨_, hcollection, hcollection'⟩, ⟨_, hpredicates, hpredicates'⟩⟩

namespace Orders

lemma named_searchable : searchable.Named := by
  simp only [Registry.Named, registry, List.forall_mem_cons, List.not_mem_nil, false_implies,
    implies_true, and_true]
  decide

/-- The orders whose customers have an empty name, or none. -/
def blank : PreparedQuery :=
  .of (.or [.cond ⟨ofCustomer "name" .text, .isNull, []⟩,
    .cond ⟨ofCustomer "search" .text, .isNull, []⟩, .cond ⟨ofCustomer "name" .text, .isNull, []⟩,
    .cond ⟨ofCustomer "name" .text, .eq, [.text ""]⟩,
    .cond ⟨ofCustomer "search" .text, .eq, [.text ""]⟩])

lemma prepareText_blank :
    searchable.prepareText Staff.context "Order" "customer.search = ''" = .ok blank := by
  have htext : (search "").text = "customer.search = ''" := by decide +kernel
  have hprepare : (search "").prepare searchable Staff.context "Order" = .ok blank :=
    prepare_isBlank
  simp only [← htext, Registry.prepareText, parse_search, hprepare]

/-- The empty text is the only operand, and it is written in quotes. -/
lemma restores_blank : searchable.RestoresQuery Staff.context blank := by
  have htext (property : String) :
      searchable.Restores Staff.context property .text (.text "") := by
    have hcoerce : searchable.coerce Staff.context property .text (.string "") =
        .ok (.text "") :=
      Registry.convert_text ""
    have hlegible : Value.Legible (.text "") := by simp [Value.Legible]
    exact (Registry.readsBack_of_legible (fun v => by simp) hcoerce rfl hlegible).restores
  intro t ht
  obtain rfl := Option.some.inj ht
  simp [ofCustomer, PropertyPath.type, htext]

end Orders

open Orders in
/-- A search for the empty text is prepared to conditions that are changed again when they are read
from their text; the order whose customer has an empty name is found nevertheless. -/
theorem rendered_keeps_meaning_blank :
    ∃ p', searchable.prepareText Staff.context "Order" "customer.search = ''" = .ok blank ∧
      searchable.Named ∧ searchable.RestoresQuery Staff.context blank ∧
      searchable.prepareText Staff.context "Order" blank.text = .ok p' ∧
      (Executor.ofCollection [Party.order]).findAll p' = .ok [Party.order] := by
  obtain ⟨p', hp', -, hfinds⟩ :=
    rendered_keeps_meaning named_searchable prepareText_blank restores_blank
  obtain ⟨⟨found, hfound, hagain⟩, -⟩ := hfinds [Party.order]
  have horder : (Executor.ofCollection [Party.order]).findAll blank = .ok [Party.order] := rfl
  obtain rfl := Except.ok.inj (horder.symm.trans hfound)
  exact ⟨p', prepareText_blank, named_searchable, restores_blank, hp', hagain⟩

end EntityQuery
