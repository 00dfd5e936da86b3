import EntityQuery.Proofs.Grammar.Parsed
import EntityQuery.Proofs.Preparation.Checked
import EntityQuery.Proofs.Preparation.Frozen
import EntityQuery.Proofs.Preparation.Operands

/-!
# The operands of prepared conditions

Operands are converted to the type of the property that a condition is written with, and rules only
leave some of them out or replace a text by a text. An expansion moves them to other properties as
they are, so they have the type of the property that they end up with only if every expansion stays
within a type.
-/

namespace EntityQuery

variable {r : Registry} {context : QueryContext} {entity : String}

/-! ### The number of operands -/

/-- The operands of a condition are as many as its operator takes, and none of them is null; the
operand of a pattern operator can be read as one. -/
structure Condition.WellShaped (c : Condition) : Prop where
  strategy : ∃ s, Strategy.of? c.operator c.property.kind = some s
  unary : c.operator.isUnary = true → c.operands = []
  list : c.operator.takesList = true → c.operands ≠ []
  single : c.operator.isUnary = false → c.operator.takesList = false → ∃ v, c.operands = [v]
  present : ∀ v ∈ c.operands, v.isNull = false
  pattern : c.operator.isPattern = true → ∃ s, c.operands = [.text s] ∧ checkPattern s = .ok ()

/-- The operands that a strategy takes are as many as its operator takes. -/
lemma Strategy.Takes.wellShaped {c : Condition} {s : Strategy}
    (hs : Strategy.of? c.operator c.property.kind = some s) (h : s.Takes c.operands) :
    c.WellShaped := by
  obtain ⟨hunary, hlist, hpattern⟩ := Strategy.operandCount?_of hs
  refine ⟨⟨s, hs⟩, fun hu => h.eq_nil (hunary.mp hu), fun hl => h.ne_nil (hlist.mp hl),
    fun hu hl => ?_, h.present, fun hp => ?_⟩
  · have hcount : s.operandCount? = some 1 := by
      rw [← Bool.not_eq_true] at hu hl
      cases s <;> simp_all [Strategy.operandCount?]
    obtain ⟨v, hv, -⟩ := h.single hcount
    exact ⟨v, hv⟩
  · obtain ⟨i, n, rfl⟩ := hpattern hp
    exact h.readable

lemma Condition.Prepared.wellShaped {c : Condition} (h : c.Prepared r entity) : c.WellShaped := by
  obtain ⟨s, hs⟩ := exists_strategy_of_check h.checked
  exact (takes_of_check hs h.unary h.checked).wellShaped hs

/-! ### The type of operands -/

/-- Every operand is one that properties of a type are compared with. -/
def Condition.HasType (r : Registry) (c : Condition) (type : PropertyType) : Prop :=
  ∀ v ∈ c.operands, v.IsOperand r type

/-- The same, apart from nulls. -/
def Condition.HasTypeOrNull (r : Registry) (c : Condition) (type : PropertyType) : Prop :=
  ∀ v ∈ c.operands, v.isNull = true ∨ v.IsOperand r type

/-- Operands of the type of a condition's own property. -/
structure Condition.WellTyped (r : Registry) (c : Condition) : Prop extends c.WellShaped where
  typed : c.HasType r c.property.type

/-- What a property is compared with, the properties that it stands for are compared with. -/
def Registry.KeepsTypes (r : Registry) : Prop :=
  ∀ owner name p names sibling q, r.property? owner name = some p →
    p.translator? = some (.expand names) → sibling ∈ names → r.resolve owner sibling = .ok q →
      ∀ v : Value, v.IsOperand r p.type → v.IsOperand r q.path.type

namespace Condition

variable {c d : Condition} {type : PropertyType}

lemma HasTypeOrNull.of_passes {vs : List Value} (hc : c.HasTypeOrNull r type)
    (h : Rule.Passes c vs) : ∀ v ∈ vs, v.isNull = true ∨ v.IsOperand r type := by
  cases h with
  | part hsubset => exact fun v hv => hc v (hsubset hv)
  | @text s htext t =>
    intro v hv
    obtain rfl := List.mem_singleton.mp hv
    obtain ⟨w, hw, hs⟩ := Option.bind_eq_some_iff.mp htext
    cases w <;> cases hs
    rcases hc _ (List.mem_of_mem_head? hw) with hnull | htyped
    · cases hnull
    · exact .inr (Registry.isOperand_text htyped t)

/-- No stage changes the type of operands. -/
lemma HasTypeOrNull.of_yields (hc : c.HasTypeOrNull r type) (h : c.Yields r d) :
    d.HasTypeOrNull r type := by
  cases h with
  | follows h => exact hc.of_passes h.operands
  | expands h =>
    intro v hv
    exact hc v (h.operands ▸ hv)

/-- A sibling has another type at most where an expansion leaves the type. -/
lemma HasTypeOrNull.own_of_yields (keeps : r.KeepsTypes) (admitted : r.Admits entity c.property)
    (hc : c.HasTypeOrNull r c.property.type) (h : c.Yields r d) :
    d.HasTypeOrNull r d.property.type := by
  have hd := hc.of_yields h
  cases h with
  | follows h =>
    rw [h.property]
    exact hd
  | expands h =>
    obtain ⟨p, names, name, hp, hexpand, hname, hsibling⟩ := h.declared
    obtain ⟨q, hq, hpath⟩ := Registry.exists_of_sibling hsibling
    obtain ⟨p', hp'⟩ := admitted.leaf
    obtain rfl := Option.some.inj (hp.symm.trans hp'.found)
    intro v hv
    refine (hd v hv).imp_right fun htyped => ?_
    have htype : d.property.type = q.path.type := by rw [hpath]; rfl
    rw [htype]
    refine keeps _ _ p names name q hp hexpand hname hq v ?_
    rw [← hp'.type]
    exact htyped

end Condition

/-! ### Prepared queries -/

/-- The operands of a condition that was read have no types yet. -/
lemma Grammar.Condition.untyped {ts : Tokens} {c : RawCondition} (h : Grammar.Condition ts c) :
    ∀ o ∈ c.operand?, ∀ s ∈ o.singles, s.Untyped := by
  have hliteral : ∀ {ts : Tokens} {o : Operand}, Grammar.Literal ts o →
      o.Untyped ∧ o.singles = [o] := by
    intro ts o h
    cases h <;> exact ⟨fun _ => by simp, rfl⟩
  have hliterals : ∀ {ts : Tokens} {os : List Operand}, Grammar.Literals ts os →
      ∀ o ∈ os, o.Untyped := by
    intro ts os h
    induction h with
    | last literal => exact List.forall_mem_singleton.mpr (hliteral literal).1
    | more literal _ ih => exact List.forall_mem_cons.mpr ⟨(hliteral literal).1, ih⟩
  obtain ⟨-, -, operand⟩ := h
  intro o ho
  cases operand with
  | nothing => cases ho
  | single _ _ literal =>
    obtain rfl := Option.some.inj ho
    obtain ⟨huntyped, hsingles⟩ := hliteral literal
    rw [hsingles]
    exact List.forall_mem_singleton.mpr huntyped
  | alone _ literal =>
    obtain rfl := Option.some.inj ho
    exact List.forall_mem_singleton.mpr (hliteral literal).1
  | list _ literals =>
    obtain rfl := Option.some.inj ho
    exact hliterals literals

lemma Registry.prepareText_eq_ok {text : String} {p : PreparedQuery} :
    r.prepareText context entity text = .ok p ↔
      ∃ q, RawQuery.parse text = .ok q ∧ RawQuery.prepare r context entity q = .ok p := by
  unfold prepareText
  cases RawQuery.parse text with
  | error e => simp
  | ok q => cases hq : q.prepare r context entity <;> simp_all

/-- **Prepared text.** Every condition has as many operands as its operator takes, of the type of
the property that the text names for them. They have the type of the condition's own property if
every expansion stays within a type. -/
theorem Registry.wellShaped_of_prepareText {text : String} {p : PreparedQuery}
    (h : r.prepareText context entity text = .ok p) {t : Predicate Condition}
    (ht : p.predicate = some t) :
    ∃ written, RawQuery.parse text = .ok written ∧ ∀ c ∈ t.conditions, c.WellShaped ∧
      (∃ b ∈ written.conditions, ∃ q, r.resolve entity b.property = .ok q ∧
        c.HasType r q.path.type) ∧
      (r.KeepsTypes → c.WellTyped r) := by
  obtain ⟨q, hparse, hprepare⟩ := prepareText_eq_ok.mp h
  refine ⟨q, hparse, fun c hc => ?_⟩
  have hprepared := RawQuery.prepared_of_prepare hprepare ht c hc
  have hshape := hprepared.wellShaped
  have hpresent : ∀ {type : PropertyType}, c.HasTypeOrNull r type → c.HasType r type := by
    intro type htype v hv
    refine (htype v hv).resolve_left ?_
    rw [hshape.present v hv]
    decide
  obtain ⟨e, raw, b, path, vs, t', he, hraw, hb, hpath, hvs, hsettle, hc⟩ :=
    RawQuery.exists_of_mem_prepare hprepare ht hc
  have hname := entity?_name he
  have hwritten : b ∈ q.conditions := by
    simpa [RawQuery.conditions, hraw] using hb
  obtain ⟨phrase, hphrase⟩ := (RawQuery.flat_and_phrases_of_parse hparse).2 b hwritten
  have hstart : Condition.HasTypeOrNull r ⟨path, b.operator, vs⟩ path.type :=
    isOperand_of_operandsOf hphrase.untyped hvs
  refine ⟨hshape, ?_, fun keeps => ?_⟩
  · obtain ⟨q', hresolve, rfl⟩ := exists_resolved_of_pathOf hpath
    rw [hname] at hresolve
    have hkeeps : ∀ c d : Condition, c.Yields r d → c.HasTypeOrNull r q'.path.type →
        d.HasTypeOrNull r q'.path.type := fun _ _ hyields hb => hb.of_yields hyields
    obtain ⟨htype, -⟩ := of_mem_settle hkeeps hstart hsettle c hc
    exact ⟨b, hwritten, q', hresolve, hpresent htype⟩
  · have hformed : Condition.Formed r entity ⟨path, b.operator, vs⟩ :=
      ⟨hname ▸ admits_of_pathOf hpath, operandsOf_unary hvs⟩
    have hkeeps : ∀ c d : Condition, c.Yields r d →
        c.Formed r entity ∧ c.HasTypeOrNull r c.property.type →
        d.Formed r entity ∧ d.HasTypeOrNull r d.property.type :=
      fun _ _ hyields hb => ⟨hb.1.of_yields hyields, hb.2.own_of_yields keeps hb.1.admitted hyields⟩
    obtain ⟨⟨-, htype⟩, -⟩ := of_mem_settle hkeeps ⟨hformed, hstart⟩ hsettle c hc
    exact ⟨hshape, hpresent htype⟩

namespace Orders

/-- The orders of Ann, by the search property of their customers. -/
def searchAnn : RawQuery :=
  .of (.cond ⟨"customer.search", .eq, some (.string "Ann")⟩)

/-- The orders that a name finds by the search property of their customers. -/
def search (name : String) : RawQuery :=
  .of (.cond ⟨"customer.search", .eq, some (.string name)⟩)

lemma parse_search (name : String) : RawQuery.parse (search name).text = .ok (search name) := by
  have hpath : IsPath (stepText "customer" false ++ "." ++ "search") :=
    .step (by decide) (.of_isName (by decide))
  have hwell : (search name).WellFormed := by
    refine ⟨fun p hp => ?_, by simp [search, Query.of]⟩
    obtain rfl := Option.some.inj hp
    exact .cond ⟨hpath, .literal rfl rfl (.string name)⟩
  exact hwell.parse_text

lemma parse_searchAnn : RawQuery.parse "customer.search = 'Ann'" = .ok searchAnn := by
  have htext : (search "Ann").text = "customer.search = 'Ann'" := by decide +kernel
  rw [← htext]
  exact parse_search "Ann"

lemma prepareText_searchAnn {names : List String} {p : PreparedQuery}
    (h : searchAnn.prepare (registry names) ⟨.startOf default, none⟩ "Order" = .ok p) :
    (registry names).prepareText ⟨.startOf default, none⟩ "Order" "customer.search = 'Ann'" =
      .ok p := by
  simp only [Registry.prepareText, parse_searchAnn, h]

/-- The name is a text, as the search property is. -/
lemma keepsTypes : (registry ["name"]).KeepsTypes := by
  intro owner name p names sibling q hp hexpand hmem hresolve v hv
  obtain ⟨d, hd, hp⟩ := Option.bind_eq_some_iff.mp hp
  have hname : d.name = owner := by simpa using List.find?_some hd
  have hentity := List.mem_of_find?_eq_some hd
  have hproperty := List.mem_of_find?_eq_some hp
  have hsearch : owner = "Person" ∧ p = ⟨"search", .text, true, some (.expand ["name"])⟩ := by
    simp only [registry, List.mem_cons, List.not_mem_nil, or_false] at hentity
    rcases hentity with rfl | rfl <;>
      simp only [List.mem_cons, List.not_mem_nil, or_false] at hproperty
    · rcases hproperty with rfl | rfl <;> cases hexpand
    · rcases hproperty with rfl | rfl | rfl | rfl
      · cases hexpand
      · cases hexpand
      · cases hexpand
      · exact ⟨hname.symm, rfl⟩
  obtain ⟨rfl, rfl⟩ := hsearch
  obtain rfl : names = ["name"] := by simpa [eq_comm] using hexpand
  obtain rfl := List.mem_singleton.mp hmem
  have hfound : (registry ["name"]).resolve "Person" "name" =
      .ok ⟨⟨[], ⟨"name", "Person", .text, true, false⟩⟩, ⟨"name", .text, true, none⟩⟩ := rfl
  obtain rfl := Except.ok.inj (hresolve.symm.trans hfound)
  exact hv

/-- Ann's orders, found by the name of their customers. -/
lemma prepareText_byName :
    (registry ["name"]).prepareText ⟨.startOf default, none⟩ "Order" "customer.search = 'Ann'" =
      .ok (.of (.cond ⟨ofCustomer "name" .text, .eq, [.text "Ann"]⟩)) :=
  prepareText_searchAnn (by cbv)

end Orders

open Orders in
/-- An expansion to a property of the same type keeps the operand's type. -/
theorem wellShaped_of_prepareText_byName :
    (registry ["name"]).prepareText ⟨.startOf default, none⟩ "Order" "customer.search = 'Ann'" =
        .ok (.of (.cond ⟨ofCustomer "name" .text, .eq, [.text "Ann"]⟩)) ∧
      Condition.WellTyped (registry ["name"]) ⟨ofCustomer "name" .text, .eq, [.text "Ann"]⟩ := by
  obtain ⟨_, _, hconditions⟩ := Registry.wellShaped_of_prepareText prepareText_byName rfl
  obtain ⟨-, -, htyped⟩ :=
    hconditions ⟨ofCustomer "name" .text, .eq, [.text "Ann"]⟩ (List.mem_singleton.mpr rfl)
  exact ⟨prepareText_byName, htyped keepsTypes⟩

open Orders in
/-- An expansion to a number leaves a text there. -/
theorem exists_prepareText_not_wellTyped : ∃ p t c,
    (registry ["name", "age"]).prepareText ⟨.startOf default, none⟩ "Order"
        "customer.search = 'Ann'" = .ok p ∧
      p.predicate = some t ∧ c ∈ t.conditions ∧ c.property.type = .int ∧
      c.operands = [.text "Ann"] ∧ ¬ c.WellTyped (registry ["name", "age"]) := by
  refine ⟨ofAnn, _, ⟨ofCustomer "age" .int, .eq, [.text "Ann"]⟩, prepareText_searchAnn (by cbv), rfl,
    by simp, rfl, rfl, fun h => ?_⟩
  have htyped : Value.IsOperand (registry ["name", "age"]) .int (.text "Ann") :=
    h.typed _ (List.mem_singleton.mpr rfl)
  cases htyped

end EntityQuery
