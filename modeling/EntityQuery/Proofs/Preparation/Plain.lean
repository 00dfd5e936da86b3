import EntityQuery.Proofs.Preparation.Spread
import EntityQuery.Proofs.RawQuery.WellFormed

/-!
# Conditions that are prepared as they are

A name is resolved to the property of that name, and a name behind another to the property of the
entity type that the first one leads to. An equality, or a containment, with a single operand remains
as it is, unless the operand is null or the empty text, or the property is translated.
-/

namespace EntityQuery

variable {r : Registry} {context : QueryContext}

/-! ### Names as paths -/

/-- A name that is read, as a path, as one step of that name. -/
def PathStep.IsStep (name : String) : Prop :=
  name ≠ "" ∧ PathStep.ofPath name = [⟨name, false⟩]

instance (name : String) : Decidable (PathStep.IsStep name) :=
  inferInstanceAs (Decidable (name ≠ "" ∧ PathStep.ofPath name = [⟨name, false⟩]))

namespace PathStep

lemma not_mem_of_splitDots {cs piece : List Char} (h : splitDots cs = [piece]) : '.' ∉ cs := by
  intro hdot
  obtain ⟨front, back, rfl⟩ := List.append_of_mem hdot
  rw [splitDots_append] at h
  have hlength := congrArg List.length h
  have hfront := List.length_pos_of_ne_nil (splitDots_ne_nil front)
  have hback := List.length_pos_of_ne_nil (splitDots_ne_nil back)
  simp only [List.length_append, List.length_singleton] at hlength
  omega

lemma IsStep.plain {name : String} (h : IsStep name) : '.' ∉ name.toList := by
  obtain ⟨piece, hpiece, -⟩ := List.map_eq_singleton_iff.mp h.2
  exact not_mem_of_splitDots hpiece

lemma IsStep.legible {s : PathSegment} (h : IsStep s.name) : s.Legible := by
  have hpieces := h.2
  rw [ofPath, splitDots_plain h.plain, List.map_singleton, List.singleton_inj] at hpieces
  unfold PathSegment.Legible PathSegment.text PathSegment.step
  cases s.indexed with
  | true => simp [ofPiece]
  | false => exact hpieces

end PathStep

open PathStep (IsStep)

namespace Registry

variable {owner target name : String} {p q : PropertyDef} {indexed : Bool}

/-- A property as the end of a path. -/
def leafOf (owner : String) (p : PropertyDef) : PathSegment :=
  ⟨p.name, owner, p.type, p.nullable, false⟩

/-- An association as a step of a path. -/
def hopOf (owner : String) (p : PropertyDef) (indexed : Bool) : PathSegment :=
  ⟨p.name, owner, p.type, p.nullable, indexed⟩

lemma declares_of_property? {s : PathSegment} (h : r.property? s.owner s.name = some p)
    (hname : IsStep s.name) (htype : s.type = p.type) (hnullable : s.nullable = p.nullable) :
    r.Declares s p :=
  ⟨h, htype, hnullable, hname.1, hname.plain⟩

/-- A name is resolved to the property that is declared under it. -/
lemma resolve_name (h : r.property? owner name = some p) (hname : IsStep name) :
    ∃ definition, r.resolve owner name = .ok ⟨⟨[], leafOf owner p⟩, definition⟩ := by
  obtain rfl : p.name = name := (declared_of_property? h).1
  have hadmits : r.Admits owner ⟨[], leafOf owner p⟩ :=
    ⟨.here, ⟨p, declares_of_property? h hname rfl rfl⟩, rfl⟩
  refine hadmits.resolve_text fun s hs => ?_
  obtain rfl := List.mem_singleton.mp hs
  exact hname.legible

/-- A name behind an association is resolved to the property of the entity type it leads to. -/
lemma resolve_behind_name {a : String} (h : r.property? owner a = some p) (ha : IsStep a)
    (type : p.type = .association indexed target) (hq : r.property? target name = some q)
    (hname : IsStep name) :
    ∃ definition, r.resolve owner (stepText a indexed ++ "." ++ name) =
      .ok ⟨⟨[hopOf owner p indexed], leafOf target q⟩, definition⟩ := by
  obtain rfl : p.name = a := (declared_of_property? h).1
  obtain rfl : q.name = name := (declared_of_property? hq).1
  have hadmits : r.Admits owner ⟨[hopOf owner p indexed], leafOf target q⟩ :=
    ⟨.step rfl (declares_of_property? h ha rfl rfl) type .here,
      ⟨q, declares_of_property? hq hname rfl rfl⟩, rfl⟩
  have htext : PropertyPath.text ⟨[hopOf owner p indexed], leafOf target q⟩ =
      stepText p.name indexed ++ "." ++ q.name := by
    cases indexed <;> simp [PropertyPath.text, hopOf, leafOf, PathSegment.text, stepText]
  rw [← htext]
  refine hadmits.resolve_text fun s hs => ?_
  rcases List.mem_pair.mp hs with rfl | rfl
  · exact ha.legible
  · exact hname.legible

end Registry

/-! ### Settling -/

/-- A condition with a single value that no rule has anything to say about: an equality, or the
containment in a collection, with a value that is neither null nor an empty text. -/
structure Condition.Plain (c : Condition) (v : Value) : Prop where
  operator : c.operator = .eq ∨ c.operator = .contains ∧ c.property.kind = .collection
  operands : c.operands = [v]
  present : v.isNull = false
  filled : c.property.kind = .text → v ≠ .text ""

namespace Condition.Plain

variable {c : Condition} {v : Value} {t : Predicate Condition}

lemma rule_eq_none (h : c.Plain v) {f : Rule} (hf : f ∈ Rule.all) : f c = none := by
  obtain ⟨property, operator, operands⟩ := c
  obtain ⟨hop, rfl, present, filled⟩ := h
  have hnull : v ≠ .null := by
    rintro rfl
    cases present
  simp only [Rule.all, List.mem_cons, List.not_mem_nil, or_false] at hf
  rcases hf with rfl | rfl | rfl | rfl | rfl | rfl
  · rcases hop with rfl | ⟨rfl, -⟩ <;> rfl
  · refine Rule.nullComparison_eq_none fun hvs => hnull ?_
    simpa using hvs
  · simp [Rule.nullInList, present]
  · rcases hop with rfl | ⟨rfl, -⟩ <;> simp [Rule.containsList, present]
  · rcases hop with rfl | ⟨rfl, hkind⟩
    · unfold Rule.textContains
      split <;> simp_all
    · simp only at hkind
      simp [Rule.textContains, hkind]
  · refine Condition.emptyText_eq_none_of_not_blank ?_
    rintro ⟨hkind, -, htext⟩
    exact filled hkind (Rule.text?_of_single rfl htext)

/-- The translator of a property that stands for no others repeats a condition whose operand is no
text, if it says anything. -/
lemma eq_of_translator (h : c.Plain v) (htext : v.text? = none)
    (real : ∀ p names, r.property? c.property.leaf.owner c.property.leaf.name = some p →
      p.translator? ≠ some (.expand names)) (ht : Stage.translator r c = .ok (some t)) :
    t = .cond c := by
  obtain ⟨p, translator, hp, htranslator, htranslate⟩ := Stage.translator_eq_some ht
  cases translator with
  | expand names => exact absurd htranslator (real p names hp)
  | ignoreCase =>
    obtain rfl := Except.ok.inj htranslate
    have hnone : c.text? = none := by
      rw [Condition.text?, h.operands]
      exact htext
    rw [Translator.disregardCase, hnone]
    cases c.operator <;> rfl

/-- A plain condition is what remains of it. -/
lemma eq_of_settle (h : c.Plain v)
    (translated : ∀ t, Stage.translator r c = .ok (some t) → t = .cond c)
    (hsettle : r.settle c = .ok t) : t = .cond c := by
  rcases Stage.settle_eq_ok hsettle with ⟨-, -, rfl⟩ | ⟨n, p, hchange, -⟩
  · rfl
  · obtain ⟨stage, hmem, hs, hne⟩ := Stage.exists_of_firstChange hchange
    have hp : p = .cond c := by
      have hmem := List.mem_of_mem_drop hmem
      simp only [Stage.all, List.mem_append, List.mem_map, List.mem_singleton] at hmem
      rcases hmem with ⟨f, hf, rfl⟩ | rfl
      · simp [Stage.ofRule, h.rule_eq_none hf] at hs
      · exact translated p hs
    subst hp
    -- a condition that is repeated would be repeated forever if it were not equal to itself
    have hself : (c == c) = true := Stage.Settles.beq_self ⟨t, hsettle⟩ hchange (by simp)
    rw [Predicate.beq_cond_eq] at hne
    simp [Predicate.isCond, hself] at hne

end Condition.Plain

/-- A condition on a resolved path that is plain once its operand is converted is prepared as it
is. -/
lemma RawQuery.prepare_plain {entity text : String} {operator : Operator} {x : Operand}
    {q : Resolved} {v : Value} {A : PreparedQuery} (hq : r.resolve entity text = .ok q)
    (binary : operator.isUnary = false) (single : ∀ items, x ≠ .list items)
    (hv : r.coerce context q.path.text q.path.type x = .ok v)
    (plain : Condition.Plain ⟨q.path, operator, [v]⟩ v)
    (translated : ∀ t, Stage.translator r ⟨q.path, operator, [v]⟩ = .ok (some t) →
      t = .cond ⟨q.path, operator, [v]⟩)
    (h : RawQuery.prepare r context entity (.of (.cond ⟨text, operator, some x⟩)) = .ok A) :
    A = .of (.cond ⟨q.path, operator, [v]⟩) ∧ Condition.Prepared r entity ⟨q.path, operator, [v]⟩ := by
  obtain ⟨e, path, vs, t, he, hpath, hvs, hsettle, rfl⟩ := RawQuery.prepare_cond_eq_ok.mp h
  obtain ⟨q', hq', rfl⟩ := Registry.exists_resolved_of_pathOf hpath
  rw [Registry.entity?_name he] at hq'
  obtain rfl := Except.ok.inj (hq.symm.trans hq')
  rw [Registry.operandsOf_single binary single, hv] at hvs
  obtain rfl := Except.ok.inj hvs
  obtain rfl := plain.eq_of_settle translated hsettle
  exact ⟨rfl, RawQuery.prepared_of_prepare h rfl _ (by simp)⟩

end EntityQuery
