import EntityQuery.Proofs.Preparation.Operands
import EntityQuery.Proofs.Preparation.Turned
import EntityQuery.Proofs.Registry.Legible

/-!
# Conditions behind a collection

A path may be continued in front, by the elements of a collection that it starts from. The condition
on the longer path is prepared for the owner of the collection as the condition on the shorter one
is for the elements: the text of a path matters for errors only, and settling turns.
-/

namespace EntityQuery

variable {r : Registry} {context : QueryContext} {entity target a : String} {d : PropertyDef}

/-! ### Paths -/

/-- The step through the elements of a collection. -/
def PropertyDef.elements (entity : String) (d : PropertyDef) : PathSegment :=
  ⟨d.name, entity, d.type, d.nullable, true⟩

/-- The step has the name that the collection is declared under. -/
lemma PropertyDef.elements_name (declared : r.property? entity a = some d) :
    (d.elements entity).name = a :=
  (Registry.declared_of_property? declared).1

lemma PathStep.ofPath_indexed (plain : '.' ∉ a.toList) (path : String) :
    ofPath (a ++ "[]." ++ path) = ⟨a, true⟩ :: ofPath path := by
  have htext : (a ++ "[]." ++ path).toList = (a.toList ++ ['[', ']']) ++ '.' :: path.toList := by
    simp
  have hplain : '.' ∉ a.toList ++ ['[', ']'] := by simp [plain]
  rw [ofPath, htext, splitDots_append, splitDots_plain hplain]
  simp [ofPath, ofPiece]

/-- A path from the elements of a collection is found behind it. -/
lemma Registry.resolve_behind (declared : r.property? entity a = some d)
    (type : d.type = .collection (.entity target)) (named : a ≠ "") (plain : '.' ∉ a.toList)
    {path : String} {q : Resolved} (h : r.resolve target path = .ok q) :
    r.resolve entity (a ++ "[]." ++ path) =
      .ok ⟨q.path.behind [d.elements entity], q.definition⟩ := by
  obtain ⟨hadmits, hleaf⟩ := admits_of_resolve h
  obtain rfl : d.name = a := PropertyDef.elements_name declared
  have hhop : r.Declares (d.elements entity) d := ⟨declared, rfl, rfl, named, plain⟩
  have hleads : r.Leads entity (d.elements entity :: q.path.parents) q.path.leaf.owner :=
    .step rfl hhop type hadmits.parents
  obtain ⟨e, he, hfollow⟩ :=
    follow_of_leads (d.name ++ "[]." ++ path) hleads hleaf hadmits.unindexed
  have hsteps : q.path.segments.map PathSegment.step = PathStep.ofPath path := by
    unfold resolve at h
    split at h
    · cases h
    · exact steps_of_follow h
  rw [resolve, he]
  simp only [PathStep.ofPath_indexed plain, ← hsteps]
  exact hfollow

/-! ### Operands -/

namespace Registry

variable {site : OperandSite} {type : PropertyType} {v : Value} {property : String}

lemma convert_site {l : Literal} (h : r.convert site type l = .ok v) (site' : OperandSite) :
    r.convert site' type l = .ok v :=
  convert_eq_ok.mpr (convert_eq_ok.mp h)

lemma functionValue_site {f : Function} (h : r.functionValue context site type f = .ok v)
    (site' : OperandSite) : r.functionValue context site' type f = .ok v := by
  unfold functionValue at h ⊢
  split at h
  · split at h
    · cases h
    · exact convert_site h site'
  · split at h
    · exact h
    · exact h
    · cases h

lemma coerce_property {o : Operand} (h : r.coerce context property type o = .ok v)
    (property' : String) : r.coerce context property' type o = .ok v := by
  unfold coerce at h ⊢
  split at h
  all_goals first
    | exact h
    | exact convert_site h _
    | exact functionValue_site h _
    | cases h

lemma coerceAll_property {os : List Operand} {vs : List Value}
    (h : r.coerceAll context property type os = .ok vs) (property' : String) :
    r.coerceAll context property' type os = .ok vs := by
  induction os generalizing vs with
  | nil => exact h
  | cons o os ih =>
    obtain ⟨v, ws, ho, hws, rfl⟩ := coerceAll_cons_eq_ok.mp h
    exact coerceAll_cons_eq_ok.mpr ⟨v, ws, coerce_property ho property', ih hws, rfl⟩

/-- Operands are converted for the type of a property, whatever the path to it is. -/
lemma operandsOf_path {path path' : PropertyPath} {c : RawCondition} {vs : List Value}
    (htype : path'.type = path.type) (h : r.operandsOf context path c = .ok vs)
    (property : String) :
    r.operandsOf context path' ⟨property, c.operator, c.operand?⟩ = .ok vs := by
  unfold operandsOf at h ⊢
  rw [htype]
  cases ho : c.operand? with
  | none => cases hu : c.operator.isUnary <;> simp_all
  | some o =>
    simp only [ho] at h
    cases hu : c.operator.isUnary with
    | true => simp [hu] at h
    | false =>
      have hsingle : (r.coerce context path.text path.type o).map (fun v => [v]) = .ok vs →
          (r.coerce context path'.text path.type o).map (fun v => [v]) = .ok vs := by
        intro hmap
        obtain ⟨v, hv, rfl⟩ := exists_of_map_eq_ok hmap
        rw [coerce_property hv path'.text]
        rfl
      cases o with
      | list items =>
        cases ha : c.operator.acceptsList with
        | true =>
          simp only [hu, ha, if_true] at h ⊢
          exact coerceAll_property h _
        | false => simp [hu, ha] at h
      | _ =>
        simp only [hu] at h ⊢
        exact hsingle h

end Registry

/-! ### Preparing -/

/-- **Preparing behind a collection**: what the condition is prepared to for the elements, behind
the collection. -/
theorem RawQuery.prepare_behind {c : RawCondition} {p : PreparedQuery}
    (declared : r.property? entity a = some d) (type : d.type = .collection (.entity target))
    (named : a ≠ "") (plain : '.' ∉ a.toList)
    (hp : RawQuery.prepare r context target (.of (.cond c)) = .ok p) :
    ∃ t, p = .of t ∧ t.Only c.operator.side ∧
      (∀ e ∈ t.conditions, e.operator.side = c.operator.side) ∧
      RawQuery.prepare r context entity
        (.of (.cond ⟨a ++ "[]." ++ c.property, c.operator, c.operand?⟩)) =
          .ok (.of (t.behind [d.elements entity] false)) := by
  obtain ⟨e, path, vs, t, he, hpath, hvs, hsettle, rfl⟩ := prepare_cond_eq_ok.mp hp
  obtain ⟨q, hq, rfl⟩ := Registry.exists_resolved_of_pathOf hpath
  rw [Registry.entity?_name he] at hq
  have hresolve := Registry.resolve_behind declared type named plain hq
  obtain ⟨owner, howner, -⟩ := Option.bind_eq_some_iff.mp declared
  have hbehind : r.pathOf owner (a ++ "[]." ++ c.property) =
      .ok (q.path.behind [d.elements entity]) := by
    simp [Registry.pathOf, Registry.entity?_name howner, hresolve]
  have htype : (q.path.behind [d.elements entity]).type = q.path.type := rfl
  have hturns : Condition.Turns false ⟨q.path, c.operator, vs⟩ := fun h => by cases h
  have hsides := Registry.sides_of_settle hsettle
  refine ⟨t, rfl, hsides.only, hsides.side, prepare_cond_eq_ok.mpr ⟨owner, _, vs, _, howner,
    hbehind, ?_, ?_, rfl⟩⟩
  · exact Registry.operandsOf_path htype hvs _
  · exact Registry.settle_turned hturns hsettle

end EntityQuery
