import EntityQuery.Proofs.Preparation.Frozen

/-!
# What accepting a query amounts to

A query that comes prepared may have been made by hand. Accepting it means that every path is found
in the registry again and that every condition and every sort clause passes its check; a query that
is prepared from text has these properties too, so both kinds of queries can be treated alike.
-/

namespace EntityQuery

variable {r : Registry} {context : QueryContext} {entity : String}

/-- What accepting a query promises about each condition, whoever made it. A unary operator may
have operands all the same. -/
structure Condition.Accepted (r : Registry) (entity : String) (c : Condition) : Prop where
  admitted : r.Admits entity c.property
  checked : c.check = .ok ()

/-- What accepting a query promises about each property that it is sorted by. -/
structure PropertyPath.Sortable (r : Registry) (entity : String) (p : PropertyPath) : Prop where
  admitted : r.Admits entity p
  single : p.isMultiValued = false
  plain : p.type.isCollection = false

lemma PropertyPath.Sortable.of_check {p : PropertyPath} (hp : r.Admits entity p)
    (h : p.checkSortable = .ok ()) : p.Sortable r entity := by
  unfold checkSortable at h
  cases hmulti : p.isMultiValued <;> cases hmany : p.type.isCollection <;> simp_all [Sortable.mk]

namespace Registry

variable {e : EntityDef}

/-- A path that is found again is one that the registry admits. -/
lemma admits_of_revalidate {path : PropertyPath} (h : r.revalidate e path = .ok ()) :
    r.Admits e.name path := by
  unfold revalidate at h
  cases hpath : r.pathOf e path.text with
  | error err => simp [hpath] at h
  | ok again =>
    by_cases hsame : again = path
    · exact hsame ▸ admits_of_pathOf hpath
    · simp [hpath, hsame] at h

lemma of_recheckConditions {cs : List Condition} (h : r.recheckConditions e cs = .ok ()) :
    ∀ c ∈ cs, r.revalidate e c.property = .ok () ∧ c.check = .ok () := by
  induction cs with
  | nil => simp
  | cons c cs ih =>
    rw [recheckConditions] at h
    cases hpath : r.revalidate e c.property with
    | error err => simp [hpath] at h
    | ok u =>
      cases hcheck : c.check with
      | error err => simp [hpath, hcheck] at h
      | ok u =>
        simp only [hpath, hcheck] at h
        exact List.forall_mem_cons.mpr ⟨⟨hpath, hcheck⟩, ih h⟩

lemma of_recheckOrders {os : List (Order PropertyPath)} (h : r.recheckOrders e os = .ok ()) :
    ∀ o ∈ os, r.revalidate e o.property = .ok () ∧ o.property.checkSortable = .ok () := by
  induction os with
  | nil => simp
  | cons o os ih =>
    rw [recheckOrders] at h
    cases hpath : r.revalidate e o.property with
    | error err => simp [hpath] at h
    | ok u =>
      cases hcheck : o.property.checkSortable with
      | error err => simp [hpath, hcheck] at h
      | ok u =>
        simp only [hpath, hcheck] at h
        exact List.forall_mem_cons.mpr ⟨⟨hpath, hcheck⟩, ih h⟩

end Registry

/-- What accepting a prepared query amounts to, part by part. -/
lemma PreparedQuery.exists_of_prepare {q p : PreparedQuery} (h : q.prepare r entity = .ok p) :
    ∃ e, r.entity? entity = some e ∧
      (∀ t, p.predicate = some t → ∀ c ∈ t.conditions,
        r.revalidate e c.property = .ok () ∧ c.check = .ok ()) ∧
      ∀ o ∈ p.orders, r.revalidate e o.property = .ok () ∧ o.property.checkSortable = .ok () := by
  obtain rfl := eq_of_prepare h
  unfold prepare Registry.requireEntity at h
  cases he : r.entity? entity with
  | none => simp [he] at h
  | some e =>
    simp only [he] at h
    cases hc : r.recheckConditions e ((p.predicate.map Predicate.conditions).getD []) with
    | error err => simp [hc] at h
    | ok u =>
      simp only [hc] at h
      obtain ⟨u, ho, -⟩ := exists_of_map_eq_ok h
      refine ⟨e, rfl, fun t ht c hmem => ?_, Registry.of_recheckOrders ho⟩
      exact Registry.of_recheckConditions hc c (by simpa [ht] using hmem)

/-- A query that preparation accepts, written or made, is accepted again. -/
lemma Registry.recheck_of_prepare {q : Preparable} {p : PreparedQuery}
    (h : r.prepare context entity q = .ok p) : p.prepare r entity = .ok p := by
  cases q with
  | raw q => exact RawQuery.prepare_of_prepare h
  | prepared q =>
    obtain rfl := PreparedQuery.eq_of_prepare h
    exact h

/-- **Accepted queries**: every condition is on a path that the registry admits and passes the
check, and every sort clause is on a path to single values. -/
theorem Registry.accepted_of_prepare {q : Preparable} {p : PreparedQuery}
    (h : r.prepare context entity q = .ok p) :
    (∀ t, p.predicate = some t → ∀ c ∈ t.conditions, c.Accepted r entity) ∧
      ∀ o ∈ p.orders, o.property.Sortable r entity := by
  obtain ⟨e, he, hconditions, horders⟩ := PreparedQuery.exists_of_prepare (recheck_of_prepare h)
  obtain rfl := entity?_name he
  refine ⟨fun t ht c hc => ?_, fun o ho => ?_⟩
  · obtain ⟨hpath, hcheck⟩ := hconditions t ht c hc
    exact ⟨admits_of_revalidate hpath, hcheck⟩
  · obtain ⟨hpath, hcheck⟩ := horders o ho
    exact .of_check (admits_of_revalidate hpath) hcheck

end EntityQuery
