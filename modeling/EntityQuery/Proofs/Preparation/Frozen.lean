import EntityQuery.Proofs.Preparation.Settled
import EntityQuery.Proofs.Registry.Legible

/-!
# Prepared queries are frozen

Preparing a prepared query resolves every path from its text again and checks every condition again.
The paths that preparation yields are legible, also those of siblings that were never resolved from
the start, so the query that comes out is accepted and stays as it is.
-/

namespace EntityQuery

variable {r : Registry} {context : QueryContext} {entity : String}

/-! ### Paths stay legible -/

/-- The path to a sibling is made of steps that were read. -/
lemma Registry.legible_sibling {c : Condition} {name : String} {path : PropertyPath}
    (hc : c.property.Legible) (h : r.sibling c name = .ok path) : path.Legible := by
  obtain ⟨q, hq, rfl⟩ := exists_of_sibling h
  intro s hs
  have hsegments : s ∈ c.property.parents ∨ s ∈ q.path.segments := by
    simpa [PropertyPath.segments, or_assoc] using hs
  rcases hsegments with hs | hs
  · exact hc s (List.mem_append_left _ hs)
  · exact legible_of_resolve hq s hs

lemma Condition.legible_of_yields {c d : Condition} (h : c.Yields r d)
    (hc : c.property.Legible) : d.property.Legible := by
  cases h with
  | follows h =>
    rw [h.property]
    exact hc
  | expands h =>
    obtain ⟨name, hpath⟩ := h.exists_sibling
    exact Registry.legible_sibling hc hpath

lemma Registry.legible_of_pathOf {e : EntityDef} {path : String} {p : PropertyPath}
    (h : r.pathOf e path = .ok p) : p.Legible := by
  obtain ⟨q, hq, rfl⟩ := exists_resolved_of_pathOf h
  exact legible_of_resolve hq

/-- The paths of prepared conditions are legible. -/
lemma RawQuery.legible_of_prepare {q : RawQuery} {p : PreparedQuery}
    (h : q.prepare r context entity = .ok p) {t : Predicate Condition}
    (ht : p.predicate = some t) : ∀ c ∈ t.conditions, c.property.Legible := by
  intro c hc
  obtain ⟨e, -, b, path, vs, t', -, -, -, hpath, -, hsettle, hc⟩ := exists_of_mem_prepare h ht hc
  have hstart : (Condition.mk path b.operator vs).property.Legible :=
    Registry.legible_of_pathOf hpath
  exact (Registry.of_mem_settle (fun _ _ => Condition.legible_of_yields) hstart hsettle c hc).1

/-! ### Checking again -/

namespace Registry

variable {e : EntityDef}

/-- A legible path that the registry admits is found by its text. -/
lemma pathOf_text {path : PropertyPath} (h : r.Admits e.name path) (legible : path.Legible) :
    r.pathOf e path.text = .ok path := by
  obtain ⟨definition, hresolve⟩ := h.resolve_text legible
  simp [pathOf, hresolve]

/-- A legible path that the registry admits has not changed. -/
lemma revalidate_of_admits {path : PropertyPath} (h : r.Admits e.name path)
    (legible : path.Legible) : r.revalidate e path = .ok () := by
  simp [revalidate, pathOf_text h legible]

lemma recheckConditions_eq_ok {cs : List Condition}
    (h : ∀ c ∈ cs, r.revalidate e c.property = .ok () ∧ c.check = .ok ()) :
    r.recheckConditions e cs = .ok () := by
  induction cs with
  | nil => rfl
  | cons c cs ih =>
    obtain ⟨hpath, hcheck⟩ := h c (by simp)
    simp only [recheckConditions, hpath, hcheck]
    exact ih fun d hd => h d (by simp [hd])

lemma recheckOrders_eq_ok {os : List (Order PropertyPath)}
    (h : ∀ o ∈ os, r.revalidate e o.property = .ok () ∧ o.property.checkSortable = .ok ()) :
    r.recheckOrders e os = .ok () := by
  induction os with
  | nil => rfl
  | cons o os ih =>
    obtain ⟨hpath, hcheck⟩ := h o (by simp)
    simp only [recheckOrders, hpath, hcheck]
    exact ih fun o' ho' => h o' (by simp [ho'])

end Registry

lemma PreparedQuery.prepare_eq_ok {e : EntityDef} {p : PreparedQuery}
    (he : r.entity? entity = some e)
    (hconditions : ∀ t, p.predicate = some t → ∀ c ∈ t.conditions,
      r.revalidate e c.property = .ok () ∧ c.check = .ok ())
    (horders : ∀ o ∈ p.orders,
      r.revalidate e o.property = .ok () ∧ o.property.checkSortable = .ok ()) :
    p.prepare r entity = .ok p := by
  have hrecheck : r.recheckConditions e ((p.predicate.map Predicate.conditions).getD []) =
      .ok () := by
    refine Registry.recheckConditions_eq_ok fun c hc => ?_
    cases ht : p.predicate with
    | none => simp [ht] at hc
    | some t => exact hconditions t ht c (by simpa [ht] using hc)
  simp [prepare, Registry.requireEntity, he, hrecheck, Registry.recheckOrders_eq_ok horders,
    Except.map]

/-- What preparing yields is accepted as it is. -/
lemma RawQuery.prepare_of_prepare {q : RawQuery} {p : PreparedQuery}
    (h : q.prepare r context entity = .ok p) : PreparedQuery.prepare r entity p = .ok p := by
  obtain ⟨e, he, horders, -⟩ := exists_of_prepare h
  refine PreparedQuery.prepare_eq_ok he (fun t ht c hc => ?_) fun o ho => ?_
  · have hprepared := prepared_of_prepare h ht c hc
    have hadmits : r.Admits e.name c.property := Registry.entity?_name he ▸ hprepared.admitted
    exact ⟨Registry.revalidate_of_admits hadmits (legible_of_prepare h ht c hc),
      hprepared.checked⟩
  · obtain ⟨o', -, hpath, hsortable⟩ := Registry.exists_of_prepareOrders horders o ho
    exact ⟨Registry.revalidate_of_admits (Registry.admits_of_pathOf hpath)
      (Registry.legible_of_pathOf hpath), hsortable⟩

/-- A prepared query is not changed. -/
lemma PreparedQuery.eq_of_prepare {q p : PreparedQuery} (h : q.prepare r entity = .ok p) :
    p = q := by
  unfold prepare at h
  cases he : r.requireEntity entity with
  | error err => simp [he] at h
  | ok e =>
    cases hc : r.recheckConditions e ((q.predicate.map Predicate.conditions).getD []) with
    | error err => simp [he, hc] at h
    | ok u =>
      cases ho : r.recheckOrders e q.orders with
      | error err => simp [he, hc, ho, Except.map] at h
      | ok u => simpa [he, hc, ho, Except.map, eq_comm] using h

/-- **Preparation is idempotent**, and what it yields is frozen: it is prepared to itself in any
context, at any time and for any user. -/
theorem prepare_prepared {q : Preparable} {p : PreparedQuery}
    (h : r.prepare context entity q = .ok p) (context' : QueryContext) :
    r.prepare context' entity (.prepared p) = .ok p := by
  cases q with
  | raw q => exact RawQuery.prepare_of_prepare h
  | prepared q =>
    obtain rfl := PreparedQuery.eq_of_prepare h
    exact h

namespace Orders

/-- Orders of persons. The search property of a person stands for others. -/
def registry (names : List String) : Registry :=
  ⟨[⟨"Order", "id", [⟨"id", .text, false, none⟩, ⟨"customer", .entity "Person", true, none⟩]⟩,
    ⟨"Person", "id", [⟨"id", .text, false, none⟩, ⟨"name", .text, true, none⟩,
      ⟨"age", .int, true, none⟩, ⟨"search", .text, true, some (.expand names)⟩]⟩]⟩

/-- The path from an order to a property of its customer. -/
def ofCustomer (name : String) (type : PropertyType) : PropertyPath :=
  ⟨[⟨"customer", "Order", .entity "Person", true, false⟩], ⟨name, "Person", type, true, false⟩⟩

/-- The orders of the current user. -/
def mine : RawQuery :=
  .of (.cond ⟨"customer.search", .eq, some (.function .currentUser)⟩)

/-- The orders of Ann, whoever asks for them. -/
def ofAnn : PreparedQuery :=
  .of (.or [.cond ⟨ofCustomer "name" .text, .eq, [.text "Ann"]⟩,
    .cond ⟨ofCustomer "age" .int, .eq, [.text "Ann"]⟩])

lemma prepare_mine :
    (registry ["name", "age"]).prepare ⟨.startOf default, some "Ann"⟩ "Order" (.raw mine) =
      .ok ofAnn := by
  cbv

end Orders

open Orders in
/-- The properties behind the association are found again, and without a user. -/
theorem prepare_prepared_ofAnn :
    (registry ["name", "age"]).prepare ⟨.startOf default, some "Ann"⟩ "Order" (.raw mine) =
        .ok ofAnn ∧
      (registry ["name", "age"]).prepare ⟨.startOf default, none⟩ "Order" (.prepared ofAnn) =
        .ok ofAnn :=
  ⟨prepare_mine, prepare_prepared prepare_mine _⟩

end EntityQuery
