import EntityQuery.Proofs.Dataset.Loaded
import EntityQuery.Proofs.Preparation.Nested
import EntityQuery.Proofs.Registry.Closed

/-!
# Entity types that preparation does not miss

Only paths are resolved while a query is prepared, from the entity type that the query is about: no
operand and no rule resolves anything. The main statement is that a query about an entity type of a
loaded dataset is never refused because an entity type on its paths is unknown.
-/

namespace EntityQuery

/-- The error is that something does not resolve. -/
def PrepareError.isResolve : PrepareError → Bool
  | resolve _ => true
  | _ => false

variable {r : Registry} {context : QueryContext} {error : PrepareError}

/-! ### Operands -/

namespace Registry

variable {site : OperandSite} {l : Literal} {type : PropertyType} {property : String}

lemma isResolve_of_convertVia {visited : List String}
    (h : r.convertVia site l visited type = .error error) : error.isResolve = false := by
  fun_induction convertVia r site l visited type with
  | case1 visited element ih => exact ih h
  | case2 => cases h
  | case3 =>
    obtain rfl := Except.error.inj h
    rfl
  | case4 =>
    obtain rfl := Except.error.inj h
    rfl
  | case5 _ _ _ _ _ _ ih => exact ih (eq_error_of_map h)
  | case6 => cases h
  | case7 =>
    obtain rfl := Except.error.inj h
    rfl

lemma isResolve_of_coerce {o : Operand} (h : r.coerce context property type o = .error error) :
    error.isResolve = false := by
  unfold coerce at h
  split at h
  case h_1 | h_2 => cases h
  case h_8 =>
    unfold functionValue at h
    split at h
    · split at h
      · cases h
        rfl
      · exact isResolve_of_convertVia h
    · split at h <;> cases h
      rfl
  case h_9 =>
    cases h
    rfl
  all_goals exact isResolve_of_convertVia h

lemma isResolve_of_coerceAll {os : List Operand}
    (h : r.coerceAll context property type os = .error error) : error.isResolve = false := by
  induction os with
  | nil => cases h
  | cons o os ih =>
    rw [coerceAll] at h
    cases ho : r.coerce context property type o with
    | error e =>
      simp only [ho, Except.error.injEq] at h
      exact h ▸ isResolve_of_coerce ho
    | ok v =>
      simp only [ho] at h
      exact ih (eq_error_of_map h)

lemma isResolve_of_operandsOf {path : PropertyPath} {c : RawCondition}
    (h : r.operandsOf context path c = .error error) : error.isResolve = false := by
  unfold operandsOf at h
  split at h
  · cases h
  · cases h
    rfl
  · cases h
    rfl
  · split at h
    · exact isResolve_of_coerceAll h
    · cases h
      rfl
  · exact isResolve_of_coerce (eq_error_of_map h)

end Registry

/-! ### Rules -/

namespace Stage

lemma isResolve_of_settle {depth start : Nat} {c : Condition}
    (h : settle (all r) Condition.check depth start c = .error error) :
    error.isResolve = false := by
  induction depth generalizing start c with
  | zero =>
    obtain rfl := Except.error.inj h
    rfl
  | succ depth ih =>
    rcases settle_eq_error h with (hstage | ⟨-, hcheck⟩) | ⟨n, p, -, hp⟩
    · obtain ⟨stage, hmem, hs⟩ := exists_of_firstChange_eq_error hstage
      obtain ⟨refused, rfl⟩ := exists_of_mem_all_eq_error (List.mem_of_mem_drop hmem) hs
      rfl
    · rcases error_of_check hcheck with rfl | ⟨fault, rfl⟩ <;> rfl
    · obtain ⟨-, d, -, -, -, hd⟩ := Predicate.exists_of_mapM_eq_error hp
      exact ih hd

end Stage

/-! ### Queries -/

namespace Registry

variable {e : EntityDef}

/-- What does not resolve is the path of the condition. -/
lemma isResolve_of_prepareCondition {c : RawCondition}
    (h : r.prepareCondition context e c = .error error) :
    r.pathOf e c.property = .error error ∨ error.isResolve = false := by
  unfold prepareCondition at h
  split at h
  · rename_i hpath
    cases h
    exact .inl hpath
  · split at h
    · rename_i hoperands
      cases h
      exact .inr (isResolve_of_operandsOf hoperands)
    · exact .inr (Stage.isResolve_of_settle h)

lemma isResolve_of_prepareOrders {os : List (Order String)}
    (h : r.prepareOrders e os = .error error) :
    (∃ path, r.pathOf e path = .error error) ∨ error.isResolve = false := by
  induction os with
  | nil => cases h
  | cons o os ih =>
    rw [prepareOrders] at h
    split at h
    · rename_i hpath
      cases h
      exact .inl ⟨_, hpath⟩
    · split at h
      · rename_i path _ _ hsort
        cases h
        unfold PropertyPath.checkSortable at hsort
        split at hsort
        · cases hsort
          exact .inr rfl
        · split at hsort <;> cases hsort
          exact .inr rfl
      · exact ih (eq_error_of_map h)

end Registry

/-- Preparing a query fails to resolve only its entity type and its paths. -/
lemma RawQuery.resolve_of_prepare {q : RawQuery} {entity : String} {fault : ResolveError}
    (h : q.prepare r context entity = .error (.resolve fault)) :
    r.entity? entity = none ∨
      ∃ e path, r.entity? entity = some e ∧ r.resolve e.name path = .error fault := by
  cases he : r.entity? entity with
  | none => exact .inl rfl
  | some e =>
    refine .inr ?_
    have hpath : ∀ path, r.pathOf e path = .error (.resolve fault) →
        ∃ e' path, some e = some e' ∧ r.resolve e'.name path = .error fault := by
      intro path hpath
      refine ⟨e, path, rfl, ?_⟩
      unfold Registry.pathOf at hpath
      split at hpath <;> cases hpath
      assumption
    unfold RawQuery.prepare Registry.requireEntity at h
    simp only [he] at h
    split at h
    · rename_i error herror
      obtain rfl := Except.error.inj h
      split at herror
      · cases herror
      · obtain ⟨-, c, -, -, -, hc⟩ := Predicate.exists_of_mapM_eq_error (eq_error_of_map herror)
        rcases Registry.isResolve_of_prepareCondition hc with hresolve | hother
        · exact hpath _ hresolve
        · cases hother
    · rcases Registry.isResolve_of_prepareOrders (eq_error_of_map h) with ⟨path, hresolve⟩ | hother
      · exact hpath _ hresolve
      · cases hother

/-! ### Loaded datasets -/

/-- Associations of a registry that is declared lead to entity types that it has. -/
lemma EntityDecl.knows_of_registry {decls : List EntityDecl} (h : registry decls = .ok r) :
    ∀ e ∈ r.entities, ∀ p ∈ e.properties, ∀ target, p.type.target? = some target →
      r.Knows target := by
  have hbuilt : ∀ b, registry.go b decls = .ok r → ∃ b' : RegistryBuilder, b'.build = .ok r := by
    clear h
    induction decls with
    | nil => exact fun b h => ⟨b, h⟩
    | cons d ds ih =>
      intro b h
      rw [registry.go] at h
      split at h
      · cases h
      · exact ih _ h
  obtain ⟨b, hb⟩ := hbuilt .empty h
  obtain ⟨hentities, htargets⟩ := RegistryBuilder.build_eq_ok.mp hb
  unfold Registry.Knows
  rwa [hentities]

/-- **Loaded datasets**: a query about one of the entity types misses none. -/
theorem RawQuery.prepare_ne_unknownEntity {decls : List EntityDecl} {d : Dataset}
    (loaded : Dataset.load decls = .ok d) {entity : String} (known : d.registry.Knows entity)
    (q : RawQuery) (context : QueryContext) (name : String) :
    q.prepare d.registry context entity ≠ .error (.resolve (.unknownEntity name)) := by
  have hregistry : EntityDecl.registry decls = .ok d.registry := by
    unfold Dataset.load at loaded
    split at loaded
    · cases loaded
    · rename_i registry hregistry
      cases htables : convertAll EntityDecl.table decls with
      | error => simp [htables, Except.map] at loaded
      | ok tables =>
        simp only [htables, Except.map, Except.ok.injEq] at loaded
        rw [← loaded]
        exact hregistry
  obtain ⟨e, he⟩ := Registry.knows_iff.mp known
  intro h
  rcases resolve_of_prepare h with hnone | ⟨e', path, he', hpath⟩
  · cases he.symm.trans hnone
  · have hname := Registry.entity?_name he'
    have hsome : d.registry.entity? e'.name = some e' := by rwa [hname]
    simp only [Registry.resolve, hsome] at hpath
    exact Registry.follow_ne_unknownEntity (EntityDecl.knows_of_registry hregistry)
      (List.mem_of_find?_eq_some he') hpath

end EntityQuery
