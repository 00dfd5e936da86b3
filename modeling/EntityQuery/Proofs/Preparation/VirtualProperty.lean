import EntityQuery.Proofs.Preparation.Expanded
import EntityQuery.Proofs.Preparation.Frozen

/-!
# Conditions on virtual properties

A property that is expanded into others of its type has no values of its own to be tested. A
condition on it, behind whatever associations, is prepared if and only as the same condition on each
of the others is, and an instance satisfies it if it satisfies one of these, or all of them if the
condition is a negation. The expansion may name the property itself, and properties that are
expanded again.
-/

namespace EntityQuery

variable {r : Registry} {context : QueryContext} {entity : String}

/-! ### Paths behind associations -/

/-- A path behind associations, as it is written. -/
def behindHops (hops : List String) (path : String) : String :=
  hops.foldr (fun hop rest => hop ++ "." ++ rest) path

namespace PathStep

lemma ofPath_append (hop path : String) :
    ofPath (hop ++ "." ++ path) = ofPath hop ++ ofPath path := by
  have htext : (hop ++ "." ++ path).toList = hop.toList ++ '.' :: path.toList := by simp
  rw [ofPath, htext, splitDots_append, List.map_append]
  rfl

lemma ofPath_behindHops (hops : List String) (path : String) :
    ofPath (behindHops hops path) = hops.flatMap ofPath ++ ofPath path := by
  induction hops with
  | nil => rfl
  | cons hop hops ih =>
    rw [behindHops, List.foldr_cons, ofPath_append, List.flatMap_cons, List.append_assoc]
    exact congrArg (ofPath hop ++ ·) ih

/-- The name of a property is one step. -/
lemma length_ofPath_of_plain {name : String} (plain : '.' ∉ name.toList) :
    (ofPath name).length = 1 := by
  rw [ofPath, splitDots_plain plain]
  rfl

end PathStep

namespace Registry

lemma steps_of_resolve {path : String} {q : Resolved} (h : r.resolve entity path = .ok q) :
    q.path.segments.map PathSegment.step = PathStep.ofPath path := by
  unfold resolve at h
  split at h
  · cases h
  · exact steps_of_follow h

/-- Behind associations that lead to a property, its siblings are found as well. -/
lemma resolve_sibling {hops : List String} {v name : String} {q s : Resolved}
    (hq : r.resolve entity (behindHops hops v) = .ok q) (hv : q.path.leaf.name = v)
    (hs : r.resolve q.path.leaf.owner name = .ok s) :
    r.resolve entity (behindHops hops name) =
      .ok ⟨⟨q.path.parents ++ s.path.parents, s.path.leaf⟩, s.definition⟩ := by
  obtain ⟨hadmits, hleaf⟩ := admits_of_resolve hq
  obtain ⟨hadmits', hleaf'⟩ := admits_of_resolve hs
  have hparents : q.path.parents.map PathSegment.step = hops.flatMap PathStep.ofPath := by
    have hsteps := steps_of_resolve hq
    rw [PathStep.ofPath_behindHops, PropertyPath.segments, List.map_append] at hsteps
    refine (List.append_inj' hsteps ?_).1
    rw [PathStep.length_ofPath_of_plain (hv ▸ hleaf.plain)]
    rfl
  have hsteps : (q.path.parents ++ s.path.parents ++ [s.path.leaf]).map PathSegment.step =
      PathStep.ofPath (behindHops hops name) := by
    rw [PathStep.ofPath_behindHops, ← hparents, ← steps_of_resolve hs, PropertyPath.segments,
      List.append_assoc, List.map_append]
  obtain ⟨e, he, hfollow⟩ := follow_of_leads (behindHops hops name)
    (hadmits.parents.append hadmits'.parents) hleaf' hadmits'.unindexed
  rw [resolve, he]
  simp only [← hsteps]
  exact hfollow

end Registry

/-! ### Preparing -/

variable {hops names : List String} {v : String} {q : Resolved} {operator : Operator}
  {operand? : Option Operand} {p : PreparedQuery}

/-- Every name of an expansion is a property of one type, found from the entity type that declares
the expansion. -/
def Resolved.SameType (r : Registry) (names : List String) (q : Resolved) : Prop :=
  ∀ name ∈ names, ∃ s, r.resolve q.path.leaf.owner name = .ok s ∧
    s.definition.type = q.definition.type

/-- A condition on a property that is expanded into others is prepared on each of these. -/
lemma RawQuery.prepare_virtual (hq : r.resolve entity (behindHops hops v) = .ok q)
    (hv : q.path.leaf.name = v) (expands : q.definition.translator? = some (.expand names))
    (same : q.SameType r names)
    (hp : RawQuery.prepare r context entity
      (.of (.cond ⟨behindHops hops v, operator, operand?⟩)) = .ok p) :
    ∃ ps : List PreparedQuery, List.Forall₂ (fun name p' => RawQuery.prepare r context entity
        (.of (.cond ⟨behindHops hops name, operator, operand?⟩)) = .ok p') names ps ∧
      ∀ test, p.holds test = if operator.isNegation then ps.all (PreparedQuery.holds test)
        else ps.any (PreparedQuery.holds test) := by
  obtain ⟨e, path, vs, t, he, hpath, hvs, hsettle, rfl⟩ := prepare_cond_eq_ok.mp hp
  obtain ⟨q', hq', rfl⟩ := Registry.exists_resolved_of_pathOf hpath
  rw [Registry.entity?_name he] at hq'
  obtain rfl := Except.ok.inj (hq.symm.trans hq')
  obtain ⟨-, hdeclares⟩ := Registry.admits_of_resolve hq
  have hvirtual : Condition.Virtual r names ⟨q.path, operator, vs⟩ := by
    refine ⟨⟨_, hdeclares.found, expands⟩, fun name hname path hsibling => ?_⟩
    obtain ⟨s, hs, htype⟩ := same name hname
    obtain ⟨s', hs', rfl⟩ := Registry.exists_of_sibling hsibling
    obtain rfl := Except.ok.inj (hs.symm.trans hs')
    obtain ⟨-, hdeclares'⟩ := Registry.admits_of_resolve hs
    rw [PropertyPath.kind, PropertyPath.kind, hdeclares.type, ← htype, ← hdeclares'.type]
  have hresolved : ∀ name ∈ names, ∃ path,
      r.sibling (⟨q.path, operator, vs⟩ : Condition) name = .ok path := by
    intro name hname
    obtain ⟨s, hs, -⟩ := same name hname
    exact ⟨_, by rw [Registry.sibling, hs]; rfl⟩
  obtain ⟨qs, hqs, hholds⟩ := Registry.settle_virtual hvirtual hresolved hsettle
  refine ⟨qs.map .of, ?_, fun test => ?_⟩
  · rw [List.forall₂_map_right_iff]
    refine ((List.forall₂_and_left names qs).mpr ⟨same, hqs⟩).imp ?_
    rintro name t' ⟨⟨s, hs, htype⟩, path, hsibling, hsettle'⟩
    obtain ⟨s', hs', rfl⟩ := Registry.exists_of_sibling hsibling
    obtain rfl := Except.ok.inj (hs.symm.trans hs')
    obtain ⟨-, hdeclares'⟩ := Registry.admits_of_resolve hs
    refine prepare_cond_eq_ok.mpr ⟨e, _, vs, t', he, ?_, ?_, hsettle', rfl⟩
    · simp [Registry.pathOf, Registry.entity?_name he, Registry.resolve_sibling hq hv hs]
    · refine Registry.operandsOf_path ?_ hvs _
      rw [PropertyPath.type, PropertyPath.type, hdeclares.type, hdeclares'.type, htype]
  · have hof : ∀ t : Predicate Condition, PreparedQuery.holds test (.of t) = t.holds test :=
      fun t => rfl
    rw [hof, hholds test, List.all_map, List.any_map]
    rfl

/-- **Expansions are what virtual properties mean.** Let the condition on a property that is
expanded into properties of its type, behind any associations, be prepared. Then the same condition
is prepared on each of those, and in either way of running them an instance is among the results of
the first query if it is among those of one of the others, or of all of them for a negation. -/
theorem virtual_iff_expanded (hq : r.resolve entity (behindHops hops v) = .ok q)
    (hv : q.path.leaf.name = v) (expands : q.definition.translator? = some (.expand names))
    (same : q.SameType r names)
    (hp : RawQuery.prepare r context entity
      (.of (.cond ⟨behindHops hops v, operator, operand?⟩)) = .ok p) :
    ∃ ps : List PreparedQuery, List.Forall₂ (fun name p' => RawQuery.prepare r context entity
        (.of (.cond ⟨behindHops hops name, operator, operand?⟩)) = .ok p') names ps ∧
      ∀ {ι : Type} [Instance ι] (i : ι),
        (∃ found : List Bool, ps.map (PreparedQuery.accepts i) = found.map .ok ∧
          p.accepts i = .ok (if operator.isNegation then found.all id else found.any id)) ∧
        ∃ stated : List Bool, ps.map (PreparedQuery.evaluates i) = stated.map .ok ∧
          p.evaluates i = .ok (if operator.isNegation then stated.all id else stated.any id) := by
  obtain ⟨ps, hps, hholds⟩ := RawQuery.prepare_virtual hq hv expands same hp
  refine ⟨ps, hps, fun i => ?_⟩
  obtain ⟨haccepts, hevaluates⟩ := PreparedQuery.accepts_and_evaluates_of_prepare hp i
  have heach : ∀ p' ∈ ps, p'.accepts i = .ok (p'.holds (Condition.found i)) ∧
      p'.evaluates i = .ok (p'.holds (Condition.stated i)) := by
    intro p' hp'
    obtain ⟨name, -, hprepare⟩ := exists_of_mem_forall₂ hps hp'
    exact PreparedQuery.accepts_and_evaluates_of_prepare hprepare i
  refine ⟨⟨ps.map (PreparedQuery.holds (Condition.found i)), ?_, ?_⟩,
    ⟨ps.map (PreparedQuery.holds (Condition.stated i)), ?_, ?_⟩⟩
  · rw [List.map_map]
    exact List.map_congr_left fun p' hp' => (heach p' hp').1
  · rw [haccepts, hholds, List.all_map, List.any_map]
    rfl
  · rw [List.map_map]
    exact List.map_congr_left fun p' hp' => (heach p' hp').2
  · rw [hevaluates, hholds, List.all_map, List.any_map]
    rfl

namespace Orders

/-- An order, and its customer. -/
inductive Party where
  | order
  | customer

instance : Instance Party where
  valueOf
    | .customer, "name" => .text ""
    | _, _ => .null
  related
    | .order, "customer" => [.customer]
    | _, _ => []

/-- The customers that can be searched for by their name, or as the declaration says again. -/
abbrev searchable : Registry :=
  registry ["name", "search"]

/-- The condition that a property of the customer is the empty text. -/
def isBlank (name : String) : RawCondition :=
  ⟨behindHops ["customer"] name, .eq, some (.string "")⟩

lemma prepare_isBlank : RawQuery.prepare searchable Staff.context "Order"
    (.of (.cond (isBlank "search"))) = .ok (.of (.or
      [.cond ⟨ofCustomer "name" .text, .isNull, []⟩, .cond ⟨ofCustomer "search" .text, .isNull, []⟩,
        .cond ⟨ofCustomer "name" .text, .isNull, []⟩,
        .cond ⟨ofCustomer "name" .text, .eq, [.text ""]⟩,
        .cond ⟨ofCustomer "search" .text, .eq, [.text ""]⟩])) := by
  cbv

end Orders

open Orders in
/-- The search property is one of those that it stands for. An order whose customer has an empty
name is found. -/
theorem virtual_iff_expanded_unnamed :
    ∃ p ps, RawQuery.prepare searchable Staff.context "Order" (.of (.cond (isBlank "search"))) =
        .ok p ∧
      List.Forall₂ (fun name p' => RawQuery.prepare searchable Staff.context "Order"
        (.of (.cond (isBlank name))) = .ok p') ["name", "search"] ps ∧
      ∃ found : List Bool, ps.map (PreparedQuery.accepts Party.order) = found.map .ok ∧
        found.any id = true := by
  have hresolve : searchable.resolve "Order" (behindHops ["customer"] "search") =
      .ok ⟨ofCustomer "search" .text, ⟨"search", .text, true, some (.expand ["name", "search"])⟩⟩ :=
    rfl
  have hsame : Resolved.SameType searchable ["name", "search"]
      ⟨ofCustomer "search" .text, ⟨"search", .text, true, some (.expand ["name", "search"])⟩⟩ := by
    simp only [Resolved.SameType, List.forall_mem_cons]
    exact ⟨⟨_, rfl, rfl⟩, ⟨_, rfl, rfl⟩, by simp⟩
  obtain ⟨ps, hps, hruns⟩ := virtual_iff_expanded hresolve rfl rfl hsame prepare_isBlank
  obtain ⟨⟨found, hfound, hany⟩, -⟩ := hruns Party.order
  refine ⟨_, ps, prepare_isBlank, hps, found, hfound, ?_⟩
  have haccepts : PreparedQuery.accepts Party.order (.of (.or
      [.cond ⟨ofCustomer "name" .text, .isNull, []⟩, .cond ⟨ofCustomer "search" .text, .isNull, []⟩,
        .cond ⟨ofCustomer "name" .text, .isNull, []⟩,
        .cond ⟨ofCustomer "name" .text, .eq, [.text ""]⟩,
        .cond ⟨ofCustomer "search" .text, .eq, [.text ""]⟩])) = .ok true := rfl
  exact (Except.ok.inj (haccepts.symm.trans hany)).symm

end EntityQuery
