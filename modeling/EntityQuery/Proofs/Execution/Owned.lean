import EntityQuery.Execution.Owned
import EntityQuery.Proofs.Execution.Agreement
import EntityQuery.Proofs.Execution.Sorted
import EntityQuery.Proofs.Preparation.Accepted

/-!
# The instances of an owner

A query is restricted to the instances of an owner before it is run: the condition that an instance
leads back to the owner is joined with the predicate, and filtering and sorting come after. Leaving
out the instances of other owners afterwards yields the same list, so a page of it is a page of what
the query itself finds.
-/

namespace EntityQuery

/-! ### One more condition -/

namespace Filter

variable {c : Condition} {m : Matcher}

/-- A filter with one more test in front of its own. -/
def narrow (test : Filter) : Filter → Filter
  | all [] => test
  | all (f :: fs) => all (test :: f :: fs)
  | f => all [test, f]

lemma accepts_narrow {ι : Type} [Instance ι] (i : ι) (test f : Filter) :
    (narrow test f).accepts i = (test.accepts i && f.accepts i) := by
  fun_cases narrow test f <;> simp [accepts, acceptsAll]

lemma compile_cons (hm : c.matcher = .ok m) (ps : List (Predicate Condition)) :
    compile (.and (.cond c :: ps)) =
      (compileAll ps).map fun fs => .all (.test c.property m :: fs) := by
  rw [compile, compileAll, compile]
  simp only [hm]
  cases compileAll ps <;> rfl

/-- A condition that is added to a predicate is one more test. -/
lemma compile_allOf (hm : c.matcher = .ok m) (p : Predicate Condition) :
    compile (.allOf [.cond c, p]) = (compile p).map (narrow (.test c.property m)) := by
  cases p with
  | cond d =>
    rw [show Predicate.allOf [.cond c, .cond d] = .and [.cond c, .cond d] from rfl, compile_cons hm,
      compileAll, compile, compileAll]
    cases d.matcher <;> rfl
  | or ps =>
    rw [show Predicate.allOf [.cond c, .or ps] = .and [.cond c, .or ps] from rfl, compile_cons hm,
      compileAll, compile, compileAll]
    cases compileAll ps <;> rfl
  | and ps =>
    cases ps with
    | nil =>
      rw [show Predicate.allOf [.cond c, .and []] = .cond c from rfl, compile, compile, compileAll,
        hm]
      rfl
    | cons p ps =>
      have heq : Predicate.allOf [.cond c, .and (p :: ps)] = .and (.cond c :: p :: ps) := by
        simp [Predicate.allOf, Predicate.join, Predicate.operandsIn, Predicate.joined]
      rw [heq, compile_cons hm, compile, compileAll]
      cases compile p with
      | error e => rfl
      | ok f => cases compileAll ps <;> rfl

end Filter

/-! ### Leading back to an owner -/

namespace OwnedExecutor

variable {ρ : Type} {r : Registry} {entity backReference : String} {executor : Executor ρ}
  {x : OwnedExecutor ρ} {owner : Value}

/-- A path that leads back to an owner: an association that the entity type declares. -/
structure LeadsBack (r : Registry) (entity : String) (path : PropertyPath) : Prop where
  admitted : r.Admits entity path
  legible : path.Legible
  direct : path.parents = []
  association : ∃ owner, path.type = .entity owner ∨ path.type = .collection (.entity owner)

/-- The back-reference of an executor that can be made leads back to an owner. -/
lemma of_make (h : make r entity backReference executor = .ok x) :
    x.executor = executor ∧ LeadsBack r entity x.backReference := by
  unfold make at h
  cases hresolve : r.resolve entity backReference with
  | error e => simp [hresolve] at h
  | ok q =>
    simp only [hresolve] at h
    split at h
    · rename_i hdirect
      split at h
      · rename_i owner howner
        cases h
        refine ⟨rfl, (Registry.admits_of_resolve hresolve).1, Registry.legible_of_resolve hresolve,
          List.isEmpty_iff.mp hdirect, owner, ?_⟩
        unfold owner? at howner
        split at howner <;> simp_all
      · cases h
    · cases h

lemma exists_ownerRef (x : OwnedExecutor ρ) (owner : Value) :
    ∃ name id, x.ownerRef owner = .ref name id := by
  unfold ownerRef
  split <;> exact ⟨_, _, rfl⟩

/-- How the condition that an instance belongs to an owner compares. -/
def strategy (x : OwnedExecutor ρ) : Strategy :=
  if x.backReference.type.isCollection then .containment false else .equality false

lemma of?_eq_strategy (h : LeadsBack r entity x.backReference) (owner : Value) :
    Strategy.of? (x.condition owner).operator x.backReference.kind = some x.strategy := by
  have hkind : x.backReference.kind = x.backReference.type.kind := rfl
  obtain ⟨name, htype | htype⟩ := h.association
  · rw [condition, strategy, hkind, htype]
    rfl
  · rw [condition, strategy, hkind, htype]
    rfl

lemma strategy_cases (x : OwnedExecutor ρ) :
    x.strategy = .containment false ∨ x.strategy = .equality false := by
  unfold strategy
  split
  · exact .inl rfl
  · exact .inr rfl

/-- The condition that an instance belongs to an owner passes the check of prepared conditions. -/
lemma check_condition (h : LeadsBack r entity x.backReference) (owner : Value) :
    (x.condition owner).check = .ok () := by
  obtain ⟨name, id, href⟩ := x.exists_ownerRef owner
  have hoperands : (x.condition owner).operands = [.ref name id] := by rw [condition, href]
  have hstrategy : Strategy.of? (x.condition owner).operator (x.condition owner).property.kind =
      some x.strategy := of?_eq_strategy h owner
  unfold Condition.check
  rw [hstrategy, hoperands]
  rcases x.strategy_cases with hs | hs <;> rw [hs]

lemma matcher_condition (h : LeadsBack r entity x.backReference) (owner : Value) :
    (x.condition owner).matcher = .ok ⟨x.strategy, [x.ownerRef owner], none⟩ := by
  have hstrategy : Strategy.of? (x.condition owner).operator (x.condition owner).property.kind =
      some x.strategy := of?_eq_strategy h owner
  rw [Condition.matcher, Strategy.require, hstrategy]
  rcases x.strategy_cases with hs | hs <;> rw [hs] <;> rfl

/-- A restricted query is accepted again if the query is. -/
lemma prepare_restrict (h : LeadsBack r entity x.backReference) {q : PreparedQuery}
    (hq : q.prepare r entity = .ok q) :
    (x.restrict owner q).prepare r entity = .ok (x.restrict owner q) := by
  obtain ⟨e, he, hconditions, horders⟩ := PreparedQuery.exists_of_prepare hq
  have hname := Registry.entity?_name he
  have hcondition : r.revalidate e (x.condition owner).property = .ok () ∧
      (x.condition owner).check = .ok () :=
    ⟨Registry.revalidate_of_admits (hname ▸ h.admitted) h.legible, check_condition h owner⟩
  refine PreparedQuery.prepare_eq_ok he (fun t ht c hc => ?_) horders
  obtain ⟨_ | p, orders⟩ := q
  · obtain rfl : Predicate.cond (x.condition owner) = t := Option.some.inj ht
    obtain rfl : c = x.condition owner := by simpa using hc
    exact hcondition
  · obtain rfl : Predicate.allOf [.cond (x.condition owner), p] = t := Option.some.inj ht
    have hmem : c = x.condition owner ∨ c ∈ p.conditions := by simpa using hc
    rcases hmem with rfl | hmem
    · exact hcondition
    · exact hconditions p rfl c hmem

variable [Instance ρ]

/-- Whether an instance belongs to an owner: its back-reference is the owner, or has it among its
elements. -/
def belongs (x : OwnedExecutor ρ) (owner : Value) (i : ρ) : Bool :=
  let v := Instance.valueOf i x.backReference.leaf.name
  if x.backReference.type.isCollection then
    (v.list?.getD []).any fun element => element.sameAs (x.ownerRef owner)
  else v.sameAs (x.ownerRef owner)

/-- The condition that an instance belongs to an owner tests just this. -/
lemma accepts_condition (h : LeadsBack r entity x.backReference) (owner : Value) (i : ρ) :
    (Filter.test x.backReference ⟨x.strategy, [x.ownerRef owner], none⟩).accepts i =
      x.belongs owner i := by
  have hvalues : valuesAt i x.backReference = [Instance.valueOf i x.backReference.leaf.name] := by
    simp [valuesAt, PropertyPath.names, PropertyPath.segments, PropertyPath.isMultiValued,
      h.direct, reach]
  rw [Filter.accepts, hvalues, List.any_cons, List.any_nil, Bool.or_false, belongs]
  unfold strategy
  split
  · cases Instance.valueOf i x.backReference.leaf.name <;>
      simp [Matcher.accepts, Matcher.operand, Value.list?]
  · exact Matcher.accepts_equality rfl rfl _

/-! ### Restricted queries -/

/-- Restricting a query to the instances of an owner leaves out the other ones, if sorting commutes
with leaving them out. -/
lemma findAll_restrict (h : LeadsBack r entity x.backReference) {items : List ρ} {q : PreparedQuery}
    (hfilter : ∀ found : List ρ, found.Sublist items →
      (Collection.sort q.orders found).filter (x.belongs owner) =
        Collection.sort q.orders (found.filter (x.belongs owner))) :
    Collection.findAll items (x.restrict owner q) =
      (Collection.findAll items q).map fun all => all.filter (x.belongs owner) := by
  have hm := matcher_condition h owner
  obtain ⟨_ | p, orders⟩ := q
  · have hcompile : Filter.compile (.cond (x.condition owner)) =
        .ok (.test x.backReference ⟨x.strategy, [x.ownerRef owner], none⟩) := by
      rw [Filter.compile, hm]
      rfl
    change Collection.findAll items ⟨some (.cond (x.condition owner)), orders⟩ = _
    simp only [Collection.findAll, hcompile, Except.map, accepts_condition h,
      hfilter items (List.Sublist.refl items)]
  · have hcompile := Filter.compile_allOf hm p
    change Collection.findAll items ⟨some (.allOf [.cond (x.condition owner), p]), orders⟩ = _
    cases hp : Filter.compile p with
    | error e =>
      rw [hp] at hcompile
      simp only [Collection.findAll, hcompile, hp, Except.map]
    | ok f =>
      rw [hp] at hcompile
      have haccepts (i : ρ) : (Filter.narrow (.test (x.condition owner).property
          ⟨x.strategy, [x.ownerRef owner], none⟩) f).accepts i =
          (x.belongs owner i && f.accepts i) := by
        rw [Filter.accepts_narrow]
        exact congrArg (· && f.accepts i) (accepts_condition h owner i)
      have hsort := hfilter (items.filter fun i => f.accepts i) List.filter_sublist
      rw [List.filter_filter] at hsort
      simp only [Collection.findAll, hcompile, hp, Except.map, haccepts, hsort]

/-- Sort clauses that preparation accepts read values of the types of their properties. -/
lemma fits_keyAt {context : QueryContext} {source : Preparable} {q : PreparedQuery} {items : List ρ}
    (hq : r.prepare context entity source = .ok q) (hitems : ∀ i ∈ items, r.Fits entity i) :
    ∀ o ∈ q.orders, ∀ i ∈ items, (Collection.keyAt i o).Fits r o.property.type := by
  intro o ho i hi
  obtain ⟨hadmitted, hsingle, -⟩ := (Registry.accepted_of_prepare hq).2 o ho
  have hvalues : valuesAt i o.property = [PropertyRef.valueAt i o.property.names] := by
    let c : Condition := ⟨o.property, .isNull, []⟩
    have hends : valuesAt i c.property = _ := Condition.valuesAt_eq (hitems i hi) hadmitted
    rw [hsingle, if_neg (by decide), Condition.ends, PropertyRef.valueAt_names hsingle] at hends
    exact hends
  rw [Collection.keyAt, hvalues]
  exact (hitems i hi).valueAt hadmitted hsingle

end OwnedExecutor

/-- **The instances of an owner.** An executor for them over a list of instances of an entity type
finds, for any owner and any page, the page of those that belong to the owner among the ones that
the query finds, in the order in which it finds them; it fails as the query does. The values that
the query sorts by are null or compare with each other. The query that is run is a prepared one: it
is accepted as it is. -/
theorem findPage_owned {ρ : Type} [Instance ρ] {r : Registry} {entity backReference : String}
    {items : List ρ} {x : OwnedExecutor ρ}
    (hmake : OwnedExecutor.make r entity backReference (.ofCollection items) = .ok x)
    (hitems : ∀ i ∈ items, r.Fits entity i) {context : QueryContext} {source : Preparable}
    {q : PreparedQuery} (hq : r.prepare context entity source = .ok q)
    (hcomparable : Collection.Comparable q.orders items) (owner : Value) :
    (∀ request, x.findPage owner q request =
      ((Executor.ofCollection items).findAll q).map fun all =>
        .slice (all.filter (x.belongs owner)) request) ∧
      ∀ context', r.prepare context' entity (.prepared (x.restrict owner q)) =
        .ok (x.restrict owner q) := by
  obtain ⟨hexecutor, hleads⟩ := OwnedExecutor.of_make hmake
  refine ⟨fun request => ?_, fun _ =>
    OwnedExecutor.prepare_restrict hleads (Registry.recheck_of_prepare hq)⟩
  have hfits := OwnedExecutor.fits_keyAt hq hitems
  have hrestrict : Collection.findAll items (x.restrict owner q) =
      (Collection.findAll items q).map fun all => all.filter (x.belongs owner) := by
    refine OwnedExecutor.findAll_restrict hleads fun found hsub => ?_
    exact Collection.filter_sort (fun o ho => ⟨_, fun i hi => hfits o ho i (hsub.subset hi)⟩)
      (fun o ho => (hcomparable o ho).sublist hsub) _
  calc x.findPage owner q request
    _ = (Collection.findAll items (x.restrict owner q)).map fun all => .slice all request := by
      rw [OwnedExecutor.findPage, hexecutor]
      rfl
    _ = ((Executor.ofCollection items).findAll q).map fun all =>
        .slice (all.filter (x.belongs owner)) request := by
      rw [hrestrict]
      change _ = (Collection.findAll items q).map _
      cases Collection.findAll items q <;> rfl

namespace Staff

/-- Companies that have an id, or else representatives, the last ones first. -/
def lastCompanies : RawQuery :=
  ⟨some (.or [.cond ⟨"id", .isNotNull, none⟩, .cond ⟨"representatives", .isNotEmpty, none⟩]),
    [⟨"id", .descending⟩]⟩

/-- The path to the id of a company. -/
def companyId : PropertyPath :=
  ⟨[], ⟨"id", "Company", .text, false, false⟩⟩

/-- The path from a company to its representatives. -/
def representatives : PropertyPath :=
  ⟨[], ⟨"representatives", "Company", .collection (.entity "Representative"), true, false⟩⟩

/-- The query for the last companies, prepared. -/
def lastCompaniesPrepared : PreparedQuery :=
  ⟨some (.or [.cond ⟨companyId, .isNotNull, []⟩, .cond ⟨representatives, .isNotEmpty, []⟩]),
    [⟨companyId, .descending⟩]⟩

lemma prepare_lastCompanies :
    (registry none).prepare context "Company" (.raw lastCompanies) = .ok lastCompaniesPrepared := by
  rfl

lemma comparable_companies :
    Collection.Comparable lastCompaniesPrepared.orders [one, two] := by
  intro o ho
  obtain rfl := List.mem_singleton.mp ho
  exact List.pairwise_pair.mpr (.inr (.inr rfl))

end Staff

open Staff in
/-- The companies that Joe represents, among all of them. -/
theorem findPage_owned_companies :
    ∃ x, OwnedExecutor.make (registry none) "Company" "representatives"
        (.ofCollection [one, two]) = .ok x ∧
      (Executor.ofCollection [one, two]).findAll lastCompaniesPrepared = .ok [two, one] ∧
      x.findPage (.text "joe") lastCompaniesPrepared ⟨0, 5⟩ = .ok ⟨[two], 0, 5, 1⟩ ∧
      (registry none).prepare context "Company"
          (.prepared (x.restrict (.text "joe") lastCompaniesPrepared)) =
        .ok (x.restrict (.text "joe") lastCompaniesPrepared) := by
  have hmake : OwnedExecutor.make (registry none) "Company" "representatives"
      (.ofCollection [one, two]) =
        .ok ⟨.ofCollection [one, two], representatives, "Representative"⟩ := rfl
  have hfound : (Executor.ofCollection [one, two]).findAll lastCompaniesPrepared =
      .ok [two, one] := rfl
  obtain ⟨hpage, hprepare⟩ := findPage_owned hmake fits_companies prepare_lastCompanies
    comparable_companies (.text "joe")
  refine ⟨_, hmake, hfound, ?_, hprepare _⟩
  rw [hpage, hfound]
  rfl

end EntityQuery
