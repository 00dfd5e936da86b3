import EntityQuery.Instance
import EntityQuery.Proofs.Registry.Admits
import Mathlib.Data.List.ReduceOption

/-!
# Instances that fit a registry

An instance fits an entity type if its values and associations are what the declarations say, and
so are those of the instances it leads to. Instances may lead back to each other, so fitting is a
typing of all of them at once: a relation between entity types and instances that is closed under
following associations.
-/

namespace EntityQuery

universe u

/-- A value that a property of the type may have. Null fits every type. -/
inductive Value.Fits (r : Registry) : PropertyType → Value → Prop where
  | null {t : PropertyType} : Fits r t .null
  | text {s : String} : Fits r .text (.text s)
  | int {i : Int64} : Fits r .int (.int i)
  | float {d : Double} : Fits r .float (.float d)
  | bool {b : Bool} : Fits r .bool (.bool b)
  | date {d : Date} : Fits r .date (.date d)
  | dateTime {t : DateTime} : Fits r .dateTime (.dateTime t)
  | enum {name s : String} {constants : List String} (known : s ∈ constants) :
      Fits r (.enum name constants) (.enum s)
  | ref {name : String} {idType : PropertyType} {id : Value} (type : r.idType? name = some idType)
      (present : id.isNull = false) (known : Fits r idType id) :
      Fits r (.entity name) (.ref name id)
  | list {element : PropertyType} {vs : List Value} (items : ∀ v ∈ vs, Fits r element v) :
      Fits r (.collection element) (.list vs)

namespace Value.Fits

variable {r : Registry} {v : Value} {type : PropertyType}

lemma text_or_null (h : v.Fits r type) (hk : type.kind = .text) :
    v = .null ∨ ∃ s, v = .text s := by
  cases h <;> simp_all [PropertyType.kind]

lemma list_or_null (h : v.Fits r type) (hk : type.kind = .collection) :
    v = .null ∨ ∃ items, v = .list items := by
  cases h <;> simp_all [PropertyType.kind]

end Value.Fits

variable {ι : Type u} [Instance ι]

/-- A typing of instances: `Of e i` says that `i` is an instance of the entity type `e`. -/
structure Registry.Types (r : Registry) (Of : String → ι → Prop) : Prop where
  value {e name : String} {i : ι} {p : PropertyDef} (of : Of e i)
    (declared : r.property? e name = some p) : (Instance.valueOf i name).Fits r p.type
  /-- A single-valued association leads to one instance at most. -/
  single {e name t : String} {i : ι} {p : PropertyDef} (of : Of e i)
    (declared : r.property? e name = some p) (type : p.type = .entity t) :
    (Instance.related i name).length ≤ 1
  target {e name t : String} {i : ι} {p : PropertyDef} (of : Of e i)
    (declared : r.property? e name = some p) (type : p.type.target? = some t) :
    ∀ j ∈ Instance.related i name, Of t j

/-- An instance that some typing takes for one of an entity type. -/
def Registry.Fits (r : Registry) (entity : String) (i : ι) : Prop :=
  ∃ Of : String → ι → Prop, r.Types Of ∧ Of entity i

/-- The instance that a single-valued association leads to, if there is one. -/
def Instance.next (o : Option ι) (name : String) : Option ι :=
  o.bind fun i => (related i name).head?

/-- The value of a property; null if there is no instance to read it of. -/
def Instance.read (o : Option ι) (name : String) : Value :=
  o.elim .null fun i => valueOf i name

/-- The instances at the end of some associations. A single-valued one that is missing leaves
`none`; a multi-valued one after it has no elements then. -/
def Instance.ends (o : Option ι) : List PathSegment → List (Option ι)
  | [] => [o]
  | hop :: rest =>
    if hop.indexed then
      (o.toList.flatMap fun i => related i hop.name).flatMap fun j => ends (some j) rest
    else ends (next o hop.name) rest

namespace Instance

variable {r : Registry} {Of : String → ι → Prop} {e t : String} {o : Option ι}

/-! ### Single values -/

lemma ends_of_not_indexed {hops : List PathSegment} (h : hops.any PathSegment.indexed = false) :
    ends o hops = [hops.foldl (fun o hop => next o hop.name) o] := by
  induction hops generalizing o with
  | nil => rfl
  | cons hop rest ih =>
    rw [List.any_cons, Bool.or_eq_false_iff] at h
    rw [ends, h.1, if_neg (by decide), ih h.2, List.foldl_cons]

/-! ### Typed ends -/

lemma of_next (ht : r.Types Of) (ho : ∀ i ∈ o, Of e i) {name : String} {p : PropertyDef}
    (declared : r.property? e name = some p) (type : p.type = .entity t) :
    ∀ j ∈ next o name, Of t j := by
  intro j hj
  obtain ⟨i, hi, hj⟩ := Option.bind_eq_some_iff.mp hj
  exact ht.target (ho i hi) declared (by simp [type, PropertyType.target?, PropertyType.element]) j
    (List.mem_of_head? hj)

/-- The ends of a declared path are instances of the entity type that it leads to. -/
lemma of_ends (ht : r.Types Of) {hops : List PathSegment} (hl : r.Leads e hops t)
    (ho : ∀ i ∈ o, Of e i) : ∀ o' ∈ ends o hops, ∀ j ∈ o', Of t j := by
  induction hl generalizing o with
  | here => simpa [ends] using ho
  | @step e t u s rest p owner declared type _ ih =>
    subst owner
    have hfound := declared.found
    have htype := declared.type.symm.trans type
    intro o' ho' j hj
    rw [ends] at ho'
    cases hs : s.indexed with
    | true =>
      rw [hs, if_pos rfl, List.mem_flatMap] at ho'
      obtain ⟨k, hk, ho'⟩ := ho'
      rw [List.mem_flatMap] at hk
      obtain ⟨i, hi, hk⟩ := hk
      have hof := ht.target (t := t) (ho i (by simpa using hi)) hfound
        (by simp [htype, hs, PropertyType.association, PropertyType.target?, PropertyType.element])
      exact ih (by simpa using hof k hk) o' ho' j hj
    | false =>
      rw [hs, if_neg (by decide)] at ho'
      have hnext := of_next ht ho hfound (t := t) (by simp [htype, hs, PropertyType.association])
      exact ih hnext o' ho' j hj

/-! ### Reaching values -/

lemma flatMap_eq_head?_toList {α β : Type*} {xs : List α} (h : xs.length ≤ 1) (f : α → List β) :
    xs.flatMap f = xs.head?.toList.flatMap f := by
  rcases xs with _ | ⟨x, _ | ⟨y, ys⟩⟩
  · rfl
  · rfl
  · simp at h

/-- A path reaches the values of the ends that are there. -/
lemma reach_eq_ends (ht : r.Types Of) {hops : List PathSegment} (hl : r.Leads e hops t)
    (ho : ∀ i ∈ o, Of e i) (last : String) :
    (o.toList.flatMap fun i : ι => reach i (hops.map PathSegment.name ++ [last])) =
      (ends o hops).reduceOption.map fun j => valueOf j last := by
  induction hl generalizing o with
  | here => cases o <;> simp [reach, ends, List.reduceOption]
  | @step e t u s rest p owner declared type hrest ih =>
    subst owner
    have hfound := declared.found
    have htype := declared.type.symm.trans type
    have hreach : ∀ i : ι, reach i ((s :: rest).map PathSegment.name ++ [last]) =
        (related i s.name).flatMap fun j => reach j (rest.map PathSegment.name ++ [last]) := by
      intro i
      cases rest <;> rfl
    simp only [hreach]
    rw [ends]
    cases hs : s.indexed with
    | true =>
      have hof : ∀ j ∈ o.toList.flatMap fun i => related i s.name, Of t j := by
        intro j hj
        obtain ⟨i, hi, hj⟩ := List.mem_flatMap.mp hj
        exact ht.target (ho i (by simpa using hi)) hfound
          (by simp [htype, hs, PropertyType.association, PropertyType.target?,
            PropertyType.element]) j hj
      rw [if_pos rfl, ← List.flatMap_assoc]
      generalize (o.toList.flatMap fun i => related i s.name) = js at hof
      induction js with
      | nil => rfl
      | cons j js ihj =>
        have hj := ih (o := some j) (by simpa using hof j (by simp))
        have hjs := ihj fun k hk => hof k (by simp [hk])
        simp only [Option.toList_some, List.flatMap_cons, List.flatMap_nil, List.append_nil] at hj
        rw [List.flatMap_cons, List.flatMap_cons, hj, hjs, List.reduceOption_append,
          List.map_append]
    | false =>
      have hentity : p.type = .entity t := by simp [htype, hs, PropertyType.association]
      rw [if_neg (by decide), ← ih (of_next ht ho hfound hentity)]
      cases o with
      | none => simp [next]
      | some i =>
        have hone := ht.single (ho i rfl) hfound hentity
        simpa [next] using flatMap_eq_head?_toList hone _

end Instance

end EntityQuery
