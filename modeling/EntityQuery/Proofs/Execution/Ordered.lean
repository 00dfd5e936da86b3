import EntityQuery.Proofs.Execution.Agreement
import EntityQuery.Proofs.Execution.Sorted
import EntityQuery.Proofs.Preparation.Accepted

/-!
# The order of what is found

A list of instances is sorted by keys that are read once, an expression's answer by comparisons that
read the values each time. Where every value that is read has the declared type and is not NaN, both
sort by one rank, so both yield the same list: in the order that the sort clauses ask for, with ties
left as they were.
-/

namespace EntityQuery

/-! ### Values that can be sorted -/

/-- A value that can be sorted, of a declared type: null, anything but NaN of the type itself, or a
reference with an id of the type that the ids of its entity type have. -/
inductive Value.Orderable (ids : String → PropertyType) : PropertyType → Value → Prop where
  | null {t : PropertyType} : Orderable ids t .null
  | text {s : String} : Orderable ids .text (.text s)
  | int {i : Int64} : Orderable ids .int (.int i)
  | float {d : Double} (number : d ≠ .nan) : Orderable ids .float (.float d)
  | bool {b : Bool} : Orderable ids .bool (.bool b)
  | date {d : Date} : Orderable ids .date (.date d)
  | dateTime {t : DateTime} : Orderable ids .dateTime (.dateTime t)
  | enum {name s : String} {constants : List String} :
      Orderable ids (.enum name constants) (.enum s)
  | ref {name : String} {id : Value} (present : id.isNull = false)
      (known : Orderable ids (ids name) id) : Orderable ids (.entity name) (.ref name id)

/-- A value comes before another one in a direction. Null comes first ascending and last descending,
and so does a reference without an id. -/
inductive Direction.Precedes : Direction → Value → Value → Prop where
  | nullFirst {v w : Value} (null : v.identity = .null) (present : w.identity ≠ .null) :
      Precedes .ascending v w
  | less {v w : Value} (less : v.compare? w = some .lt) : Precedes .ascending v w
  | nullLast {v w : Value} (present : v.identity ≠ .null) (null : w.identity = .null) :
      Precedes .descending v w
  | greater {v w : Value} (greater : v.compare? w = some .gt) : Precedes .descending v w

/-- Values of which neither comes before the other. -/
inductive Value.Ties : Value → Value → Prop where
  | nulls {v w : Value} (left : v.identity = .null) (right : w.identity = .null) : Ties v w
  | equal {v w : Value} (equal : v.compare? w = some .eq) : Ties v w

lemma Double.exists_compare? {f g : Double} (hf : f ≠ .nan) (hg : g ≠ .nan) :
    ∃ o, f.compare? g = some o := by
  cases f with
  | nan => exact absurd rfl hf
  | _ =>
    cases g with
    | nan => exact absurd rfl hg
    | _ => exact ⟨_, rfl⟩

namespace Value

variable {ids : String → PropertyType} {type : PropertyType} {v w : Value}

lemma Orderable.alike (hv : v.Orderable ids type) (hw : w.Orderable ids type) : v.Alike w := by
  induction hv generalizing w with
  | null => exact .inl rfl
  | ref present known ih =>
    cases hw with
    | null => exact .inr (.inl rfl)
    | ref present' known' =>
      have halike := ih known'
      exact halike
  | _ =>
    cases hw with
    | null => exact .inr (.inl rfl)
    | _ => exact .inr (.inr rfl)

lemma Orderable.comparable (hv : v.Orderable ids type) (hw : w.Orderable ids type) :
    v.Comparable w := by
  induction hv generalizing w with
  | null => exact .inl rfl
  | float number =>
    cases hw with
    | null => exact .inr (.inl rfl)
    | float number' =>
      obtain ⟨o, ho⟩ := Double.exists_compare? number number'
      exact .inr (.inr (Option.isSome_iff_exists.mpr ⟨o, ho⟩))
  | ref present known ih =>
    cases hw with
    | null => exact .inr (.inl rfl)
    | ref present' known' =>
      -- the ids compare, and a reference compares as its id does
      rcases ih known' with rfl | rfl | hsome
      · cases present
      · cases present'
      · exact .inr (.inr hsome)
  | _ =>
    cases hw with
    | null => exact .inr (.inl rfl)
    | _ => exact .inr (.inr rfl)

/-! ### The order of two values -/

lemma identity_ne_null_of_compare? {o : Ordering} (h : v.compare? w = some o) :
    v.identity ≠ .null ∧ w.identity ≠ .null := by
  constructor
  · intro hv
    simp [compare?, hv] at h
  · intro hw
    unfold compare? at h
    rw [hw] at h
    cases hv : v.identity <;> simp [hv] at h

lemma sortOrder_swap (v w : Value) : w.sortOrder v = (v.sortOrder w).swap := by
  by_cases hnull : v.identity = .null ∨ w.identity = .null
  · rw [sortOrder_of_null hnull, sortOrder_of_null hnull.symm]
    exact Std.OrientedCmp.eq_swap
  · obtain ⟨hv, hw⟩ := not_or.mp hnull
    rw [sortOrder_eq_compare? hv hw, sortOrder_eq_compare? hw hv, compare?_swap]
    cases v.compare? w <;> rfl

/-- What the order of values for sorting says of two that can be sorted. -/
lemma Comparable.of_sortOrder (h : v.Comparable w) :
    match v.sortOrder w with
    | .lt => v.identity = .null ∧ w.identity ≠ .null ∨ v.compare? w = some .lt
    | .eq => v.Ties w
    | .gt => v.identity ≠ .null ∧ w.identity = .null ∨ v.compare? w = some .gt := by
  by_cases hv : v.identity = .null
  · have hsort := sortOrder_of_null (w := w) (.inl hv)
    by_cases hw : w.identity = .null
    · rw [hv, hw] at hsort
      rw [hsort]
      exact .nulls hv hw
    · rw [hv, Condition.isNull_eq_false hw] at hsort
      rw [hsort]
      exact .inl ⟨hv, hw⟩
  · by_cases hw : w.identity = .null
    · have hsort := sortOrder_of_null (v := v) (.inr hw)
      rw [hw, Condition.isNull_eq_false hv] at hsort
      rw [hsort]
      exact .inl ⟨hv, hw⟩
    · obtain ⟨o, ho⟩ := h.exists_compare? hv hw
      rw [identity_compare?] at ho
      have hsort := sortOrder_eq_compare? hv hw
      rw [ho] at hsort
      rw [hsort]
      cases o with
      | lt => exact .inr ho
      | eq => exact .equal ho
      | gt => exact .inr ho

lemma Ties.sortOrder (h : v.Ties w) : v.sortOrder w = .eq := by
  cases h with
  | nulls hv hw =>
    rw [sortOrder_of_null (.inl hv), hv, hw]
    rfl
  | equal heq =>
    obtain ⟨hv, hw⟩ := identity_ne_null_of_compare? heq
    rw [sortOrder_eq_compare? hv hw, heq]
    rfl

end Value

namespace Direction

variable {d : Direction} {v w : Value}

lemma order_swap (d : Direction) (v w : Value) : d.order w v = (d.order v w).swap := by
  cases d with
  | ascending => exact v.sortOrder_swap w
  | descending => exact w.sortOrder_swap v

lemma precedes_of_order (h : v.Comparable w) (hlt : d.order v w = .lt) : d.Precedes v w := by
  have hsort := h.of_sortOrder
  cases d with
  | ascending =>
    rw [show v.sortOrder w = .lt from hlt] at hsort
    rcases hsort with ⟨hv, hw⟩ | hless
    · exact .nullFirst hv hw
    · exact .less hless
  | descending =>
    have hgt : v.sortOrder w = .gt := by
      rw [w.sortOrder_swap, show w.sortOrder v = .lt from hlt]
      rfl
    rw [hgt] at hsort
    rcases hsort with ⟨hv, hw⟩ | hgreater
    · exact .nullLast hv hw
    · exact .greater hgreater

lemma ties_of_order (h : v.Comparable w) (heq : d.order v w = .eq) : v.Ties w := by
  have hsort := h.of_sortOrder
  have heq : v.sortOrder w = .eq := by
    cases d with
    | ascending => exact heq
    | descending =>
      rw [w.sortOrder_swap, show w.sortOrder v = .eq from heq]
      rfl
  rwa [heq] at hsort

lemma order_of_ties (h : v.Ties w) : d.order v w = .eq := by
  cases d with
  | ascending => exact h.sortOrder
  | descending =>
    have hsort := v.sortOrder_swap w
    rwa [h.sortOrder] at hsort

end Direction

/-! ### The order of two instances -/

/-- Along some steps, every single-valued association leads to one instance at most. -/
def Instance.SingleAlong {ι : Type} [Instance ι] : List PathSegment → ι → Prop
  | [], _ => True
  | hop :: rest, i =>
    (∀ t, hop.type = .entity t → (related i hop.name).length ≤ 1) ∧
      ∀ j ∈ related i hop.name, SingleAlong rest j

namespace Collection

variable {ι : Type} [Instance ι] {orders : List (Order PropertyPath)} {i j : ι} {items : List ι}

/-- An instance may stand before another one: at the first sort clause at which they do not tie, its
value comes first. -/
inductive InOrder : List (Order PropertyPath) → ι → ι → Prop where
  | same {i j : ι} : InOrder [] i j
  | first {i j : ι} {o : Order PropertyPath} {rest : List (Order PropertyPath)}
      (precedes : o.direction.Precedes (keyAt i o) (keyAt j o)) : InOrder (o :: rest) i j
  | next {i j : ι} {o : Order PropertyPath} {rest : List (Order PropertyPath)}
      (ties : (keyAt i o).Ties (keyAt j o)) (onward : InOrder rest i j) : InOrder (o :: rest) i j

/-- Instances that tie at every sort clause. -/
def Tied (orders : List (Order PropertyPath)) (i j : ι) : Prop :=
  ∀ o ∈ orders, (keyAt i o).Ties (keyAt j o)

/-- How the keys of two instances compare. -/
def compareInstances (orders : List (Order PropertyPath)) (i j : ι) : Ordering :=
  compareKeys (orders.map Order.direction) (sortKey orders i) (sortKey orders j)

lemma before_eq (orders : List (Order PropertyPath)) (i j : ι) :
    before orders i j = (compareInstances orders i j == .lt) :=
  rfl

lemma compareInstances_cons (o : Order PropertyPath) (i j : ι) :
    compareInstances (o :: orders) i j =
      (o.direction.order (keyAt i o) (keyAt j o)).then (compareInstances orders i j) :=
  rfl

lemma compareInstances_swap (orders : List (Order PropertyPath)) (i j : ι) :
    compareInstances orders j i = (compareInstances orders i j).swap := by
  induction orders with
  | nil => rfl
  | cons o orders ih =>
    rw [compareInstances_cons, compareInstances_cons, ih, Direction.order_swap, Ordering.swap_then]

lemma inOrder_of_compare (hcomparable : ∀ o ∈ orders, (keyAt i o).Comparable (keyAt j o))
    (h : compareInstances orders i j ≠ .gt) : InOrder orders i j := by
  induction orders with
  | nil => exact .same
  | cons o orders ih =>
    obtain ⟨hfirst, hrest⟩ := List.forall_mem_cons.mp hcomparable
    rw [compareInstances_cons] at h
    cases horder : o.direction.order (keyAt i o) (keyAt j o) with
    | lt => exact .first (Direction.precedes_of_order hfirst horder)
    | eq =>
      rw [horder] at h
      exact .next (Direction.ties_of_order hfirst horder) (ih hrest h)
    | gt =>
      rw [horder] at h
      exact absurd rfl h

lemma compare_of_tied (h : Tied orders i j) : compareInstances orders i j = .eq := by
  induction orders with
  | nil => rfl
  | cons o orders ih =>
    obtain ⟨hfirst, hrest⟩ := List.forall_mem_cons.mp h
    rw [compareInstances_cons, Direction.order_of_ties hfirst]
    exact ih hrest

/-! ### Reading a key either way -/

/-- Where single-valued associations lead to one instance at most, the first value that a path of
them reaches is the one at its end. -/
lemma headD_reach {r : Registry} {e u : String} {hops : List PathSegment} (hl : r.Leads e hops u)
    (hsingle : hops.any PathSegment.indexed = false) (h : Instance.SingleAlong hops i)
    (last : String) : (reach i (hops.map PathSegment.name ++ [last])).headD .null =
      PropertyRef.valueAt i (hops.map PathSegment.name ++ [last]) := by
  induction hl generalizing i with
  | here => rfl
  | @step e t u hop rest p owner declared type onward ih =>
    rw [List.any_cons, Bool.or_eq_false_iff] at hsingle
    obtain ⟨hindexed, hsingle⟩ := hsingle
    rw [hindexed] at type
    obtain ⟨hone, honward⟩ := h
    have hlength := hone t type
    rw [List.map_cons, List.cons_append, reach, PropertyRef.valueAt]
    · cases hrelated : Instance.related i hop.name with
      | nil => rfl
      | cons k ks =>
        rw [hrelated] at hlength honward
        obtain rfl : ks = [] := by simpa using hlength
        simpa using ih hsingle (honward k List.mem_cons_self)
    · simp
    · simp

lemma steps_foldl_get (hops : List PathSegment) (s : Scope) :
    (hops.foldl (fun scope hop => scope.get hop.name) s).steps =
      s.steps ++ hops.map PathSegment.name := by
  induction hops generalizing s with
  | nil => simp
  | cons hop hops ih =>
    rw [List.foldl_cons, ih, Scope.get, List.append_assoc, List.map_cons, List.singleton_append]

lemma steps_ofOrder (o : Order PropertyPath) :
    (OrderSpecifier.ofOrder o).property.steps = o.property.names := by
  rw [OrderSpecifier.ofOrder, Scope.order, Scope.property, steps_foldl_get]
  simp [Scope.root, PropertyPath.names, PropertyPath.segments]

/-- Both ways of reading the value of a sort clause yield the same. -/
lemma value_eq_keyAt {r : Registry} {entity : String} {o : Order PropertyPath}
    (ho : o.property.Sortable r entity) (hi : Instance.SingleAlong o.property.parents i) :
    (OrderSpecifier.ofOrder o).property.value i = keyAt i o := by
  have hnames : o.property.names =
      o.property.parents.map PathSegment.name ++ [o.property.leaf.name] := by
    simp [PropertyPath.names, PropertyPath.segments]
  have hkey : keyAt i o = (reach i o.property.names).headD .null := by
    rw [keyAt, valuesAt, if_neg (by simp [ho.single])]
    rfl
  rw [hkey, PropertyRef.value, steps_ofOrder, hnames]
  exact (headD_reach ho.admitted.parents ho.single hi _).symm

lemma compareAll_eq (h : ∀ o ∈ orders, (OrderSpecifier.ofOrder o).property.value i = keyAt i o)
    (h' : ∀ o ∈ orders, (OrderSpecifier.ofOrder o).property.value j = keyAt j o) :
    OrderSpecifier.compareAll (orders.map .ofOrder) i j = compareInstances orders i j := by
  induction orders with
  | nil => rfl
  | cons o orders ih =>
    obtain ⟨hi, hrest⟩ := List.forall_mem_cons.mp h
    obtain ⟨hj, hrest'⟩ := List.forall_mem_cons.mp h'
    have hfirst : (OrderSpecifier.ofOrder o).compare i j =
        o.direction.order (keyAt i o) (keyAt j o) := by
      rw [OrderSpecifier.compare, hi, hj]
      rfl
    rw [List.map_cons, OrderSpecifier.compareAll, hfirst, ih hrest hrest', compareInstances_cons]

/-! ### Ranks -/

section Ranked

variable {rank : List Value → Int}
  (hranked : Sorting.Ranked (before orders) (fun i => rank (sortKey orders i)) items)

include hranked

/-- Ranked instances stand in the order of the sort clauses if their ranks do. -/
lemma inOrder_of_le
    (hcomparable : ∀ o ∈ orders, ∀ i ∈ items, ∀ j ∈ items, (keyAt i o).Comparable (keyAt j o))
    (hi : i ∈ items) (hj : j ∈ items) (hle : rank (sortKey orders i) ≤ rank (sortKey orders j)) :
    InOrder orders i j := by
  refine inOrder_of_compare (fun o ho => hcomparable o ho i hi j hj) fun hgt => ?_
  have hnot := (hranked.le hj hi).mpr hle
  rw [before_eq, compareInstances_swap, hgt] at hnot
  cases hnot

lemma rank_eq_of_tied (hi : i ∈ items) (hj : j ∈ items) (htied : Tied orders i j) :
    rank (sortKey orders i) = rank (sortKey orders j) := by
  have heq := compare_of_tied htied
  have hnot : before orders i j = false := by
    rw [before_eq, heq]
    rfl
  have hnot' : before orders j i = false := by
    rw [before_eq, compareInstances_swap, heq]
    rfl
  exact le_antisymm ((hranked.le hj hi).mp hnot') ((hranked.le hi hj).mp hnot)

/-- Instances that all tie are of one rank. -/
lemma exists_rank_of_tied {tied : List ι} (hsub : tied ⊆ items)
    (htied : tied.Pairwise (Tied orders)) : ∃ k, ∀ i ∈ tied, rank (sortKey orders i) = k := by
  cases tied with
  | nil => exact ⟨0, by simp⟩
  | cons i rest =>
    obtain ⟨hi, hrest⟩ := List.cons_subset.mp hsub
    refine ⟨rank (sortKey orders i), List.forall_mem_cons.mpr ⟨rfl, fun j hj => ?_⟩⟩
    have htie := (List.pairwise_cons.mp htied).1 j hj
    exact (rank_eq_of_tied hranked hi (hrest hj) htie).symm

/-- Where the values of the sort clauses are read alike, comparisons of instances sort by the ranks
of their keys. -/
lemma sorts_findMatching
    (hread : ∀ o ∈ orders, ∀ i ∈ items, (OrderSpecifier.ofOrder o).property.value i = keyAt i o) :
    Sorting.Sorts (fun i => rank (sortKey orders i)) items
      (Memory.findMatching items none (orders.map .ofOrder)) := by
  refine Sorting.sorts_sort .eight fun i hi j hj => ?_
  rw [compareAll_eq (fun o ho => hread o ho i hi) fun o ho => hread o ho j hj]
  exact hranked i hi j hj

end Ranked

end Collection

/-- **Sorting in memory.** Let a query be accepted, and let the values at its sort clauses be null
or values of the declared types other than NaN, where single-valued associations lead to one
instance at most. Then a list of instances and what an expression finds are sorted alike: into a
permutation in the order of the sort clauses, which leaves instances that tie as they were. -/
theorem sorts_alike {ι : Type} [Instance ι] {r : Registry} {context : QueryContext}
    {entity : String} {source : Preparable} {q : PreparedQuery}
    (hq : r.prepare context entity source = .ok q) {items : List ι}
    (hsingle : ∀ o ∈ q.orders, ∀ i ∈ items, Instance.SingleAlong o.property.parents i)
    (hvalues : ∀ o ∈ q.orders, ∃ ids, ∀ i ∈ items,
      (Collection.keyAt i o).Orderable ids o.property.type) :
    ∃ sorted, (Executor.ofCollection items).findAll ⟨none, q.orders⟩ = .ok sorted ∧
      (Executor.ofPredicates (Memory.expressions items)).findAll ⟨none, q.orders⟩ = .ok sorted ∧
      sorted.Perm items ∧ sorted.Pairwise (Collection.InOrder q.orders) ∧
      ∀ tied : List ι, tied.Sublist items → tied.Pairwise (Collection.Tied q.orders) →
        tied.Sublist sorted := by
  have hsortable := (Registry.accepted_of_prepare hq).2
  have halike : Collection.Alike q.orders items := fun o ho i hi j hj =>
    have ⟨_, hvalues⟩ := hvalues o ho
    (hvalues i hi).alike (hvalues j hj)
  have hcomparable : ∀ o ∈ q.orders, ∀ i ∈ items, ∀ j ∈ items,
      (Collection.keyAt i o).Comparable (Collection.keyAt j o) := fun o ho i hi j hj =>
    have ⟨_, hvalues⟩ := hvalues o ho
    (hvalues i hi).comparable (hvalues j hj)
  -- one rank of the keys accounts for both ways of sorting
  obtain ⟨rank, hranked⟩ := Collection.exists_ranked halike fun o ho =>
    List.pairwise_of_forall_mem_list (hcomparable o ho)
  have hsorts := Collection.sorts_sort hranked
  have hmatching := Collection.sorts_findMatching hranked fun o ho i hi =>
    Collection.value_eq_keyAt (hsortable o ho) (hsingle o ho i hi)
  refine ⟨Collection.sort q.orders items, rfl, congrArg Except.ok (hmatching.unique hsorts),
    hsorts.keeps.perm, ?_, fun tied hsub htied => ?_⟩
  · refine hsorts.ordered.imp_of_mem fun hi hj hle => ?_
    exact Collection.inOrder_of_le hranked hcomparable (hsorts.keeps.mem_iff.mp hi)
      (hsorts.keeps.mem_iff.mp hj) hle
  · obtain ⟨k, hk⟩ := Collection.exists_rank_of_tied hranked hsub.subset htied
    exact hsorts.sublist hsub hk

namespace Staff

/-- Representatives by the names of their bosses, from the last one on, and by their bosses. -/
def byBoss : RawQuery :=
  ⟨none, [⟨"boss.name", .descending⟩, ⟨"boss", .ascending⟩]⟩

/-- The sort clauses of this query, prepared. -/
def bossOrders : List (Order PropertyPath) :=
  [⟨nameOfBoss, .descending⟩, ⟨boss, .ascending⟩]

lemma prepare_byBoss : (registry none).prepare context "Representative" (.raw byBoss) =
    .ok ⟨none, bossOrders⟩ := by
  rfl

end Staff

open Staff in
/-- Joe, who has a boss, comes before John, who has none and is in the list twice. -/
theorem sorts_alike_representatives :
    (Executor.ofCollection [john, joe, john]).findAll ⟨none, bossOrders⟩ =
        .ok [joe, john, john] ∧
      (Executor.ofPredicates (Memory.expressions [john, joe, john])).findAll ⟨none, bossOrders⟩ =
        .ok [joe, john, john] ∧
      [joe, john, john].Pairwise (Collection.InOrder bossOrders) := by
  have hsingle : ∀ o ∈ bossOrders, ∀ i ∈ [john, joe, john],
      Instance.SingleAlong o.property.parents i := by
    simp [bossOrders, nameOfBoss, boss, Instance.SingleAlong, Instance.related]
  have hvalues : ∀ o ∈ bossOrders, ∃ ids, ∀ i ∈ [john, joe, john],
      (Collection.keyAt i o).Orderable ids o.property.type := by
    simp only [bossOrders, List.forall_mem_cons]
    refine ⟨⟨fun _ => .text, ?_⟩, ⟨fun _ => .text, ?_⟩, by simp⟩
    · exact ⟨.null, .text, .null, by simp⟩
    · exact ⟨.null, .ref rfl .text, .null, by simp⟩
  obtain ⟨sorted, hcollection, hpredicates, -, hordered, -⟩ :=
    sorts_alike prepare_byBoss hsingle hvalues
  have hfound : (Executor.ofCollection [john, joe, john]).findAll ⟨none, bossOrders⟩ =
      .ok [joe, john, john] := rfl
  obtain rfl : sorted = [joe, john, john] := Except.ok.inj (hcollection.symm.trans hfound)
  exact ⟨hcollection, hpredicates, hordered⟩

end EntityQuery
