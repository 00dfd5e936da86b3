import EntityQuery.Proofs.Preparation.Literals
import EntityQuery.Proofs.Preparation.Preserved
import EntityQuery.Proofs.Sorting.Divided
import EntityQuery.Proofs.Sorting.Rearranged
import Mathlib.Logic.Function.Basic

/-!
# Sorting instances

Values of one declared type that compare with each other are ordered as the values of one linear
order are, with null before them. Instances whose sort keys are such values can be ranked, so that
sorting them is sorting by rank, and sorting commutes with leaving some of them out.
-/

namespace EntityQuery

open Std

/-! ### Orders -/

/-- Comparing what a function makes of two items. -/
lemma transCmp_on {α β : Type} (cmp : β → β → Ordering) [TransCmp cmp] (f : α → β) :
    TransCmp fun a b => cmp (f a) (f b) where
  eq_swap := OrientedCmp.eq_swap
  isLE_trans := TransCmp.isLE_trans

instance : TransCmp Date.compare :=
  inferInstanceAs (TransCmp (compareLex (compareOn Date.year)
    (compareLex (compareOn Date.month) (compareOn Date.day))))

instance : TransCmp TimeOfDay.compare :=
  inferInstanceAs (TransCmp (compareLex (compareOn TimeOfDay.hour)
    (compareLex (compareOn TimeOfDay.minute)
      (compareLex (compareOn TimeOfDay.second) (compareOn TimeOfDay.nanosecond)))))

instance : TransCmp DateTime.compare :=
  have := transCmp_on Date.compare DateTime.date
  have := transCmp_on TimeOfDay.compare DateTime.time
  inferInstanceAs (TransCmp (compareLex (fun a b => Date.compare (DateTime.date a) b.date)
    fun a b => TimeOfDay.compare (DateTime.time a) b.time))

/-- An item that satisfies the second condition only is what the second one counts more. -/
lemma countP_lt_countP {α : Type} {p q : α → Bool} {xs : List α} {x : α} (hx : x ∈ xs)
    (hsub : ∀ z ∈ xs, p z = true → q z = true) (hp : p x = false) (hq : q x = true) :
    xs.countP p < xs.countP q := by
  obtain ⟨front, back, rfl⟩ := List.append_of_mem hx
  have hfront : front.countP p ≤ front.countP q :=
    List.countP_mono_left fun z hz => hsub z (by simp [hz])
  have hback : back.countP p ≤ back.countP q :=
    List.countP_mono_left fun z hz => hsub z (by simp [hz])
  rw [List.countP_append, List.countP_append, List.countP_cons_of_neg (by simp [hp]),
    List.countP_cons_of_pos hq]
  omega

/-- What comes before an item also comes before everything after the item, so counting it ranks the
items of a list. -/
lemma exists_rank {α : Type} (cmp : α → α → Ordering) [TransCmp cmp] (xs : List α) :
    ∃ rank : α → Int, ∀ x ∈ xs, ∀ y ∈ xs, (cmp x y == .lt) = decide (rank x < rank y) := by
  let before (x : α) : Nat := xs.countP fun z => cmp z x == .lt
  have hbefore : ∀ x ∈ xs, ∀ y, cmp x y = .lt ↔ before x < before y := by
    intro x hx y
    constructor
    · intro hlt
      refine countP_lt_countP hx (fun z _ hz => ?_) (by simp [ReflCmp.compare_self]) (by simp [hlt])
      exact beq_iff_eq.mpr (TransCmp.lt_trans (beq_iff_eq.mp hz) hlt)
    · intro hcount
      by_contra hnot
      have hle : (cmp y x).isLE = true := by
        by_contra h
        exact hnot (OrientedCmp.lt_of_not_isLE h)
      have hcounts : before y ≤ before x := List.countP_mono_left fun z _ hz =>
        beq_iff_eq.mpr (TransCmp.lt_of_lt_of_isLE (beq_iff_eq.mp hz) hle)
      omega
  refine ⟨fun x => before x, fun x hx y _ => ?_⟩
  rw [Bool.eq_iff_iff, beq_iff_eq, decide_eq_true_iff, hbefore x hx y, Int.ofNat_lt]

/-! ### Values -/

lemma Double.compare?_swap (f g : Double) : g.compare? f = (f.compare? g).map Ordering.swap := by
  unfold Double.compare?
  cases f.place? with
  | none => cases g.place? <;> rfl
  | some x =>
    cases g.place? with
    | none => rfl
    | some y => exact congrArg some OrientedCmp.eq_swap

namespace Value

variable {r : Registry} {type : PropertyType} {v w : Value} {vs items : List Value} {f : Double}

/-- Values that can be sorted: one of them is null, or they compare. -/
def Comparable (v w : Value) : Prop :=
  v = .null ∨ w = .null ∨ (v.compare? w).isSome = true

/-- Values of the same variant, unless one of them is null. -/
def Alike (v w : Value) : Prop :=
  v.identity = .null ∨ w.identity = .null ∨ v.identity.typeName = w.identity.typeName

lemma identity_identity (v : Value) : v.identity.identity = v.identity := by
  fun_induction identity v with
  | case1 _ _ ih => exact ih
  | case2 v hv => rw [identity]; exact hv

lemma identity_compare? (v w : Value) : v.identity.compare? w.identity = v.compare? w := by
  unfold compare?
  rw [identity_identity, identity_identity]

/-- Comparing the other way round reverses the order. -/
lemma compare?_swap (v w : Value) : w.compare? v = (v.compare? w).map Ordering.swap := by
  unfold compare?
  generalize v.identity = a, w.identity = b
  cases a with
  | int i =>
    cases b with
    | int j => exact congrArg some OrientedCmp.eq_swap
    | float g => exact Double.compare?_swap _ _
    | _ => rfl
  | float f =>
    cases b with
    | int j => exact Double.compare?_swap _ _
    | float g => exact Double.compare?_swap _ _
    | _ => rfl
  | _ => cases b <;> first | rfl | exact congrArg some OrientedCmp.eq_swap

lemma Comparable.symm (h : v.Comparable w) : w.Comparable v := by
  rcases h with hv | hw | hsome
  · exact .inr (.inl hv)
  · exact .inl hw
  · rw [← Option.isSome_map, ← compare?_swap] at hsome
    exact .inr (.inr hsome)

lemma Comparable.exists_compare? (h : v.Comparable w) (hv : v.identity ≠ .null)
    (hw : w.identity ≠ .null) : ∃ o, v.identity.compare? w.identity = some o := by
  rcases h with rfl | rfl | hsome
  · exact absurd rfl hv
  · exact absurd rfl hw
  · rw [identity_compare?]
    exact Option.isSome_iff_exists.mp hsome

/-- Values of one type are alike. -/
lemma Fits.alike (hv : v.Fits r type) (hw : w.Fits r type) : v.Alike w := by
  induction hv generalizing w with
  | null => exact .inl rfl
  | ref type present known ih =>
    cases hw with
    | null => exact .inr (.inl rfl)
    | ref type' present' known' =>
      obtain rfl := Option.some.inj (type.symm.trans type')
      have halike := ih known'
      exact halike
  | _ =>
    cases hw with
    | null => exact .inr (.inl rfl)
    | _ => exact .inr (.inr rfl)

/-- Sorting leaves the order of values other than null to the comparison. -/
lemma sortOrder_eq_compare? (hv : v.identity ≠ .null) (hw : w.identity ≠ .null) :
    v.sortOrder w = (v.compare? w).getD .eq := by
  rw [← identity_compare?]
  unfold sortOrder
  split
  · exact absurd ‹_› hv
  · exact absurd ‹_› hv
  · exact absurd ‹_› hw
  · rfl

/-- Sorting puts null before everything else. -/
lemma sortOrder_of_null (h : v.identity = .null ∨ w.identity = .null) :
    v.sortOrder w = compare (!v.identity.isNull) (!w.identity.isNull) := by
  unfold sortOrder
  split
  · rename_i hv hw
    rw [hv, hw]
    rfl
  · rename_i hv hw
    rw [hv, Condition.isNull_eq_false hw]
    rfl
  · rename_i hw hv
    rw [hw, Condition.isNull_eq_false hv]
    rfl
  · rename_i hv hw _
    exact (h.elim hv hw).elim

lemma compare?_self (v : Value) : (v.compare? v).getD .eq = .eq := by
  unfold compare?
  cases v.identity with
  | float f => cases h : f.place? <;> simp [Double.compare?, h]
  | date d => exact (ReflCmp.compare_self : d.compare d = .eq)
  | dateTime t => exact (ReflCmp.compare_self : t.compare t = .eq)
  | _ => simp

lemma sortOrder_self (v : Value) : v.sortOrder v = .eq := by
  by_cases h : v.identity = .null
  · rw [sortOrder_of_null (.inl h)]
    exact ReflCmp.compare_self
  · rw [sortOrder_eq_compare? h h, compare?_self]

/-- Values that compare, unless one of them is null, as what a function makes of them are ordered by
it. -/
lemma exists_order {α : Type} (cmp : α → α → Ordering) [TransCmp cmp] (f : Value → α)
    (h : ∀ v ∈ vs, ∀ w ∈ vs, v.identity ≠ .null → w.identity ≠ .null → v ≠ w →
      v.compare? w = some (cmp (f v.identity) (f w.identity))) :
    ∃ order, TransCmp order ∧ ∀ v ∈ vs, ∀ w ∈ vs, v.sortOrder w = order v w := by
  have := transCmp_on cmp fun v : Value => f v.identity
  refine ⟨compareLex (compareOn fun v => !v.identity.isNull)
    fun v w => cmp (f v.identity) (f w.identity), inferInstance, fun v hv w hw => ?_⟩
  by_cases hvw : v = w
  · rw [hvw, sortOrder_self]
    exact ReflCmp.compare_self.symm
  by_cases hnull : v.identity = .null ∨ w.identity = .null
  · rw [sortOrder_of_null hnull, compareLex, compareOn]
    by_cases hsame : v.identity = w.identity
    · rw [hsame, (ReflCmp.compare_self : cmp (f w.identity) (f w.identity) = .eq),
        Ordering.then_eq]
    · rcases hnull with hv | hw
      · rw [hv, Condition.isNull_eq_false fun hw => hsame (hv.trans hw.symm)]
        rfl
      · rw [hw, Condition.isNull_eq_false fun hv => hsame (hv.trans hw.symm)]
        rfl
  · obtain ⟨hnv, hnw⟩ := not_or.mp hnull
    rw [sortOrder_eq_compare? hnv hnw, h v hv w hw hnv hnw hvw, compareLex, compareOn,
      Condition.isNull_eq_false hnv, Condition.isNull_eq_false hnw]
    rfl

/-- Values of one variant are ordered as what they are made of. -/
lemma exists_order_of_variant {α : Type} [Nonempty α] {cmp : α → α → Ordering} [TransCmp cmp]
    {make : α → Value} {variant : String} (hinj : Function.Injective make)
    (hmake : ∀ a b, (make a).compare? (make b) = some (cmp a b))
    (hvariant : ∀ v : Value, v.typeName = variant → ∃ a, make a = v)
    (h : ∀ v ∈ vs, v.identity = .null ∨ v.identity.typeName = variant) :
    ∃ order, TransCmp order ∧ ∀ v ∈ vs, ∀ w ∈ vs, v.sortOrder w = order v w := by
  refine exists_order cmp (Function.invFun make) fun v hv w hw hnv hnw _ => ?_
  obtain ⟨a, ha⟩ := hvariant _ ((h v hv).resolve_left hnv)
  obtain ⟨b, hb⟩ := hvariant _ ((h w hw).resolve_left hnw)
  have hread := Function.leftInverse_invFun hinj
  rw [← identity_compare?, ← ha, ← hb, hmake, hread a, hread b]

/-- The place of a floating point number on the number line. -/
def place : Value → Int
  | float f => f.place?.getD 0
  | _ => 0

lemma compare?_eq_place {f g : Double} {o : Ordering}
    (h : (float f).compare? (float g) = some o) :
    (float f).compare? (float g) = some (compare (float f).place (float g).place) := by
  change f.compare? g = some _
  replace h : f.compare? g = some o := h
  unfold Double.compare? at h ⊢
  cases hf : f.place? with
  | none => simp [hf] at h
  | some x =>
    cases hg : g.place? with
    | none => simp [hf, hg] at h
    | some y => simp [place, hf, hg]

/-- Floating point numbers that compare are ordered by their places. -/
lemma exists_order_of_floats
    (h : ∀ v ∈ vs, v.identity = .null ∨ v.identity.typeName = (float f).typeName)
    (hcomparable : ∀ v ∈ vs, ∀ w ∈ vs, v ≠ w → v.Comparable w) :
    ∃ order, TransCmp order ∧ ∀ v ∈ vs, ∀ w ∈ vs, v.sortOrder w = order v w := by
  have hfloat : ∀ v : Value, v.typeName = (float f).typeName → ∃ f, v = .float f := by
    intro v h
    cases v <;> first | exact ⟨_, rfl⟩ | simp [typeName] at h
  refine exists_order (compare : Int → Int → Ordering) place fun v hv w hw hnv hnw hne => ?_
  obtain ⟨o, ho⟩ := (hcomparable v hv w hw hne).exists_compare? hnv hnw
  obtain ⟨f, hf⟩ := hfloat _ ((h v hv).resolve_left hnv)
  obtain ⟨g, hg⟩ := hfloat _ ((h w hw).resolve_left hnw)
  rw [← identity_compare?]
  rw [hf, hg] at ho ⊢
  exact compare?_eq_place ho

/-- Lists do not compare, so there is one at most, besides null. -/
lemma exists_order_of_lists
    (h : ∀ v ∈ vs, v.identity = .null ∨ v.identity.typeName = (list items).typeName)
    (hcomparable : ∀ v ∈ vs, ∀ w ∈ vs, v ≠ w → v.Comparable w) :
    ∃ order, TransCmp order ∧ ∀ v ∈ vs, ∀ w ∈ vs, v.sortOrder w = order v w := by
  have hlist : ∀ v : Value, v.typeName = (list items).typeName → ∃ items, v = .list items := by
    intro v h
    cases v <;> first | exact ⟨_, rfl⟩ | simp [typeName] at h
  refine exists_order (compare : Unit → Unit → Ordering) (fun _ => ()) ?_
  intro v hv w hw hnv hnw hne
  obtain ⟨o, ho⟩ := (hcomparable v hv w hw hne).exists_compare? hnv hnw
  obtain ⟨items, hitems⟩ := hlist _ ((h v hv).resolve_left hnv)
  simp [hitems, compare?, identity] at ho

/-- Alike values that compare, where none of them is null, are ordered as some linear order says. -/
lemma exists_order_of_alike (halike : ∀ v ∈ vs, ∀ w ∈ vs, v.Alike w)
    (hcomparable : ∀ v ∈ vs, ∀ w ∈ vs, v ≠ w → v.Comparable w) :
    ∃ order, TransCmp order ∧ ∀ v ∈ vs, ∀ w ∈ vs, v.sortOrder w = order v w := by
  by_cases hnull : ∀ v ∈ vs, v.identity = .null
  · exact exists_order (compare : Unit → Unit → Ordering) (fun _ => ()) fun v hv w _ hnv =>
      absurd (hnull v hv) hnv
  · obtain ⟨v₀, hv₀, hnull⟩ : ∃ v ∈ vs, v.identity ≠ .null := by simpa using hnull
    have hvariant : ∀ v ∈ vs, v.identity = .null ∨ v.identity.typeName = v₀.identity.typeName :=
      fun v hv => (halike v hv v₀ hv₀).imp_right fun h => h.resolve_left hnull
    cases h₀ : v₀.identity with
    | null => exact absurd h₀ hnull
    | bool =>
      exact exists_order_of_variant (fun _ _ => Value.bool.inj) (fun _ _ => rfl)
        (fun v h => by cases v <;> first | exact ⟨_, rfl⟩ | simp [typeName] at h) (h₀ ▸ hvariant)
    | int =>
      exact exists_order_of_variant (fun _ _ => Value.int.inj) (fun _ _ => rfl)
        (fun v h => by cases v <;> first | exact ⟨_, rfl⟩ | simp [typeName] at h) (h₀ ▸ hvariant)
    | float => exact exists_order_of_floats (h₀ ▸ hvariant) hcomparable
    | text =>
      exact exists_order_of_variant (fun _ _ => Value.text.inj) (fun _ _ => rfl)
        (fun v h => by cases v <;> first | exact ⟨_, rfl⟩ | simp [typeName] at h) (h₀ ▸ hvariant)
    | date =>
      exact exists_order_of_variant (fun _ _ => Value.date.inj) (fun _ _ => rfl)
        (fun v h => by cases v <;> first | exact ⟨_, rfl⟩ | simp [typeName] at h) (h₀ ▸ hvariant)
    | dateTime t =>
      have : Nonempty DateTime := ⟨t⟩
      exact exists_order_of_variant (fun _ _ => Value.dateTime.inj) (fun _ _ => rfl)
        (fun v h => by cases v <;> first | exact ⟨_, rfl⟩ | simp [typeName] at h) (h₀ ▸ hvariant)
    | enum =>
      exact exists_order_of_variant (fun _ _ => Value.enum.inj) (fun _ _ => rfl)
        (fun v h => by cases v <;> first | exact ⟨_, rfl⟩ | simp [typeName] at h) (h₀ ▸ hvariant)
    | ref name id => exact absurd h₀ (identity_ne_ref v₀ name id)
    | list => exact exists_order_of_lists (h₀ ▸ hvariant) hcomparable

end Value

/-! ### Sort keys -/

namespace Collection

variable {ι : Type} [Instance ι] {r : Registry} {entity : String} {items : List ι}
  {orders : List (Order PropertyPath)}

/-- The value that a sort clause reads of an instance. -/
def keyAt (i : ι) (o : Order PropertyPath) : Value :=
  (valuesAt i o.property).headD .null

/-- Instances that can be sorted: of the values that a sort clause reads of two of them, one is null
or they compare. -/
def Comparable (orders : List (Order PropertyPath)) (items : List ι) : Prop :=
  ∀ o ∈ orders, items.Pairwise fun i j => (keyAt i o).Comparable (keyAt j o)

/-- Instances of which a sort clause reads alike values. -/
def Alike (orders : List (Order PropertyPath)) (items : List ι) : Prop :=
  ∀ o ∈ orders, ∀ i ∈ items, ∀ j ∈ items, (keyAt i o).Alike (keyAt j o)

/-- Alike values that can be sorted are ordered in the direction of a clause as some linear order
says. -/
lemma exists_order_of_direction (d : Direction) {vs : List Value}
    (halike : ∀ v ∈ vs, ∀ w ∈ vs, v.Alike w)
    (hcomparable : ∀ v ∈ vs, ∀ w ∈ vs, v ≠ w → v.Comparable w) :
    ∃ order, TransCmp order ∧ ∀ v ∈ vs, ∀ w ∈ vs, d.order v w = order v w := by
  obtain ⟨order, horder, hagree⟩ := Value.exists_order_of_alike halike hcomparable
  cases d with
  | ascending => exact ⟨order, horder, hagree⟩
  | descending => exact ⟨fun v w => order w v, inferInstance, fun v hv w hw => hagree w hw v hv⟩

/-- Sort keys are ordered as some linear order says. -/
lemma exists_keyOrder (halike : Alike orders items) (hcomparable : Comparable orders items) :
    ∃ order : List Value → List Value → Ordering, TransCmp order ∧ ∀ i ∈ items, ∀ j ∈ items,
      compareKeys (orders.map Order.direction) (sortKey orders i) (sortKey orders j) =
        order (sortKey orders i) (sortKey orders j) := by
  induction orders with
  | nil =>
    have := transCmp_on (compare : Unit → Unit → Ordering) fun _ : List Value => ()
    exact ⟨fun _ _ => .eq, this, fun _ _ _ _ => rfl⟩
  | cons o orders ih =>
    obtain ⟨hfirst, hrest⟩ := List.forall_mem_cons.mp halike
    obtain ⟨rest, hrest, hagreeRest⟩ :=
      ih hrest fun o' ho' => hcomparable o' (List.mem_cons_of_mem o ho')
    have : Symm fun i j : ι => (keyAt i o).Comparable (keyAt j o) := ⟨fun _ _ => .symm⟩
    have hpairs := (hcomparable o List.mem_cons_self).forall
    have hvalues : ∀ v ∈ items.map (keyAt · o), ∀ w ∈ items.map (keyAt · o),
        v ≠ w → v.Comparable w := by
      simp only [List.forall_mem_map]
      intro i hi j hj hne
      exact hpairs hi hj fun heq => hne (congrArg (keyAt · o) heq)
    have hfirst : ∀ v ∈ items.map (keyAt · o), ∀ w ∈ items.map (keyAt · o), v.Alike w := by
      simpa only [List.forall_mem_map] using hfirst
    obtain ⟨first, hfirst, hagreeFirst⟩ := exists_order_of_direction o.direction hfirst hvalues
    have := transCmp_on first fun key : List Value => key.headD .null
    have := transCmp_on rest (List.tail : List Value → List Value)
    refine ⟨compareLex (fun a b => first (a.headD .null) (b.headD .null))
      fun a b => rest a.tail b.tail, inferInstance, fun i hi j hj => ?_⟩
    have hfirst := hagreeFirst _ (List.mem_map_of_mem hi) _ (List.mem_map_of_mem hj)
    exact congrArg₂ Ordering.then hfirst (hagreeRest i hi j hj)

/-! ### Sorted instances -/

/-- Whether an instance is sorted before another one. -/
def before (orders : List (Order PropertyPath)) (i j : ι) : Bool :=
  compareKeys (orders.map Order.direction) (sortKey orders i) (sortKey orders j) == .lt

/-- An instance that was at a position, as it is sorted: by its keys. -/
def keyed (orders : List (Order PropertyPath)) (z : ι × Nat) : List Value × Nat :=
  (sortKey orders z.1, z.2)

variable {rank : List Value → Int}

/-- The sorted positions are those of instances that are sorted. -/
lemma exists_sortedPositions
    (h : Sorting.Ranked (before orders) (fun i => rank (sortKey orders i)) items) :
    ∃ sorted, sortedPositions orders items = sorted.map Prod.snd ∧
      Sorting.Sorts (fun z => rank (sortKey orders z.1)) items.zipIdx sorted := by
  let less (a b : List Value × Nat) : Bool :=
    compareKeys (orders.map Order.direction) a.1 b.1 == .lt
  let rankKeyed (a : List Value × Nat) : Int := rank a.1
  have hranked : Sorting.Ranked (fun z z' => less (keyed orders z) (keyed orders z'))
      (fun z => rankKeyed (keyed orders z)) items.zipIdx := by
    intro z hz z' hz'
    exact h _ (List.fst_mem_of_mem_zipIdx hz) _ (List.fst_mem_of_mem_zipIdx hz')
  refine ⟨_, ?_, Sorting.sorts_sort .four hranked⟩
  have hkeyed : (items.map (sortKey orders)).zipIdx = items.zipIdx.map (keyed orders) :=
    List.zipIdx_map ..
  calc sortedPositions orders items
    _ = (Sorting.sort less .four (items.zipIdx.map (keyed orders))).map Prod.snd := by
      rw [← hkeyed]
      rfl
    _ = _ := by
      rw [Sorting.sort_map .four hranked, List.map_map]
      rfl

/-- Instances ranked by their keys are sorted by rank. -/
theorem sorts_sort (h : Sorting.Ranked (before orders) (fun i => rank (sortKey orders i)) items) :
    Sorting.Sorts (fun i => rank (sortKey orders i)) items (sort orders items) := by
  unfold sort
  split
  · rename_i hempty
    obtain rfl := List.isEmpty_iff.mp hempty
    have hle : ∀ i ∈ items, ∀ j ∈ items, rank (sortKey [] i) ≤ rank (sortKey [] j) := by
      intro i hi j hj
      exact (h.le hj hi).mp rfl
    exact .refl (List.pairwise_of_forall_mem_list hle)
  · obtain ⟨sorted, hpositions, hsorted⟩ := exists_sortedPositions h
    obtain ⟨items', hitems, hlist⟩ := Permute.exists_rearrange?_of_perm hsorted.keeps.perm
    have hunzip : items.zipIdx.map Prod.fst = items := List.zipIdx_map_fst 0 items
    rw [hpositions, hitems]
    simp only
    rw [hlist]
    nth_rewrite 1 [← hunzip]
    have hmap : Sorting.Sorts (fun i => rank (sortKey orders i)) (items.zipIdx.map Prod.fst)
        (sorted.map Prod.fst) := Sorting.Sorts.map hsorted
    exact hmap

/-- Instances that can be sorted by alike values are ranked by them. -/
lemma exists_ranked (halike : Alike orders items) (hcomparable : Comparable orders items) :
    ∃ rank : List Value → Int,
      Sorting.Ranked (before orders) (fun i => rank (sortKey orders i)) items := by
  obtain ⟨order, horder, hagree⟩ := exists_keyOrder halike hcomparable
  obtain ⟨rank, hrank⟩ := exists_rank order (items.map (sortKey orders))
  refine ⟨rank, fun i hi j hj => ?_⟩
  rw [before, hagree i hi j hj]
  exact hrank _ (List.mem_map_of_mem hi) _ (List.mem_map_of_mem hj)

/-- **Sorting and leaving out** instances may be done in either order. -/
theorem filter_sort (hfits : ∀ o ∈ orders, ∃ type, ∀ i ∈ items, (keyAt i o).Fits r type)
    (hcomparable : Comparable orders items) (p : ι → Bool) :
    (sort orders items).filter p = sort orders (items.filter p) := by
  have halike : Alike orders items := fun o ho i hi j hj =>
    have ⟨_, hfits⟩ := hfits o ho
    (hfits i hi).alike (hfits j hj)
  obtain ⟨rank, hranked⟩ := exists_ranked halike hcomparable
  exact ((sorts_sort hranked).filter p).unique
    (sorts_sort (hranked.mono (List.filter_subset_self _)))

end Collection

end EntityQuery
