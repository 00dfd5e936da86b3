import EntityQuery.Proofs.Sorting.Stable

/-!
# Sorting as a whole

A list is divided by one of its items, which has a place in it whatever the comparison says. Where
the comparison is that of ranks, what is left of the division belongs before what is right of it, so
it is enough to sort the two. With this, sorting is sorting by rank, and stable.
-/

namespace EntityQuery.Sorting

variable {α : Type} {less : α → α → Bool} {rank : α → Int} {xs ys : List α}

/-! ### The pivot -/

lemma middleOf_lt {items : Array α} {a b c n : Nat} (ha : a < n) (hb : b < n) (hc : c < n) :
    middleOf less items a b c < n := by
  unfold middleOf
  dsimp only
  split
  · split <;> assumption
  · exact ha

/-- Whatever is chosen from samples of a size lies in one of them. -/
lemma middleOfSamples_lt {items : Array α} {size a b c n : Nat} (hsize : 0 < size)
    (ha : a + size ≤ n) (hb : b + size ≤ n) (hc : c + size ≤ n) :
    middleOfSamples less items size a b c < n := by
  induction size using Nat.strongRecOn generalizing a b c with
  | _ size ih =>
    rw [middleOfSamples]
    split
    · rename_i hlarge
      simp only [largeSample] at hlarge
      have hsample : ∀ start, start + size ≤ n → middleOfSamples less items (size / 8) start
          (start + size / 8 * 4) (start + size / 8 * 7) < n := fun start hstart =>
        ih (size / 8) (by omega) (by omega) (by omega) (by omega) (by omega)
      exact middleOf_lt (hsample a ha) (hsample b hb) (hsample c hc)
    · exact middleOf_lt (by omega) (by omega) (by omega)

/-- A list is divided by one of its items. -/
lemma pivotPlace_lt {items : Array α} (h : 0 < items.size) :
    pivotPlace less items < items.size := by
  unfold pivotPlace
  dsimp only
  split
  · exact middleOf_lt (by omega) (by omega) (by omega)
  · rename_i hlarge
    simp only [largeSample] at hlarge
    exact middleOfSamples_lt (by omega) (by omega) (by omega) (by omega)

/-! ### Division -/

/-- Where the pivot goes to the side that the test asks for, the test divides the list. -/
lemma divide_eq_partition (toLeft : α → Bool) {place : Nat} {pivot : α}
    (h : xs[place]? = some pivot) (side : Bool) (hside : toLeft pivot = side) :
    divide toLeft place side xs = (xs.filter toLeft, xs.filter fun x => !toLeft x) := by
  obtain ⟨hlt, hpivot⟩ := List.getElem?_eq_some_iff.mp h
  have hone : (xs.drop place).take 1 = [pivot] := by
    rw [List.drop_eq_getElem_cons hlt, hpivot]
    rfl
  have hparts : xs = xs.take place ++ ([pivot] ++ xs.drop (place + 1)) := by
    rw [List.singleton_append, ← hpivot, ← List.drop_eq_getElem_cons hlt, List.take_append_drop]
  unfold divide
  simp only [List.partition_eq_filter_filter, hone, Prod.mk.injEq]
  constructor
  · conv_rhs => rw [hparts]
    cases side <;> simp [hside]
  · conv_rhs => rw [hparts]
    cases side <;> simp [hside, Function.comp_def]

/-- A test that says the same of items of the same rank divides a list by ranks. -/
lemma keeps_filter_append {p : α → Bool}
    (hp : ∀ x ∈ xs, ∀ y ∈ xs, rank x = rank y → p x = p y) :
    Keeps rank xs (xs.filter p ++ xs.filter fun x => !p x) := by
  intro k
  rw [List.filter_append, List.filter_filter, List.filter_filter]
  by_cases hk : ∃ x ∈ xs, rank x = k ∧ p x = true
  · obtain ⟨x, hx, rfl, hpx⟩ := hk
    have hall : ∀ y ∈ xs, rank y = rank x → p y = true :=
      fun y hy hyx => (hp y hy x hx hyx).trans hpx
    have hleft : (xs.filter fun y => decide (rank y = rank x) && p y) =
        xs.filter fun y => rank y = rank x := List.filter_congr fun y hy => by grind
    have hright : (xs.filter fun y => decide (rank y = rank x) && !p y) = [] :=
      List.filter_eq_nil_iff.mpr fun y hy => by grind
    rw [hleft, hright, List.append_nil]
  · have hleft : (xs.filter fun y => decide (rank y = k) && p y) = [] :=
      List.filter_eq_nil_iff.mpr fun y hy => by grind
    have hright : (xs.filter fun y => decide (rank y = k) && !p y) =
        xs.filter fun y => rank y = k := List.filter_congr fun y hy => by grind
    rw [hleft, hright, List.nil_append]

/-- The items of the least rank are in place. -/
lemma sorts_least {pivot : α} (h : Ranked less rank xs) (hmem : pivot ∈ xs)
    (hleast : ∀ x ∈ xs, rank pivot ≤ rank x) {zs : List α}
    (hzs : Sorts rank (xs.filter fun x => !!less pivot x) zs) :
    Sorts rank xs ((xs.filter fun x => !less pivot x) ++ zs) := by
  have hless : ∀ x ∈ xs, less pivot x = decide (rank pivot < rank x) :=
    fun x hx => h pivot hmem x hx
  have hequal : ∀ x ∈ xs.filter fun x => !less pivot x, rank x = rank pivot := by
    intro x hx
    obtain ⟨hx, hnot⟩ := List.mem_filter.mp hx
    rw [hless x hx] at hnot
    have := hleast x hx
    have hle : rank x ≤ rank pivot := by simpa using hnot
    omega
  have hordered : Ordered rank (xs.filter fun x => !less pivot x) :=
    List.pairwise_of_forall_mem_list fun x hx y hy => ((hequal x hx).trans (hequal y hy).symm).le
  refine .of_keeps ((Sorts.refl hordered).append hzs fun x hx y hy => ?_)
    (keeps_filter_append fun x hx y hy hxy => ?_)
  · rw [hequal x hx]
    exact hleast y (List.mem_of_mem_filter hy)
  · rw [hless x hx, hless y hy, hxy]

/-- What is less than the pivot belongs before the rest. -/
lemma sorts_divided {pivot : α} (h : Ranked less rank xs) (hmem : pivot ∈ xs) {ys zs : List α}
    (hys : Sorts rank (xs.filter fun x => less x pivot) ys)
    (hzs : Sorts rank (xs.filter fun x => !less x pivot) zs) : Sorts rank xs (ys ++ zs) := by
  have hless : ∀ x ∈ xs, less x pivot = decide (rank x < rank pivot) :=
    fun x hx => h x hx pivot hmem
  refine .of_keeps (hys.append hzs fun x hx y hy => ?_)
    (keeps_filter_append fun x hx y hy hxy => ?_)
  · obtain ⟨hx, hlt⟩ := List.mem_filter.mp hx
    obtain ⟨hy, hle⟩ := List.mem_filter.mp hy
    rw [hless x hx] at hlt
    rw [hless y hy] at hle
    have hlt : rank x < rank pivot := of_decide_eq_true hlt
    have hle : rank pivot ≤ rank y := by simpa using hle
    omega
  · rw [hless x hx, hless y hy, hxy]

lemma sorts_byShortRuns (block : Block) (h : Ranked less rank xs) :
    Sorts rank xs (byShortRuns less block xs) := by
  obtain ⟨hkeeps, hruns⟩ := keeps_cut block true (keptLength xs.length) h
  exact .of_keeps (sorts_joinAll (by simp) _ (hkeeps.ranked h) hruns) hkeeps

/-- An item of which no item of a list is less. -/
def Bounds (less : α → α → Bool) (rank : α → Int) (xs : List α) (bound : α) : Prop :=
  ∀ x ∈ xs, less bound x = decide (rank bound < rank x) ∧ rank bound ≤ rank x

lemma Bounds.mono {bound : α} (h : Bounds less rank xs bound) (hsub : ys ⊆ xs) :
    Bounds less rank ys bound :=
  fun x hx => h x (hsub hx)

/-- The pivot bounds what it is not greater than. -/
lemma Ranked.bounds {pivot : α} (h : Ranked less rank xs) (hmem : pivot ∈ xs) :
    Bounds less rank (xs.filter fun x => !less x pivot) pivot := by
  intro x hx
  obtain ⟨hx, hnot⟩ := List.mem_filter.mp hx
  exact ⟨h pivot hmem x hx, (h.le hx hmem).mp (by simpa using hnot)⟩

/-- **Sorting by division**: the division goes on from a bound of the list, if one is known. -/
theorem sorts_byDivision (block : Block) (depth : Nat) (bound? : Option α)
    (h : Ranked less rank xs) (hbound : ∀ b ∈ bound?, Bounds less rank xs b) :
    Sorts rank xs (byDivision less block depth bound? xs) := by
  induction depth generalizing bound? xs with
  | zero =>
    rw [byDivision]
    split
    · exact sorts_sortFew block h
    · exact sorts_byShortRuns block h
  | succ depth ih =>
    rw [byDivision]
    split
    · exact sorts_sortFew block h
    · rename_i hmany
      have hplace : pivotPlace less xs.toArray < xs.length :=
        pivotPlace_lt (by rw [List.size_toArray]; omega)
      dsimp only
      split
      · rename_i hnone
        rw [List.getElem?_eq_none_iff] at hnone
        omega
      · rename_i pivot hpivot
        have hmem : pivot ∈ xs := List.mem_of_getElem? hpivot
        have hself : less pivot pivot = false := by simp [h pivot hmem pivot hmem]
        rw [divide_eq_partition (fun x => less x pivot) hpivot false hself,
          divide_eq_partition (fun x => !less pivot x) hpivot true (by simp [hself])]
        dsimp only
        split
        · rename_i hfirst
          refine sorts_least h hmem (fun x hx => ?_)
            (ih none (h.mono (List.filter_subset_self _)) (by simp))
          rcases (Bool.or_eq_true _ _).mp hfirst with hequal | hempty
          · -- the pivot equals a bound of the list
            obtain ⟨b, hb, hnot⟩ := (Option.any_eq_true _ _).mp hequal
            have hb := hbound b hb
            have hnot : less b pivot = false := by simpa using hnot
            have hle : rank pivot ≤ rank b :=
              not_lt.mp (of_decide_eq_false ((hb pivot hmem).1.symm.trans hnot))
            exact hle.trans (hb x hx).2
          · -- no item is less than the pivot
            have hnone := List.filter_eq_nil_iff.mp (List.isEmpty_iff.mp hempty) x hx
            exact (h.le hx hmem).mp (by simpa using hnone)
        · exact sorts_divided h hmem
            (ih bound? (h.mono (List.filter_subset_self _)) fun b hb =>
              (hbound b hb).mono (List.filter_subset_self _))
            (ih (some pivot) (h.mono (List.filter_subset_self _)) fun b hb =>
              Option.some.inj hb ▸ h.bounds hmem)

/-- **Sorting** by a comparison of ranks is stable. -/
theorem sorts_sort (block : Block) (h : Ranked less rank xs) :
    Sorts rank xs (sort less block xs) := by
  unfold sort
  split
  · exact sorts_byInsertion h
  · obtain ⟨hkeeps, hruns⟩ := keeps_cut block (xs.length ≤ 2 * few) (keptLength xs.length) h
    refine .of_keeps (sorts_joinAll (fun _ zs hzs => ?_) _ (hkeeps.ranked h) hruns) hkeeps
    exact sorts_byDivision block _ none hzs (by simp)

/-- Sorting what a function makes of items sorts the items by it. -/
theorem sort_map {γ : Type} {f : γ → α} {cs : List γ} (block : Block)
    (h : Ranked (fun c d => less (f c) (f d)) (fun c => rank (f c)) cs) :
    sort less block (cs.map f) = (sort (fun c d => less (f c) (f d)) block cs).map f := by
  have hmap : Ranked less rank (cs.map f) := by
    simpa only [Ranked, List.forall_mem_map] using h
  exact (sorts_sort block hmap).unique (sorts_sort block h).map

end EntityQuery.Sorting
