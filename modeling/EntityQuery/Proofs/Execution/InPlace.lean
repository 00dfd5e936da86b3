import EntityQuery.Proofs.Execution.Sorted

/-!
# Sorting in place

Instances are put in the order of their sorted keys by following the cycles of a permutation, with
no array besides the two that are overwritten. Here the two loops are stated without a bound on
their rounds: for a permutation they come to an end, inside the arrays, and leave at each position
the item that it is to get.
-/

namespace EntityQuery

universe u

namespace Permute

variable {α : Type u} {items items' : Array α} {perm : Array Nat} {start current steps : Nat}
  {starts : List Nat} {state state' : Array α × Array Nat}

/-! ### The loops -/

/-- Following the cycle of `start` on from a position comes back to `start` and leaves these arrays.
Each position that is read, swapped or marked lies inside them. -/
inductive Closes (start : Nat) : Nat → Array α × Array Nat → Array α × Array Nat → Prop where
  | back {current : Nat} {items : Array α} {perm : Array Nat} (inside : current < perm.size)
      (back : perm[current] = start) :
      Closes start current (items, perm) (items, perm.set current current)
  | on {current : Nat} {items : Array α} {perm : Array Nat} {state : Array α × Array Nat}
      (inside : current < perm.size) (away : perm[current] ≠ start) (source : current < items.size)
      (target : perm[current] < items.size)
      (rest : Closes start perm[current]
        (items.swap current perm[current], perm.set current current) state) :
      Closes start current (items, perm) state

/-- Closing the cycles of some positions, one after the other, leaves these arrays. -/
inductive ClosesAll : List Nat → Array α × Array Nat → Array α × Array Nat → Prop where
  | done {state : Array α × Array Nat} : ClosesAll [] state state
  | cycle {start : Nat} {starts : List Nat} {state next last : Array α × Array Nat}
      (first : Closes start start state next) (rest : ClosesAll starts next last) :
      ClosesAll (start :: starts) state last

/-- A cycle is closed just if some number of steps suffices. -/
lemma closes_iff :
    Closes start current state state' ↔
      ∃ steps, closeCycle? start steps current state = some state' := by
  constructor
  · intro h
    induction h with
    | back inside back =>
      exact ⟨1, by simp [closeCycle?, inside, back, Array.setIfInBounds]⟩
    | on inside away source target _ ih =>
      obtain ⟨steps, hsteps⟩ := ih
      refine ⟨steps + 1, ?_⟩
      simpa [closeCycle?, inside, away, source, target, Array.setIfInBounds,
        Array.swapIfInBounds] using hsteps
  · rintro ⟨steps, h⟩
    induction steps generalizing current state with
    | zero => cases h
    | succ steps ih =>
      obtain ⟨items, perm⟩ := state
      rw [closeCycle?] at h
      split at h
      · cases h
      · rename_i next hnext
        obtain ⟨inside, rfl⟩ := Array.getElem?_eq_some_iff.mp hnext
        rw [Array.setIfInBounds, dif_pos inside] at h
        split at h
        · rename_i hback
          cases h
          exact .back inside hback
        · rename_i haway
          split at h
          · rename_i hin
            rw [Array.swapIfInBounds, dif_pos hin.1, dif_pos hin.2] at h
            exact .on inside haway hin.1 hin.2 (ih h)
          · cases h

lemma closesAll_of_closeCycles? (h : closeCycles? starts state = some state') :
    ClosesAll starts state state' := by
  induction starts generalizing state with
  | nil =>
    cases h
    exact .done
  | cons start starts ih =>
    obtain ⟨next, hnext, hrest⟩ := Option.bind_eq_some_iff.mp h
    exact .cycle (closes_iff.mpr ⟨_, hnext⟩) (ih hrest)

/-- A permutation of the positions is one as an array, too. -/
lemma isPermutation_of_range {n : Nat} (h : perm.toList.Perm (List.range n)) :
    IsPermutation perm where
  lt {i j} hj := by
    have hsize : perm.size = n := by simpa using h.length_eq
    have hmem : j ∈ perm.toList := Array.mem_toList_iff.mpr (Array.mem_of_getElem? hj)
    rw [hsize]
    exact List.mem_range.mp (h.mem_iff.mp hmem)
  inj {i j k} hi hj := by
    have hnodup : perm.toList.Nodup := h.nodup_iff.mpr List.nodup_range
    rw [← Array.getElem?_toList] at hi hj
    obtain ⟨hlt, -⟩ := List.getElem?_eq_some_iff.mp hi
    exact (List.getElem?_inj hlt hnodup).mp (hi.trans hj.symm)

/-- For a permutation the loops come to an end, and each position holds its item then. -/
lemma exists_closesAll (h : perm.toList.Perm (List.range items.size)) :
    ∃ items' perm', ClosesAll (List.range perm.size) (items, perm) (items', perm') ∧
      rearrange? items perm = some items' ∧
      ∀ i j : Nat, perm[i]? = some j → items'[i]? = items[j]? := by
  have hsize : items.size = perm.size := by simpa using h.length_eq.symm
  obtain ⟨items', hitems, hplaced⟩ := exists_rearrange? (isPermutation_of_range h) hsize
  obtain ⟨⟨items', perm'⟩, hcloses, rfl⟩ := Option.map_eq_some_iff.mp hitems
  refine ⟨items', perm', closesAll_of_closeCycles? hcloses, hitems, fun i j hij => ?_⟩
  obtain ⟨hlt, -⟩ := Array.getElem?_eq_some_iff.mp hij
  rw [hplaced i hlt, due_eq_of_getElem? hij]

end Permute

namespace Collection

variable {ι : Type} [Instance ι] {orders : List (Order PropertyPath)} {items : List ι}

/-- The sort keys of instances, each with the position of its instance, as they are sorted. -/
def sortedKeys (orders : List (Order PropertyPath)) (items : List ι) : List (List Value × Nat) :=
  Sorting.sort (fun a b => compareKeys (orders.map Order.direction) a.1 b.1 == .lt) .four
    (items.map (sortKey orders)).zipIdx

lemma sortedKeys_perm (orders : List (Order PropertyPath)) (items : List ι) :
    (sortedKeys orders items).Perm (items.map (sortKey orders)).zipIdx :=
  Sorting.sort_perm _ .four _

/-- Without sort clauses all keys tie and stay where they are. -/
lemma sortedKeys_nil (items : List ι) :
    sortedKeys [] items = (items.map (sortKey [])).zipIdx := by
  have hranked : Sorting.Ranked (fun a b : List Value × Nat => compareKeys [] a.1 b.1 == .lt)
      (fun _ => 0) (items.map (sortKey [])).zipIdx := fun _ _ _ _ => rfl
  have hordered : Sorting.Ordered (fun _ : List Value × Nat => 0)
      (items.map (sortKey [])).zipIdx := List.pairwise_of_forall fun _ _ => le_refl 0
  exact (Sorting.sorts_sort .four hranked).unique (.refl hordered)

/-- A sorted key is that of the instance at the position that comes with it. -/
lemma getElem?_of_mem_sortedKeys {z : List Value × Nat} (hz : z ∈ sortedKeys orders items) :
    (items[z.2]?).map (sortKey orders) = some z.1 := by
  have hmem := (sortedKeys_perm orders items).mem_iff.mp hz
  rw [← List.getElem?_map]
  exact List.mk_mem_zipIdx_iff_getElem?.mp hmem

/-- Sorting puts at each position the instance that the key sorted there belongs to. -/
lemma map_sort (orders : List (Order PropertyPath)) (items : List ι) :
    (sort orders items).map some = (sortedKeys orders items).map fun z => items[z.2]? := by
  unfold sort
  split
  · rename_i hempty
    obtain rfl := List.isEmpty_iff.mp hempty
    rw [sortedKeys_nil]
    refine List.ext_getElem (by simp) fun k hk _ => ?_
    have hk : k < items.length := by simpa using hk
    simp [hk]
  · have hperm := sortedKeys_perm orders items
    have hlength : ((sortedKeys orders items).map Prod.snd).length = items.length := by
      simpa using hperm.length_eq
    obtain ⟨items', hitems, hplaced⟩ :=
      Permute.exists_rearrange?_toArray (Permute.isPermutation_of_perm hperm) hlength
    have hpositions : sortedPositions orders items = (sortedKeys orders items).map Prod.snd := rfl
    rw [hpositions, hitems]
    exact hplaced.trans (List.map_map ..)

/-- The instances that sorting yields have the sorted keys. -/
lemma map_sortKey_sort (orders : List (Order PropertyPath)) (items : List ι) :
    (sort orders items).map (sortKey orders) = (sortedKeys orders items).map Prod.fst := by
  have hkeys := congrArg (List.map (Option.map (sortKey orders))) (map_sort orders items)
  rw [List.map_map, List.map_map] at hkeys
  refine List.map_injective_iff.mpr (Option.some_injective _) ?_
  rw [List.map_map, List.map_map]
  refine hkeys.trans (List.map_congr_left fun z hz => ?_)
  exact getElem?_of_mem_sortedKeys hz

end Collection

/-- **Sorting in place**: for every permutation of the positions, following its cycles comes to an
end inside the arrays, and each position holds the item of the position that stood there, with
nothing lost or doubled. So sorting leaves the instances in the order of their sorted keys. -/
theorem rearranged_in_place :
    (∀ {α : Type u} (items : Array α) (perm : Array Nat),
      perm.toList.Perm (List.range items.size) →
        ∃ items' perm',
          Permute.ClosesAll (List.range perm.size) (items, perm) (items', perm') ∧
          Permute.rearrange? items perm = some items' ∧ items'.toList.Perm items.toList ∧
          ∀ i j : Nat, perm[i]? = some j → items'[i]? = items[j]?) ∧
    ∀ {ι : Type} [Instance ι] (orders : List (Order PropertyPath)) (items : List ι),
      (Collection.sort orders items).map (Collection.sortKey orders) =
        (Collection.sortedKeys orders items).map Prod.fst ∧
      (Collection.sort orders items).map some =
        (Collection.sortedKeys orders items).map fun z => items[z.2]? := by
  refine ⟨fun items perm h => ?_, fun orders items =>
    ⟨Collection.map_sortKey_sort orders items, Collection.map_sort orders items⟩⟩
  obtain ⟨items', perm', hcloses, hitems, hplaced⟩ := Permute.exists_closesAll h
  exact ⟨items', perm', hcloses, hitems, Permute.rearrange?_perm hitems, hplaced⟩

/-- Letters on one long cycle and one that stays where it is. -/
theorem rearranged_in_place_letters :
    let letters := #['a', 'b', 'c', 'd', 'e']
    let perm := #[2, 0, 4, 3, 1]
    perm.toList.Perm (List.range letters.size) ∧
      (∃ perm', Permute.ClosesAll (List.range perm.size) (letters, perm)
        (#['c', 'a', 'e', 'd', 'b'], perm')) ∧
      Permute.rearrange? letters perm = some #['c', 'a', 'e', 'd', 'b'] := by
  intro letters perm
  have hperm : perm.toList.Perm (List.range letters.size) := by decide
  have hletters : Permute.rearrange? letters perm = some #['c', 'a', 'e', 'd', 'b'] := by decide
  obtain ⟨items', perm', hcloses, hitems, -⟩ := rearranged_in_place.1 letters perm hperm
  obtain rfl := Option.some.inj (hitems.symm.trans hletters)
  exact ⟨hperm, ⟨perm', hcloses⟩, hletters⟩

end EntityQuery
