import EntityQuery.Execution.Permute
import EntityQuery.Sorting
import Mathlib.Data.List.Basic
import Mathlib.Tactic.Common

/-!
# Sorting permutes

No step of sorting loses an item or makes one up, whatever the comparison says: inserting, merging,
dividing and joining runs all end in a permutation of what they were given. The one step that could
go wrong is the merge from both ends, where a contradictory comparison makes both ends claim the
same item; its length check is what rules that out.
-/

namespace EntityQuery.Sorting

variable {α : Type} (less : α → α → Bool)

/-! ### Insertion -/

lemma insertReversed_perm (x : α) (ys : List α) : (insertReversed less x ys).Perm (x :: ys) := by
  induction ys with
  | nil => exact .refl _
  | cons y ys ih =>
    rw [insertReversed]
    split
    · exact (ih.cons y).trans (.swap x y ys)
    · exact .refl _

lemma foldl_insertReversed_perm (items reversed : List α) :
    (items.foldl (fun reversed x => insertReversed less x reversed) reversed).Perm
      (items ++ reversed) := by
  induction items generalizing reversed with
  | nil => exact .refl _
  | cons x items ih =>
    exact (ih _).trans (((insertReversed_perm less x reversed).append_left items).trans
      List.perm_middle)

lemma insertAll_perm (sorted items : List α) :
    (insertAll less sorted items).Perm (sorted ++ items) := by
  unfold insertAll
  calc List.Perm _ _ := List.reverse_perm _
    List.Perm _ (items ++ sorted.reverse) := foldl_insertReversed_perm less items sorted.reverse
    List.Perm _ (items ++ sorted) := (List.reverse_perm sorted).append_left items
    List.Perm _ (sorted ++ items) := List.perm_append_comm

lemma byInsertion_perm (items : List α) : (byInsertion less items).Perm items :=
  insertAll_perm less [] items

/-! ### Merging -/

lemma mergeForward_perm (left right : List α) :
    (mergeForward less left right).Perm (left ++ right) :=
  List.merge_perm_append _

lemma mergeBackward_perm (left right : List α) :
    (mergeBackward less left right).Perm (left ++ right) := by
  unfold mergeBackward
  calc List.Perm _ _ := List.reverse_perm _
    List.Perm _ (right.reverse ++ left.reverse) := List.merge_perm_append _
    List.Perm _ (right ++ left) := (List.reverse_perm right).append (List.reverse_perm left)
    List.Perm _ (left ++ right) := List.perm_append_comm

lemma merge_perm (left right : List α) : (merge less left right).Perm (left ++ right) := by
  unfold merge
  split
  · exact mergeForward_perm less left right
  · exact mergeBackward_perm less left right

/-- Merging keeps the order of the items on either side. -/
lemma filter_merge {β : Type} {p : β → Bool} (le : β → β → Bool) {xs ys : List β}
    (hx : ∀ x ∈ xs, p x = true) (hy : ∀ y ∈ ys, p y = false) :
    (xs.merge ys le).filter p = xs ∧ (xs.merge ys le).filter (fun z => !p z) = ys := by
  induction xs generalizing ys with
  | nil =>
    rw [List.nil_merge, List.filter_eq_nil_iff, List.filter_eq_self]
    exact ⟨fun y h => by simp [hy y h], fun y h => by simp [hy y h]⟩
  | cons x xs ihx =>
    induction ys with
    | nil =>
      rw [List.merge_right, List.filter_eq_nil_iff, List.filter_eq_self]
      exact ⟨hx, fun z h => by simp [hx z h]⟩
    | cons y ys ihy =>
      rw [List.cons_merge_cons]
      have hpx := hx x (by simp)
      have hpy := hy y (by simp)
      split
      · obtain ⟨h1, h2⟩ := ihx (fun z hz => hx z (by simp [hz])) hy
        simp [hpx, h1, h2]
      · obtain ⟨h1, h2⟩ := ihy fun z hz => hy z (by simp [hz])
        simp [hpy, h1, h2]

/-- The items of two lists stand in a list with their marks, in the order they had. -/
def Interleaves (left right : List α) (both : List (α × Bool)) : Prop :=
  (both.filter Prod.snd).map Prod.fst = left ∧
    (both.filter fun z => !z.2).map Prod.fst = right

lemma interleaves_mergeForward (left right : List α) :
    Interleaves left right (mergeForward (lessMarked less) (left.map (·, true))
      (right.map (·, false))) := by
  have hl : ∀ z ∈ left.map (·, true), z.2 = true := by simp
  have hr : ∀ z ∈ right.map (·, false), z.2 = false := by simp
  obtain ⟨h1, h2⟩ := filter_merge (fun a b => !lessMarked less b a) hl hr
  unfold Interleaves mergeForward
  rw [h1, h2, List.map_map, List.map_map]
  exact ⟨List.map_id left, List.map_id right⟩

lemma interleaves_mergeBackward (left right : List α) :
    Interleaves left right (mergeBackward (lessMarked less) (left.map (·, true))
      (right.map (·, false))) := by
  have hl : ∀ z ∈ (left.map (·, true)).reverse, (!z.2) = false := by simp
  have hr : ∀ z ∈ (right.map (·, false)).reverse, (!z.2) = true := by simp
  obtain ⟨h1, h2⟩ := filter_merge (fun b a => !lessMarked less b a) hr hl
  unfold Interleaves mergeBackward
  rw [List.filter_reverse, List.filter_reverse, h1]
  simp only [Bool.not_not] at h2
  rw [h2, List.reverse_reverse, List.reverse_reverse, List.map_map, List.map_map]
  exact ⟨List.map_id left, List.map_id right⟩

lemma length_sub_countP (both : List (α × Bool)) :
    both.length - both.countP Prod.snd = (both.filter fun z => !z.2).length := by
  have h := List.length_eq_countP_add_countP Prod.snd (l := both)
  simp only [Bool.not_eq_true, Bool.decide_eq_false] at h
  rw [← List.countP_eq_length_filter]
  omega

lemma map_fst_perm (both : List (α × Bool)) :
    (both.map Prod.fst).Perm ((both.filter Prod.snd).map Prod.fst ++
      (both.filter fun z => !z.2).map Prod.fst) := by
  rw [← List.map_append]
  exact (List.filter_append_perm Prod.snd both).symm.map Prod.fst

/-- The front of an interleaving consists of the fronts of the two lists. -/
lemma Interleaves.front_perm {left right : List α} {front back : List (α × Bool)}
    (h : Interleaves left right (front ++ back)) :
    (front.map Prod.fst).Perm (left.take (front.countP Prod.snd) ++
      right.take (front.length - front.countP Prod.snd)) := by
  obtain ⟨hl, hr⟩ := h
  rw [List.filter_append, List.map_append] at hl hr
  refine (map_fst_perm front).trans (.of_eq ?_)
  congr 1
  · rw [← hl, List.take_left' (by rw [List.length_map, List.countP_eq_length_filter])]
  · rw [← hr, List.take_left' (by rw [List.length_map, length_sub_countP])]

/-- The back of an interleaving consists of the backs of the two lists. -/
lemma Interleaves.back_perm {left right : List α} {front back : List (α × Bool)}
    (h : Interleaves left right (front ++ back)) :
    (back.map Prod.fst).Perm (left.drop (left.length - back.countP Prod.snd) ++
      right.drop (right.length - (back.length - back.countP Prod.snd))) := by
  obtain ⟨hl, hr⟩ := h
  rw [List.filter_append, List.map_append] at hl hr
  refine (map_fst_perm back).trans (.of_eq ?_)
  congr 1
  · rw [← hl, List.drop_left']
    rw [List.length_append, List.length_map, List.length_map, List.countP_eq_length_filter]
    omega
  · rw [← hr, List.drop_left']
    rw [List.length_append, List.length_map, List.length_map, length_sub_countP]
    omega

lemma take_middle_drop (xs : List α) {i j : Nat} (h : i ≤ j) :
    xs.take i ++ (xs.take j).drop i ++ xs.drop j = xs := by
  have htake : xs.take i = (xs.take j).take i := by rw [List.take_take, Nat.min_eq_left h]
  rw [htake, List.take_append_drop, List.take_append_drop]

lemma perm_interchange {a b c d e f : List α} :
    ((a ++ d) ++ (b ++ e) ++ (c ++ f)).Perm ((a ++ b ++ c) ++ (d ++ e ++ f)) := by
  simp only [List.append_assoc]
  refine List.Perm.append_left a ?_
  calc (d ++ (b ++ (e ++ (c ++ f)))).Perm (b ++ (d ++ (e ++ (c ++ f)))) :=
        List.perm_append_comm_assoc d b _
    List.Perm _ (b ++ (c ++ (d ++ (e ++ f)))) := by
      refine List.Perm.append_left b ?_
      rw [← List.append_assoc d, ← List.append_assoc d]
      exact List.perm_append_comm_assoc (d ++ e) c f

/-- Where the middle has the right length, the two ends meet in neither list. -/
lemma Interleaves.meet_perm {left right : List α} {front rest start back : List (α × Bool)}
    (hf : Interleaves left right (front ++ rest)) (hb : Interleaves left right (start ++ back))
    (hfront : front.length = left.length) (hback : back.length = left.length)
    {leftEnd : Nat} (hend : leftEnd = left.length - back.countP Prod.snd)
    {middle : List α}
    (hmiddle : middle = (left.take leftEnd).drop (front.countP Prod.snd) ++
      (right.take (right.length - leftEnd)).drop (left.length - front.countP Prod.snd))
    (hlen : middle.length + 2 * left.length = left.length + right.length) :
    (front.map Prod.fst ++ middle ++ back.map Prod.fst).Perm (left ++ right) := by
  have hfp := hf.front_perm
  have hbp := hb.back_perm
  have hk := List.countP_le_length (p := Prod.snd) (l := front)
  have hkb := List.countP_le_length (p := Prod.snd) (l := back)
  subst hmiddle
  simp only [List.length_append, List.length_drop, List.length_take] at hlen
  have hl : front.countP Prod.snd ≤ leftEnd := by omega
  have hr : left.length - front.countP Prod.snd ≤ right.length - leftEnd := by omega
  rw [hfront] at hfp
  rw [hback, ← hend] at hbp
  refine ((hfp.append_right _).append hbp).trans (perm_interchange.trans (.of_eq ?_))
  rw [take_middle_drop left hl, take_middle_drop right hr]

/-- **The merge from both ends** keeps all items, whatever the comparison says. -/
lemma mergeInward_perm (left right : List α) :
    (mergeInward less left right).Perm (left ++ right) := by
  unfold mergeInward marked
  have hf := interleaves_mergeForward less left right
  have hb := interleaves_mergeBackward less left right
  have hflen := (mergeForward_perm (lessMarked less) (left.map (·, true))
    (right.map (·, false))).length_eq
  have hblen := (mergeBackward_perm (lessMarked less) (left.map (·, true))
    (right.map (·, false))).length_eq
  rw [List.length_append, List.length_map, List.length_map] at hflen hblen
  refine iteInduction (motive := fun zs : List α => zs.Perm (left ++ right)) (fun hlen => ?_)
    fun _ => mergeForward_perm less left right
  rw [← List.take_append_drop left.length (mergeForward ..)] at hf
  rw [← List.take_append_drop right.length (mergeBackward ..)] at hb
  refine hf.meet_perm hb ?_ ?_ rfl rfl hlen
  · rw [List.length_take, hflen]
    omega
  · rw [List.length_drop, hblen]
    omega

/-! ### Few items -/

lemma sortTwo_perm (a b : α) : [(sortTwo less a b).1, (sortTwo less a b).2].Perm [a, b] := by
  unfold sortTwo
  split
  · exact .swap a b []
  · exact .refl _

lemma sortFour_perm (a b c d : α) : (sortFour less a b c d).Perm [a, b, c, d] := by
  have hab := sortTwo_perm less a b
  have hcd := sortTwo_perm less c d
  unfold sortFour
  refine List.Perm.trans ?_ (hab.append hcd)
  generalize sortTwo less a b = x
  generalize sortTwo less c d = y
  obtain ⟨a, b⟩ := x
  obtain ⟨c, d⟩ := y
  -- the least and the greatest go to the ends, and the other two are put in order between them
  dsimp only
  split
  · exact ((sortTwo_perm less b c).append_right [d]).cons a
  · refine List.Perm.trans (((sortTwo_perm less c d).append_right [b]).cons a) (.cons a ?_)
    exact @List.perm_append_comm α [c, d] [b]
  · refine List.Perm.trans (((sortTwo_perm less a b).append_right [d]).cons c) ?_
    exact (@List.perm_append_comm α [c] [a, b]).append_right [d]
  · refine List.Perm.trans (((sortTwo_perm less a d).append_right [b]).cons c) ?_
    refine (List.Perm.swap a c [d, b]).trans (.cons a ?_)
    exact @List.perm_append_comm α [c, d] [b]

lemma sortFourItems_perm (items : List α) : (sortFourItems less items).Perm items := by
  unfold sortFourItems
  split
  · exact sortFour_perm less _ _ _ _
  · exact .refl _

lemma sortEightItems_perm (items : List α) : (sortEightItems less items).Perm items := by
  have halves := (sortFourItems_perm less (items.take 4)).append
    (sortFourItems_perm less (items.drop 4))
  exact (mergeInward_perm less _ _).trans (halves.trans (.of_eq (List.take_append_drop 4 items)))

lemma sortHalf_perm (block : Block) (count : Nat) (half : List α) :
    (sortHalf less block count half).Perm half := by
  unfold sortHalf
  split
  · exact (insertAll_perm less _ _).trans (((sortEightItems_perm less _).append_right _).trans
      (.of_eq (List.take_append_drop 8 half)))
  · split
    · exact (insertAll_perm less _ _).trans (((sortFourItems_perm less _).append_right _).trans
        (.of_eq (List.take_append_drop 4 half)))
    · exact byInsertion_perm less half

lemma sortFew_perm (block : Block) (items : List α) : (sortFew less block items).Perm items := by
  have halves := (sortHalf_perm less block items.length (items.take (items.length / 2))).append
    (sortHalf_perm less block items.length (items.drop (items.length / 2)))
  exact (mergeInward_perm less _ _).trans (halves.trans (.of_eq (List.take_append_drop _ items)))

/-! ### Runs -/

lemma joined_perm {settle : List α → List α} (hs : ∀ xs, (settle xs).Perm xs)
    (left right : Run α) :
    (join less settle left right).items.Perm (left.items ++ right.items) := by
  have settled : ∀ run : Run α,
      (if run.sorted then run.items else settle run.items).Perm run.items := by
    intro run
    split
    · exact .refl _
    · exact hs run.items
  unfold join
  split
  · exact (merge_perm less _ _).trans ((settled left).append (settled right))
  · exact .refl _

/-- The items of runs that wait to be joined, from left to right. -/
def waitingItems : List (Run α × Nat) → List α
  | [] => []
  | (run, _) :: rest => waitingItems rest ++ run.items

lemma joinLeft_perm {settle : List α → List α} (hs : ∀ xs, (settle xs).Perm xs) (depth : Nat)
    (run : Run α) (waiting : List (Run α × Nat)) :
    (waitingItems (joinLeft less settle depth run waiting).2 ++
      (joinLeft less settle depth run waiting).1.items).Perm
      (waitingItems waiting ++ run.items) := by
  induction waiting generalizing run with
  | nil => exact .refl _
  | cons first rest ih =>
    obtain ⟨left, leftDepth⟩ := first
    rw [joinLeft]
    split
    · refine (ih _).trans ?_
      rw [waitingItems, List.append_assoc]
      exact (joined_perm less hs left run).append_left _
    · exact .refl _

lemma joinLeft_zero (settle : List α → List α) (run : Run α) (waiting : List (Run α × Nat)) :
    (joinLeft less settle 0 run waiting).2 = [] := by
  induction waiting generalizing run with
  | nil => rfl
  | cons first rest ih =>
    rw [joinLeft, if_pos (Nat.zero_le _)]
    exact ih _

lemma joinFrom_perm {settle : List α → List α} (hs : ∀ xs, (settle xs).Perm xs)
    (total scanned : Nat) (last : Run α) (waiting : List (Run α × Nat)) (runs : List (Run α)) :
    (joinFrom less settle total scanned last waiting runs).items.Perm
      (waitingItems waiting ++ last.items ++ runs.flatMap Run.items) := by
  induction runs generalizing scanned last waiting with
  | nil =>
    have h := joinLeft_perm less hs 0 last waiting
    rw [joinLeft_zero less] at h
    simpa [joinFrom, waitingItems] using h
  | cons next rest ih =>
    rw [joinFrom]
    refine (ih _ _ _).trans ?_
    rw [List.flatMap_cons, ← List.append_assoc, waitingItems]
    exact ((joinLeft_perm less hs _ last waiting).append_right _).append_right _

lemma joinAll_perm {settle : List α → List α} (hs : ∀ xs, (settle xs).Perm xs) (total : Nat)
    (runs : List (Run α)) :
    (joinAll less settle total runs).Perm (runs.flatMap Run.items) := by
  cases runs with
  | nil => exact .refl _
  | cons first rest =>
    have h := joinFrom_perm less hs total first.items.length first [] rest
    rw [waitingItems, List.nil_append] at h
    rw [joinAll, List.flatMap_cons]
    split
    · exact h
    · exact (hs _).trans h

lemma perm_take_length {xs ys : List α} {n : Nat} (h : ys.Perm (xs.take n)) :
    ys.Perm (xs.take ys.length) := by
  have hlen := h.length_eq
  rw [List.length_take] at hlen
  rwa [hlen, ← List.take_take, List.take_length]

lemma naturalRun_perm (items : List α) :
    ∃ n, (naturalRun less items).items.Perm (items.take n) ∧ (items ≠ [] → n ≠ 0) := by
  unfold naturalRun
  split
  · split
    · exact ⟨_, List.reverse_perm _, by omega⟩
    · exact ⟨_, .refl _, by omega⟩
  · exact ⟨items.length, .of_eq (List.take_length).symm, by simp⟩

lemma firstRun_perm (block : Block) (eager : Bool) (kept : Nat) (items : List α) :
    ∃ n, (firstRun less block eager kept items).items.Perm (items.take n) ∧
      (items ≠ [] → n ≠ 0) := by
  obtain ⟨n, hn, hpos⟩ := naturalRun_perm less items
  unfold firstRun
  simp only
  split
  · exact ⟨n, hn, hpos⟩
  · rename_i hkept
    split
    · exact ⟨few, sortFew_perm less block _, fun _ => by decide⟩
    · refine ⟨kept, .refl _, fun _ hzero => hkept ?_⟩
      subst hzero
      exact ⟨Nat.zero_le _, Nat.zero_le _⟩

lemma cut_perm (block : Block) (eager : Bool) (kept : Nat) (items : List α) :
    ((cut less block eager kept items).flatMap Run.items).Perm items := by
  induction h : items.length using Nat.strongRecOn generalizing items with
  | _ n ih =>
    cases items with
    | nil =>
      rw [cut]
      exact .refl _
    | cons first rest =>
      rw [cut, List.flatMap_cons]
      obtain ⟨n', hrun, hpos⟩ := firstRun_perm less block eager kept (first :: rest)
      have htake := perm_take_length hrun
      have hone : 1 ≤ (firstRun less block eager kept (first :: rest)).items.length := by
        have := hrun.length_eq
        have := hpos (by simp)
        simp only [List.length_take, List.length_cons] at *
        omega
      have hrest := ih _ (by simp at h ⊢; omega)
        (rest.drop ((firstRun less block eager kept (first :: rest)).items.length - 1)) rfl
      refine (htake.append hrest).trans (.of_eq ?_)
      obtain ⟨k, hk⟩ := Nat.exists_eq_add_of_le' hone
      rw [hk, Nat.add_sub_cancel, List.take_succ_cons, List.cons_append, List.take_append_drop]

/-! ### Dividing -/

lemma partition_perm (p : α → Bool) (xs : List α) :
    ((xs.partition p).1 ++ (xs.partition p).2).Perm xs := by
  rw [List.partition_eq_filter_filter]
  exact List.filter_append_perm p xs

lemma divide_perm (toLeft : α → Bool) (place : Nat) (placeToLeft : Bool) (items : List α) :
    ((divide toLeft place placeToLeft items).1 ++ (divide toLeft place placeToLeft items).2).Perm
      items := by
  unfold divide
  simp only
  refine perm_interchange.symm.trans ?_
  refine (((partition_perm _ _).append (partition_perm _ _)).append (partition_perm _ _)).trans
    (.of_eq ?_)
  rw [List.append_assoc, ← List.drop_drop, List.take_append_drop, List.take_append_drop]

lemma byShortRuns_perm (block : Block) (items : List α) :
    (byShortRuns less block items).Perm items :=
  (joinAll_perm less (fun _ => .refl _) _ _).trans (cut_perm less block true _ items)

lemma byDivision_perm (block : Block) (depth : Nat) (bound? : Option α) (items : List α) :
    (byDivision less block depth bound? items).Perm items := by
  induction depth generalizing bound? items with
  | zero =>
    rw [byDivision]
    split
    · exact sortFew_perm less block items
    · exact byShortRuns_perm less block items
  | succ depth ih =>
    rw [byDivision]
    split
    · exact sortFew_perm less block items
    · simp only
      split
      · exact .refl _
      · split
        · exact ((ih none _).append_left _).trans (divide_perm _ _ _ items)
        · exact ((ih _ _).append (ih _ _)).trans (divide_perm _ _ _ items)

/-- **Sorting permutes**: the result consists of the items given. -/
theorem sort_perm (block : Block) (items : List α) : (sort less block items).Perm items := by
  unfold sort
  split
  · exact byInsertion_perm less items
  · exact (joinAll_perm less (fun xs => byDivision_perm less block _ none xs) _ _).trans
      (cut_perm less block _ _ items)

end EntityQuery.Sorting

namespace EntityQuery.Permute

universe u

variable {α : Type u}

/-! ### Rearranging -/

lemma swapIfInBounds_perm (items : Array α) (i j : Nat) :
    (items.swapIfInBounds i j).toList.Perm items.toList := by
  unfold Array.swapIfInBounds
  split
  · split
    · exact Array.perm_iff_toList_perm.mp (Array.swap_perm _ _)
    · exact .refl _
  · exact .refl _

lemma closeCycle?_perm {start steps current : Nat} {state state' : Array α × Array Nat}
    (h : closeCycle? start steps current state = some state') :
    state'.1.toList.Perm state.1.toList := by
  induction steps generalizing current state with
  | zero => simp [closeCycle?] at h
  | succ steps ih =>
    obtain ⟨items, perm⟩ := state
    rw [closeCycle?] at h
    split at h
    · cases h
    · split at h
      · cases h
        exact .refl _
      · split at h
        · exact (ih h).trans (swapIfInBounds_perm items _ _)
        · cases h

lemma closeCycles?_perm {starts : List Nat} {state state' : Array α × Array Nat}
    (h : closeCycles? starts state = some state') : state'.1.toList.Perm state.1.toList := by
  induction starts generalizing state with
  | nil =>
    cases h
    exact .refl _
  | cons start starts ih =>
    rw [closeCycles?, Option.bind_eq_some_iff] at h
    obtain ⟨next, hnext, h⟩ := h
    exact (ih h).trans (closeCycle?_perm hnext)

/-- Rearranging only swaps items. -/
theorem rearrange?_perm {items items' : Array α} {perm : Array Nat}
    (h : rearrange? items perm = some items') : items'.toList.Perm items.toList := by
  obtain ⟨state, hstate, rfl⟩ := Option.map_eq_some_iff.mp h
  exact closeCycles?_perm hstate

end EntityQuery.Permute
