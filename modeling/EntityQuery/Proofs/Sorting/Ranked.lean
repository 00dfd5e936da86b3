import EntityQuery.Proofs.Sorting.Permutation
import Mathlib.Algebra.Order.Ring.Int

/-!
# Sorted by rank, and stable

Where a comparison is that of ranks, a list is sorted by it in one way that keeps the items of each
rank in their order. So whatever is known to be sorted and to keep ranks is known altogether. Here
this is shown of inserting and of the three ways of merging.
-/

namespace EntityQuery.Sorting

variable {α : Type} {less : α → α → Bool} {rank : α → Int} {x y : α} {xs ys zs us vs : List α}

/-- The items stand by their ranks. -/
def Ordered (rank : α → Int) (xs : List α) : Prop :=
  xs.Pairwise fun x y => rank x ≤ rank y

/-- The items of each rank are the same in both lists, and in the same order. -/
def Keeps (rank : α → Int) (xs ys : List α) : Prop :=
  ∀ k, ys.filter (fun x => rank x = k) = xs.filter fun x => rank x = k

/-- A list is what becomes of another one when it is sorted by rank. -/
structure Sorts (rank : α → Int) (xs ys : List α) : Prop where
  ordered : Ordered rank ys
  keeps : Keeps rank xs ys

/-- The items of a list compare as their ranks do. -/
def Ranked (less : α → α → Bool) (rank : α → Int) (xs : List α) : Prop :=
  ∀ x ∈ xs, ∀ y ∈ xs, less x y = decide (rank x < rank y)

lemma Ranked.mono (h : Ranked less rank xs) (hsub : ys ⊆ xs) : Ranked less rank ys :=
  fun x hx y hy => h x (hsub hx) y (hsub hy)

lemma Ranked.lt (h : Ranked less rank xs) (hx : x ∈ xs) (hy : y ∈ xs) :
    less x y = true ↔ rank x < rank y := by
  rw [h x hx y hy, decide_eq_true_iff]

lemma Ranked.le (h : Ranked less rank xs) (hx : x ∈ xs) (hy : y ∈ xs) :
    less x y = false ↔ rank y ≤ rank x := by
  rw [h x hx y hy, decide_eq_false_iff_not, not_lt]

/-! ### Keeping ranks -/

namespace Keeps

lemma refl (xs : List α) : Keeps rank xs xs :=
  fun _ => rfl

lemma trans (h : Keeps rank xs ys) (h' : Keeps rank ys zs) : Keeps rank xs zs :=
  fun k => (h' k).trans (h k)

lemma symm (h : Keeps rank xs ys) : Keeps rank ys xs :=
  fun k => (h k).symm

lemma append (h : Keeps rank xs ys) (h' : Keeps rank us vs) :
    Keeps rank (xs ++ us) (ys ++ vs) := by
  intro k
  rw [List.filter_append, List.filter_append, h k, h' k]

lemma cons (x : α) (h : Keeps rank xs ys) : Keeps rank (x :: xs) (x :: ys) :=
  (refl [x]).append h

lemma mem_iff (h : Keeps rank xs ys) : x ∈ ys ↔ x ∈ xs := by
  have hmem : x ∈ ys.filter (fun z => rank z = rank x) ↔
      x ∈ xs.filter (fun z => rank z = rank x) := by
    rw [h (rank x)]
  simpa using hmem

/-- An item may be moved to the front past items of other ranks. -/
lemma middle (xs ys : List α) (h : ∀ z ∈ xs, rank z ≠ rank y) :
    Keeps rank (xs ++ y :: ys) (y :: (xs ++ ys)) := by
  intro k
  by_cases hk : rank y = k
  · have hnone : xs.filter (fun z => rank z = k) = [] :=
      List.filter_eq_nil_iff.mpr fun z hz => by simpa [← hk] using h z hz
    simp [hk, hnone]
  · simp [hk]

lemma swap (h : rank x ≠ rank y) (zs : List α) : Keeps rank (x :: y :: zs) (y :: x :: zs) := by
  have hone : ∀ z ∈ [x], rank z ≠ rank y := by simpa using h
  exact middle [x] zs hone

/-- Where all ranks are different, the list may be reversed. -/
lemma reverse (h : xs.Pairwise fun x y => rank x ≠ rank y) : Keeps rank xs xs.reverse := by
  induction xs with
  | nil => exact refl []
  | cons x xs ih =>
    rw [List.pairwise_cons] at h
    rw [List.reverse_cons]
    have hfront : Keeps rank (x :: xs) (xs ++ [x]) := by
      have hmiddle := middle xs [] fun z hz => (h.1 z hz).symm
      rw [List.append_nil] at hmiddle
      exact hmiddle.symm
    exact hfront.trans ((ih h.2).append (refl [x]))

lemma perm (h : Keeps rank xs ys) : ys.Perm xs := by
  classical
  rw [List.perm_iff_count]
  intro x
  have hcount : ∀ zs : List α, zs.count x = (zs.filter fun z => rank z = rank x).count x := by
    intro zs
    exact (List.count_filter (by simp)).symm
  rw [hcount ys, hcount xs, h (rank x)]

lemma ranked (h : Keeps rank xs ys) (hxs : Ranked less rank xs) : Ranked less rank ys :=
  hxs.mono fun _ hx => h.mem_iff.mp hx

/-- What holds of a list from its front on holds of as many items as are kept. -/
lemma take_length {n : Nat} (h : Keeps rank (xs.take n) ys) :
    Keeps rank (xs.take ys.length) ys := by
  have hlength := h.perm.length_eq
  rw [List.length_take] at hlength
  rwa [hlength, ← List.take_take, List.take_length]

end Keeps

/-! ### There is one way to sort -/

lemma Ordered.eq_of_keeps (hxs : Ordered rank xs) (hys : Ordered rank ys) (h : Keeps rank xs ys) :
    ys = xs := by
  induction xs generalizing ys with
  | nil => exact List.eq_nil_iff_forall_not_mem.mpr fun x hx => List.not_mem_nil (h.mem_iff.mp hx)
  | cons x xs ih =>
    cases ys with
    | nil => exact absurd (h.mem_iff.mpr List.mem_cons_self) List.not_mem_nil
    | cons y ys =>
      obtain ⟨hx, hxs'⟩ := List.pairwise_cons.mp hxs
      obtain ⟨hy, hys'⟩ := List.pairwise_cons.mp hys
      -- both lists start with an item of the least rank, and it is the first of this rank
      have hle : rank x ≤ rank y := by
        rcases List.mem_cons.mp (h.mem_iff.mp (List.mem_cons_self (l := ys))) with rfl | hmem
        · exact le_refl _
        · exact hx y hmem
      have hge : rank y ≤ rank x := by
        rcases List.mem_cons.mp (h.mem_iff.mpr (List.mem_cons_self (l := xs))) with rfl | hmem
        · exact le_refl _
        · exact hy x hmem
      have hrank : rank y = rank x := le_antisymm hge hle
      have hhead := h (rank x)
      rw [List.filter_cons_of_pos (by simpa using hrank), List.filter_cons_of_pos (by simp)] at hhead
      obtain ⟨rfl, -⟩ := List.cons.inj hhead
      refine congrArg (y :: ·) (ih hxs' hys' fun k => ?_)
      have hk := h k
      by_cases hyk : rank y = k
      · rw [List.filter_cons_of_pos (by simpa using hyk),
          List.filter_cons_of_pos (by simpa using hyk)] at hk
        exact (List.cons.inj hk).2
      · rwa [List.filter_cons_of_neg (by simpa using hyk),
          List.filter_cons_of_neg (by simpa using hyk)] at hk

namespace Sorts

/-- **Sorting by rank** has one result. -/
theorem unique (h : Sorts rank xs ys) (h' : Sorts rank xs zs) : ys = zs :=
  h'.ordered.eq_of_keeps h.ordered (h'.keeps.symm.trans h.keeps)

lemma refl (h : Ordered rank xs) : Sorts rank xs xs :=
  ⟨h, .refl xs⟩

lemma of_keeps (h : Sorts rank ys zs) (hkeeps : Keeps rank xs ys) : Sorts rank xs zs :=
  ⟨h.ordered, hkeeps.trans h.keeps⟩

/-- Items of one rank keep their order. -/
lemma sublist (h : Sorts rank xs ys) {k : Int} (hsub : zs.Sublist xs) (hk : ∀ z ∈ zs, rank z = k) :
    zs.Sublist ys := by
  have hzs : zs.filter (fun z => rank z = k) = zs :=
    List.filter_eq_self.mpr fun z hz => decide_eq_true (hk z hz)
  have hfilter := hsub.filter fun z => decide (rank z = k)
  rw [hzs, ← h.keeps k] at hfilter
  exact hfilter.trans List.filter_sublist

lemma filter (h : Sorts rank xs ys) (p : α → Bool) : Sorts rank (xs.filter p) (ys.filter p) := by
  refine ⟨h.ordered.filter p, fun k => ?_⟩
  rw [List.filter_comm, List.filter_comm (l := xs), h.keeps k]

/-- Sorted lists follow each other if no item of the second one belongs before one of the first. -/
lemma append (h : Sorts rank xs ys) (h' : Sorts rank us vs)
    (hle : ∀ x ∈ xs, ∀ y ∈ us, rank x ≤ rank y) : Sorts rank (xs ++ us) (ys ++ vs) := by
  refine ⟨List.pairwise_append.mpr ⟨h.ordered, h'.ordered, fun x hx y hy => ?_⟩,
    h.keeps.append h'.keeps⟩
  exact hle x (h.keeps.mem_iff.mp hx) y (h'.keeps.mem_iff.mp hy)

lemma map {γ : Type} {f : γ → α} {cs ds : List γ} (h : Sorts (fun c => rank (f c)) cs ds) :
    Sorts rank (cs.map f) (ds.map f) := by
  refine ⟨List.pairwise_map.mpr h.ordered, fun k => ?_⟩
  rw [List.filter_map, List.filter_map]
  exact congrArg (List.map f) (h.keeps k)

end Sorts

/-! ### Insertion -/

lemma keeps_insertReversed (h : ∀ y ∈ ys, less x y = decide (rank x < rank y)) :
    Keeps rank (x :: ys) (insertReversed less x ys) := by
  induction ys with
  | nil => exact .refl [x]
  | cons y ys ih =>
    have hy := h y List.mem_cons_self
    rw [insertReversed]
    split
    · rename_i hless
      rw [hless] at hy
      have hne : rank x ≠ rank y := (of_decide_eq_true hy.symm).ne
      exact (Keeps.swap hne ys).trans (.cons y (ih fun z hz => h z (List.mem_cons_of_mem y hz)))
    · exact .refl _

lemma descending_insertReversed (h : ∀ y ∈ ys, less x y = decide (rank x < rank y))
    (hys : Ordered (fun x => -rank x) ys) :
    Ordered (fun x => -rank x) (insertReversed less x ys) := by
  induction ys with
  | nil => exact List.pairwise_singleton _ x
  | cons y ys ih =>
    obtain ⟨hy, hys⟩ := List.pairwise_cons.mp hys
    have hxy := h y List.mem_cons_self
    rw [insertReversed]
    split
    · rename_i hless
      rw [hless] at hxy
      have hlt : rank x < rank y := of_decide_eq_true hxy.symm
      refine List.pairwise_cons.mpr ⟨fun z hz => ?_,
        ih (fun z hz => h z (List.mem_cons_of_mem y hz)) hys⟩
      rcases List.mem_cons.mp ((insertReversed_perm less x ys).mem_iff.mp hz) with rfl | hz
      · exact Int.neg_le_neg hlt.le
      · exact hy z hz
    · rename_i hless
      rw [Bool.eq_false_iff.mpr hless] at hxy
      have hle : rank y ≤ rank x := not_lt.mp (of_decide_eq_false hxy.symm)
      refine List.pairwise_cons.mpr ⟨fun z hz => ?_, List.pairwise_cons.mpr ⟨hy, hys⟩⟩
      rcases List.mem_cons.mp hz with rfl | hz
      · exact Int.neg_le_neg hle
      · exact (Int.neg_le_neg hle).trans (hy z hz)

/-- Reversing a list that descends makes it ascend. -/
lemma ordered_reverse (h : Ordered (fun x => -rank x) xs) : Ordered rank xs.reverse :=
  List.pairwise_reverse.mpr (h.imp Int.le_of_neg_le_neg)

lemma descending_reverse (h : Ordered rank xs) : Ordered (fun x => -rank x) xs.reverse :=
  List.pairwise_reverse.mpr (h.imp Int.neg_le_neg)

/-- Inserting items one after the other keeps a list that stands in reverse in order. -/
lemma descending_foldl_insertReversed {reversed : List α} (h : Ranked less rank (ys ++ reversed))
    (hreversed : Ordered (fun x => -rank x) reversed) :
    let folded := ys.foldl (fun reversed x => insertReversed less x reversed) reversed
    Ordered (fun x => -rank x) folded ∧ Keeps rank (reversed.reverse ++ ys) folded.reverse := by
  induction ys generalizing reversed with
  | nil =>
    refine ⟨hreversed, ?_⟩
    rw [List.append_nil]
    exact .refl _
  | cons y ys ih =>
    have hy : ∀ z ∈ reversed, less y z = decide (rank y < rank z) :=
      fun z hz => h y (by simp) z (by simp [hz])
    have hinsert := keeps_insertReversed hy
    have hsub : ys ++ insertReversed less y reversed ⊆ y :: ys ++ reversed := by
      intro z hz
      rcases List.mem_append.mp hz with hz | hz
      · simp [hz]
      · have hmem := hinsert.mem_iff.mp hz
        grind
    obtain ⟨hordered, hkeeps⟩ := ih (h.mono hsub) (descending_insertReversed hy hreversed)
    refine ⟨hordered, .trans (fun k => ?_) hkeeps⟩
    have hk := congrArg List.reverse (hinsert k)
    rw [← List.filter_reverse, ← List.filter_reverse, List.reverse_cons] at hk
    rw [List.filter_append, hk, List.filter_append, List.filter_append, List.append_assoc,
      ← List.filter_append [y], List.singleton_append]

/-- Inserting items one after the other sorts them into a sorted list. -/
lemma sorts_insertAll (h : Ranked less rank (xs ++ ys)) (hxs : Ordered rank xs) :
    Sorts rank (xs ++ ys) (insertAll less xs ys) := by
  have hsub : ys ++ xs.reverse ⊆ xs ++ ys := by
    intro z hz
    rcases List.mem_append.mp hz with hz | hz
    · exact List.mem_append_right xs hz
    · exact List.mem_append_left ys (List.mem_reverse.mp hz)
  obtain ⟨hordered, hkeeps⟩ :=
    descending_foldl_insertReversed (h.mono hsub) (descending_reverse hxs)
  rw [List.reverse_reverse] at hkeeps
  exact ⟨ordered_reverse hordered, hkeeps⟩

lemma sorts_byInsertion (h : Ranked less rank xs) : Sorts rank xs (byInsertion less xs) := by
  have hempty : Ordered rank ([] : List α) := .nil
  exact sorts_insertAll h hempty

/-! ### Merging -/

/-- Merging sorted lists sorts what they have, if it prefers the left list for equal ranks. -/
lemma sorts_merge {le : α → α → Bool}
    (hle : ∀ x ∈ xs, ∀ y ∈ ys, le x y = decide (rank x ≤ rank y)) (hxs : Ordered rank xs)
    (hys : Ordered rank ys) : Sorts rank (xs ++ ys) (xs.merge ys le) := by
  induction xs generalizing ys with
  | nil =>
    rw [List.nil_merge]
    exact ⟨hys, .refl ys⟩
  | cons x xs ihx =>
    obtain ⟨hx, hxs'⟩ := List.pairwise_cons.mp hxs
    induction ys with
    | nil =>
      rw [List.merge_right, List.append_nil]
      exact ⟨hxs, .refl _⟩
    | cons y ys ihy =>
      obtain ⟨hy, hys'⟩ := List.pairwise_cons.mp hys
      have hxy := hle x List.mem_cons_self y List.mem_cons_self
      rw [List.cons_merge_cons]
      split
      · rename_i hfirst
        rw [hfirst] at hxy
        have hxy : rank x ≤ rank y := of_decide_eq_true hxy.symm
        have hrest := ihx (fun z hz => hle z (List.mem_cons_of_mem x hz)) hxs' hys
        refine ⟨List.pairwise_cons.mpr ⟨fun z hz => ?_, hrest.ordered⟩, .cons x hrest.keeps⟩
        rcases List.mem_append.mp (hrest.keeps.mem_iff.mp hz) with hz | hz
        · exact hx z hz
        · rcases List.mem_cons.mp hz with rfl | hz
          · exact hxy
          · exact hxy.trans (hy z hz)
      · rename_i hfirst
        rw [Bool.eq_false_iff.mpr hfirst] at hxy
        have hyx : rank y < rank x := not_le.mp (of_decide_eq_false hxy.symm)
        have hall : ∀ z ∈ x :: xs, rank y < rank z := by
          intro z hz
          rcases List.mem_cons.mp hz with rfl | hz
          · exact hyx
          · exact hyx.trans_le (hx z hz)
        have hrest := ihy (fun z hz w hw => hle z hz w (List.mem_cons_of_mem y hw)) hys'
        refine ⟨List.pairwise_cons.mpr ⟨fun z hz => ?_, hrest.ordered⟩,
          (Keeps.middle _ ys fun z hz => (hall z hz).ne').trans (.cons y hrest.keeps)⟩
        rcases List.mem_append.mp (hrest.keeps.mem_iff.mp hz) with hz | hz
        · exact (hall z hz).le
        · exact hy z hz

lemma sorts_mergeForward (h : Ranked less rank (xs ++ ys)) (hxs : Ordered rank xs)
    (hys : Ordered rank ys) : Sorts rank (xs ++ ys) (mergeForward less xs ys) := by
  refine sorts_merge (fun x hx y hy => ?_) hxs hys
  rw [h y (List.mem_append_right xs hy) x (List.mem_append_left ys hx), ← decide_not]
  simp

lemma sorts_mergeBackward (h : Ranked less rank (xs ++ ys)) (hxs : Ordered rank xs)
    (hys : Ordered rank ys) : Sorts rank (xs ++ ys) (mergeBackward less xs ys) := by
  have hle : ∀ y ∈ ys.reverse, ∀ x ∈ xs.reverse, (!less y x) = decide (-rank y ≤ -rank x) := by
    intro y hy x hx
    rw [h y (List.mem_append_right xs (List.mem_reverse.mp hy)) x
      (List.mem_append_left ys (List.mem_reverse.mp hx)), ← decide_not]
    simp
  have hmerge := sorts_merge hle (descending_reverse hys) (descending_reverse hxs)
  refine ⟨ordered_reverse hmerge.ordered, fun k => ?_⟩
  have hk := congrArg List.reverse (hmerge.keeps (-k))
  rw [← List.reverse_append, ← List.filter_reverse, ← List.filter_reverse, List.reverse_reverse]
    at hk
  simpa [mergeBackward] using hk

lemma sorts_mergeShorter (h : Ranked less rank (xs ++ ys)) (hxs : Ordered rank xs)
    (hys : Ordered rank ys) : Sorts rank (xs ++ ys) (merge less xs ys) := by
  unfold merge
  split
  · exact sorts_mergeForward h hxs hys
  · exact sorts_mergeBackward h hxs hys

end EntityQuery.Sorting
