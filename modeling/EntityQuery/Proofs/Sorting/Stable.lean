import EntityQuery.Proofs.Sorting.Ranked

/-!
# Sorting is stable

Where the comparison of the items is that of ranks, every step of sorting yields items that stand by
their ranks, and items of the same rank in the order they had: a few items put in order by fixed
comparisons, runs found and joined, and lists divided by one of their items. The merge from both ends
does so for lists of about the same length, which is how it is used.
-/

namespace EntityQuery.Sorting

variable {α : Type} {less : α → α → Bool} {rank : α → Int} {xs ys : List α}

/-! ### The merge from both ends -/

lemma take_drop_middle (front middle back : List α) :
    (((front ++ middle ++ back).take ((front ++ middle ++ back).length - back.length)).drop
      front.length) = middle := by
  rw [List.length_append, Nat.add_sub_cancel, List.take_left, List.drop_left]

/-- What the middle of an interleaving has of either list. -/
lemma Interleaves.middle {left right : List α} {front middle back : List (α × Bool)}
    (h : Interleaves left right (front ++ middle ++ back)) :
    (left.take (left.length - back.countP Prod.snd)).drop (front.countP Prod.snd) =
      (middle.filter Prod.snd).map Prod.fst ∧
    (right.take (right.length - (back.length - back.countP Prod.snd))).drop
        (front.length - front.countP Prod.snd) =
      (middle.filter fun z => !z.2).map Prod.fst := by
  obtain ⟨rfl, rfl⟩ := h
  rw [length_sub_countP, length_sub_countP]
  simp only [List.filter_append, List.map_append, List.countP_eq_length_filter]
  constructor
  · simpa using take_drop_middle ((front.filter Prod.snd).map Prod.fst)
      ((middle.filter Prod.snd).map Prod.fst) ((back.filter Prod.snd).map Prod.fst)
  · simpa using take_drop_middle ((front.filter fun z => !z.2).map Prod.fst)
      ((middle.filter fun z => !z.2).map Prod.fst) ((back.filter fun z => !z.2).map Prod.fst)

lemma filter_append_of_length_le_one {zs : List (α × Bool)} (h : zs.length ≤ 1) :
    (zs.filter Prod.snd).map Prod.fst ++ (zs.filter fun z => !z.2).map Prod.fst =
      zs.map Prod.fst := by
  rcases zs with _ | ⟨⟨z, mark⟩, _ | ⟨_, _⟩⟩
  · rfl
  · cases mark <;> rfl
  · simp at h

/-- **The merge from both ends** sorts what the lists have, if the right one has at most one item
more. -/
lemma sorts_mergeInward (h : Ranked less rank (xs ++ ys)) (hxs : Ordered rank xs)
    (hys : Ordered rank ys) (hlength : ys.length ≤ xs.length + 1) :
    Sorts rank (xs ++ ys) (mergeInward less xs ys) := by
  have hmarked : Ranked (lessMarked less) (fun z => rank z.1)
      (xs.map (·, true) ++ ys.map (·, false)) := by
    intro x hx y hy
    have hfst : ∀ z ∈ xs.map (·, true) ++ ys.map (·, false), z.1 ∈ xs ++ ys := by
      intro z hz
      simp only [List.mem_append, List.mem_map] at hz ⊢
      rcases hz with ⟨w, hw, rfl⟩ | ⟨w, hw, rfl⟩
      · exact .inl hw
      · exact .inr hw
    exact h x.1 (hfst x hx) y.1 (hfst y hy)
  have hxs' : Ordered (fun z : α × Bool => rank z.1) (xs.map (·, true)) :=
    List.pairwise_map.mpr hxs
  have hys' : Ordered (fun z : α × Bool => rank z.1) (ys.map (·, false)) :=
    List.pairwise_map.mpr hys
  have hforward := sorts_mergeForward hmarked hxs' hys'
  have hsame := hforward.unique (sorts_mergeBackward hmarked hxs' hys')
  have hinterleaves := interleaves_mergeForward less xs ys
  have hboth := hforward.keeps.perm.length_eq
  have hmap := hforward.map (f := Prod.fst)
  unfold mergeInward marked
  simp only [← hsame]
  rw [List.map_append, List.map_map, List.map_map] at hmap
  rw [List.length_append, List.length_map, List.length_map] at hboth
  generalize mergeForward (lessMarked less) (xs.map (·, true)) (ys.map (·, false)) = both at *
  split
  · rename_i hmiddle
    have hsplit := take_middle_drop both (show xs.length ≤ ys.length by omega)
    have hparts := hinterleaves
    rw [← hsplit] at hparts
    obtain ⟨hleft, hright⟩ := hparts.middle
    have hfront : (both.take xs.length).length = xs.length := by
      rw [List.length_take]
      omega
    have hback : (both.drop ys.length).length = xs.length := by
      rw [List.length_drop]
      omega
    rw [hfront, hback] at hright
    rw [hleft, hright, filter_append_of_length_le_one, ← List.map_append, ← List.map_append, hsplit]
    · simpa [Function.comp_def] using hmap
    · rw [List.length_drop, List.length_take]
      omega
  · exact sorts_mergeForward h hxs hys

/-! ### Few items -/

variable {a b c d : α}

lemma sorts_singleton (a : α) : Sorts rank [a] [a] :=
  .refl (List.pairwise_singleton _ a)

lemma sorts_sortTwo (h : Ranked less rank [a, b]) :
    Sorts rank [a, b] [(sortTwo less a b).1, (sortTwo less a b).2] := by
  unfold sortTwo
  split
  · rename_i hless
    have hlt : rank b < rank a := (h.lt (by simp) (by simp)).mp hless
    exact ⟨by simpa [Ordered] using hlt.le, .swap hlt.ne' []⟩
  · rename_i hless
    have hle : rank a ≤ rank b := (h.le (by simp) (by simp)).mp (by simpa using hless)
    exact .refl (by simpa [Ordered] using hle)

/-- The least and the greatest of four items go to the ends of the other two. -/
lemma sorts_between {zs : List α} (h : Sorts rank [b, c] zs) (hb : rank a ≤ rank b)
    (hc : rank a ≤ rank c) (hb' : rank b ≤ rank d) (hc' : rank c ≤ rank d) :
    Sorts rank [a, b, c, d] (a :: zs ++ [d]) := by
  have hfront : Sorts rank [a, b, c] (a :: zs) :=
    (sorts_singleton a).append h (by simpa using ⟨hb, hc⟩)
  exact hfront.append (sorts_singleton d) (by simpa using ⟨hb.trans hb', hb', hc'⟩)

lemma sorts_sortFour (h : Ranked less rank [a, b, c, d]) :
    Sorts rank [a, b, c, d] (sortFour less a b c d) := by
  have hfirst : Ranked less rank [a, b] := h.mono (by simp)
  have hlast : Ranked less rank [c, d] := h.mono (by simp)
  have hab := sorts_sortTwo hfirst
  have hcd := sorts_sortTwo hlast
  have hpairs := hab.keeps.append hcd.keeps
  have h := hpairs.ranked h
  have hab := hab.ordered
  have hcd := hcd.ordered
  unfold sortFour
  refine Sorts.of_keeps ?_ hpairs
  clear hpairs hfirst hlast
  generalize sortTwo less a b = x at *
  generalize sortTwo less c d = y at *
  obtain ⟨a, b⟩ := x
  obtain ⟨c, d⟩ := y
  have hab : rank a ≤ rank b := by simpa [Ordered] using hab
  have hcd : rank c ≤ rank d := by simpa [Ordered] using hcd
  dsimp only [List.cons_append, List.nil_append] at h ⊢
  have ha : a ∈ [a, b, c, d] := by simp
  have hb : b ∈ [a, b, c, d] := by simp
  have hc : c ∈ [a, b, c, d] := by simp
  have hd : d ∈ [a, b, c, d] := by simp
  split
  · rename_i hca' hdb'
    have hac : rank a ≤ rank c := (h.le hc ha).mp hca'
    have hbd : rank b ≤ rank d := (h.le hd hb).mp hdb'
    exact sorts_between (sorts_sortTwo (h.mono (by simp))) hab hac hbd hcd
  · rename_i hca' hdb'
    have hac : rank a ≤ rank c := (h.le hc ha).mp hca'
    have hdb : rank d < rank b := (h.lt hd hb).mp hdb'
    refine Sorts.of_keeps (sorts_between (sorts_sortTwo (h.mono (by simp))) hac (hac.trans hcd)
      (hcd.trans hdb.le) hdb.le) (.cons a ?_)
    exact (Keeps.middle [c, d] [] (by simp; omega)).symm
  · rename_i hca' hdb'
    have hca : rank c < rank a := (h.lt hc ha).mp hca'
    have hbd : rank b ≤ rank d := (h.le hd hb).mp hdb'
    refine Sorts.of_keeps (sorts_between (sorts_sortTwo (h.mono (by simp))) hca.le
      (hca.le.trans hab) (hab.trans hbd) hbd) ?_
    exact Keeps.middle [a, b] [d] (by simp; omega)
  · rename_i hca' hdb'
    have hca : rank c < rank a := (h.lt hc ha).mp hca'
    have hdb : rank d < rank b := (h.lt hd hb).mp hdb'
    refine Sorts.of_keeps (sorts_between (sorts_sortTwo (h.mono (by simp))) hca.le hcd hab hdb.le) ?_
    have hfirst : Keeps rank [a, b, c, d] [c, a, b, d] :=
      Keeps.middle [a, b] [d] (by simp; omega)
    exact hfirst.trans (.cons c (.cons a (.swap hdb.ne' [])))

lemma sorts_sortFourItems (h : Ranked less rank xs) (hlength : xs.length = 4) :
    Sorts rank xs (sortFourItems less xs) := by
  rcases xs with _ | ⟨a, _ | ⟨b, _ | ⟨c, _ | ⟨d, _ | ⟨_, _⟩⟩⟩⟩⟩ <;>
    simp at hlength
  exact sorts_sortFour h

/-- Two parts of a list that are sorted, of which the second has at most one item more, are merged
from both ends. -/
lemma sorts_mergeInward_parts {n : Nat} (h : Ranked less rank xs)
    (hlength : (xs.drop n).length ≤ (xs.take n).length + 1)
    (hxs : Sorts rank (xs.take n) ys) {zs : List α} (hzs : Sorts rank (xs.drop n) zs) :
    Sorts rank xs (mergeInward less ys zs) := by
  have hkeeps := hxs.keeps.append hzs.keeps
  rw [List.take_append_drop] at hkeeps
  refine .of_keeps (sorts_mergeInward (hkeeps.ranked h) hxs.ordered hzs.ordered ?_) hkeeps
  rwa [hxs.keeps.perm.length_eq, hzs.keeps.perm.length_eq]

lemma sorts_sortEightItems (h : Ranked less rank xs) (hlength : xs.length = 8) :
    Sorts rank xs (sortEightItems less xs) := by
  refine sorts_mergeInward_parts h ?_ (sorts_sortFourItems (h.mono (List.take_subset 4 xs)) ?_)
    (sorts_sortFourItems (h.mono (List.drop_subset 4 xs)) ?_) <;> simp [hlength]

/-- The other items are inserted into the sorted front of a list. -/
lemma sorts_insertAll_parts {n : Nat} (h : Ranked less rank xs) (hxs : Sorts rank (xs.take n) ys) :
    Sorts rank xs (insertAll less ys (xs.drop n)) := by
  have hkeeps := hxs.keeps.append (.refl (xs.drop n))
  rw [List.take_append_drop] at hkeeps
  exact .of_keeps (sorts_insertAll (hkeeps.ranked h) hxs.ordered) hkeeps

lemma sorts_sortHalf {count : Nat} (block : Block) (h : Ranked less rank xs)
    (hlength : count / 2 ≤ xs.length) : Sorts rank xs (sortHalf less block count xs) := by
  unfold sortHalf
  split
  · refine sorts_insertAll_parts h (sorts_sortEightItems (h.mono (List.take_subset 8 xs)) ?_)
    rw [List.length_take]
    omega
  · split
    · refine sorts_insertAll_parts h (sorts_sortFourItems (h.mono (List.take_subset 4 xs)) ?_)
      rw [List.length_take]
      omega
    · exact sorts_byInsertion h

/-- **A few items** are sorted. -/
lemma sorts_sortFew (block : Block) (h : Ranked less rank xs) :
    Sorts rank xs (sortFew less block xs) := by
  have htake : (xs.take (xs.length / 2)).length = xs.length / 2 := by
    rw [List.length_take]
    omega
  have hdrop : (xs.drop (xs.length / 2)).length = xs.length - xs.length / 2 := List.length_drop
  refine sorts_mergeInward_parts h ?_
    (sorts_sortHalf block (h.mono (List.take_subset _ xs)) htake.ge)
    (sorts_sortHalf block (h.mono (List.drop_subset _ xs)) ?_) <;> omega

/-! ### Runs -/

/-- A run that says that it is sorted is so, and one that does not may wait to be sorted. -/
structure Run.Sound (rank : α → Int) (mayWait : Prop) (run : Run α) : Prop where
  ordered : run.sorted = true → Ordered rank run.items
  waits : run.sorted = false → mayWait

variable {mayWait : Prop} {settle : List α → List α}

/-- The items of a run, sorted. -/
lemma Run.Sound.sorts_settled {run : Run α} (h : run.Sound rank mayWait)
    (hs : mayWait → ∀ zs, Ranked less rank zs → Sorts rank zs (settle zs))
    (hranked : Ranked less rank run.items) :
    Sorts rank run.items (if run.sorted then run.items else settle run.items) := by
  cases hsorted : run.sorted with
  | true => exact .refl (h.ordered hsorted)
  | false => exact hs (h.waits hsorted) run.items hranked

lemma keeps_join {left right : Run α}
    (hs : mayWait → ∀ zs, Ranked less rank zs → Sorts rank zs (settle zs))
    (h : Ranked less rank (left.items ++ right.items)) (hleft : left.Sound rank mayWait)
    (hright : right.Sound rank mayWait) :
    Keeps rank (left.items ++ right.items) (join less settle left right).items ∧
      (join less settle left right).Sound rank mayWait := by
  have hl := hleft.sorts_settled hs (h.mono (List.subset_append_left ..))
  have hr := hright.sorts_settled hs (h.mono (List.subset_append_right ..))
  have hkeeps := hl.keeps.append hr.keeps
  have hmerge := sorts_mergeShorter (hkeeps.ranked h) hl.ordered hr.ordered
  unfold join
  split
  · exact ⟨hkeeps.trans hmerge.keeps, fun _ => hmerge.ordered, by simp⟩
  · rename_i hsorted
    simp only [Bool.or_eq_true, not_or, Bool.not_eq_true] at hsorted
    exact ⟨.refl _, by simp, fun _ => hleft.waits hsorted.1⟩

lemma keeps_joinLeft (hs : mayWait → ∀ zs, Ranked less rank zs → Sorts rank zs (settle zs))
    (depth : Nat) {run : Run α} {waiting : List (Run α × Nat)}
    (h : Ranked less rank (waitingItems waiting ++ run.items)) (hrun : run.Sound rank mayWait)
    (hwaiting : ∀ w ∈ waiting, w.1.Sound rank mayWait) :
    let joined := joinLeft less settle depth run waiting
    Keeps rank (waitingItems waiting ++ run.items) (waitingItems joined.2 ++ joined.1.items) ∧
      joined.1.Sound rank mayWait ∧ ∀ w ∈ joined.2, w.1.Sound rank mayWait := by
  induction waiting generalizing run with
  | nil => exact ⟨.refl _, hrun, hwaiting⟩
  | cons first rest ih =>
    obtain ⟨left, leftDepth⟩ := first
    rw [joinLeft]
    split
    · rw [waitingItems, List.append_assoc] at h ⊢
      obtain ⟨hjoin, hsound⟩ := keeps_join hs (h.mono (List.subset_append_right ..))
        (hwaiting (left, leftDepth) List.mem_cons_self) hrun
      have hkeeps := (Keeps.refl (waitingItems rest)).append hjoin
      obtain ⟨hrest, hjoined⟩ := ih (hkeeps.ranked h) hsound
        fun w hw => hwaiting w (List.mem_cons_of_mem _ hw)
      exact ⟨hkeeps.trans hrest, hjoined⟩
    · exact ⟨.refl _, hrun, hwaiting⟩

lemma keeps_joinFrom (hs : mayWait → ∀ zs, Ranked less rank zs → Sorts rank zs (settle zs))
    (total scanned : Nat) {last : Run α} {waiting : List (Run α × Nat)} {runs : List (Run α)}
    (h : Ranked less rank (waitingItems waiting ++ last.items ++ runs.flatMap Run.items))
    (hlast : last.Sound rank mayWait) (hwaiting : ∀ w ∈ waiting, w.1.Sound rank mayWait)
    (hruns : ∀ run ∈ runs, run.Sound rank mayWait) :
    let joined := joinFrom less settle total scanned last waiting runs
    Keeps rank (waitingItems waiting ++ last.items ++ runs.flatMap Run.items) joined.items ∧
      joined.Sound rank mayWait := by
  induction runs generalizing scanned last waiting with
  | nil =>
    rw [List.flatMap_nil, List.append_nil] at h ⊢
    obtain ⟨hkeeps, hsound, -⟩ := keeps_joinLeft hs 0 h hlast hwaiting
    rw [joinLeft_zero less, waitingItems, List.nil_append] at hkeeps
    exact ⟨hkeeps, hsound⟩
  | cons next rest ih =>
    rw [joinFrom]
    generalize hdepth : meetingDepth _ _ _ _ = depth
    obtain ⟨hkeeps, hsound, hleft⟩ := keeps_joinLeft hs depth
      (h.mono (List.subset_append_left ..)) hlast hwaiting
    have hrest := hkeeps.append (.refl ((next :: rest).flatMap Run.items))
    have h := hrest.ranked h
    rw [List.flatMap_cons] at h hrest ⊢
    rw [← List.append_assoc] at h
    obtain ⟨hjoined, hsound'⟩ := @ih (scanned + next.items.length) next
      (((joinLeft less settle depth last waiting).1, depth) ::
        (joinLeft less settle depth last waiting).2) h (hruns next List.mem_cons_self)
      (List.forall_mem_cons.mpr ⟨hsound, hleft⟩)
      fun run hrun => hruns run (List.mem_cons_of_mem next hrun)
    rw [waitingItems, List.append_assoc] at hjoined
    exact ⟨hrest.trans hjoined, hsound'⟩

/-- **Joining runs** sorts what they have. -/
lemma sorts_joinAll (hs : mayWait → ∀ zs, Ranked less rank zs → Sorts rank zs (settle zs))
    (total : Nat) {runs : List (Run α)} (h : Ranked less rank (runs.flatMap Run.items))
    (hruns : ∀ run ∈ runs, run.Sound rank mayWait) :
    Sorts rank (runs.flatMap Run.items) (joinAll less settle total runs) := by
  cases runs with
  | nil => exact .refl .nil
  | cons first rest =>
    have hnone : ∀ w ∈ ([] : List (Run α × Nat)), w.1.Sound rank mayWait := by simp
    have h : Ranked less rank (waitingItems [] ++ first.items ++ rest.flatMap Run.items) := h
    obtain ⟨hkeeps, hsound⟩ := keeps_joinFrom hs total first.items.length h
      (hruns first List.mem_cons_self) hnone
      fun run hrun => hruns run (List.mem_cons_of_mem first hrun)
    exact .of_keeps (hsound.sorts_settled hs (hkeeps.ranked h)) hkeeps

variable {x : α}

/-- A stretch that falls is in the reverse order. -/
lemma descending_fallLength (h : Ranked less rank (x :: xs)) :
    (x :: xs.take (fallLength less x xs)).Pairwise fun a b => rank b < rank a := by
  induction xs generalizing x with
  | nil => exact List.pairwise_singleton _ x
  | cons y ys ih =>
    rw [fallLength]
    split
    · rename_i hless
      have hlt : rank y < rank x := (h.lt (by simp) (by simp)).mp hless
      have hrest := ih (h.mono (List.subset_cons_self x _))
      rw [List.take_succ_cons]
      refine List.pairwise_cons.mpr ⟨fun z hz => ?_, hrest⟩
      rcases List.mem_cons.mp hz with rfl | hz
      · exact hlt
      · exact ((List.pairwise_cons.mp hrest).1 z hz).trans hlt
    · exact List.pairwise_singleton _ x

/-- A stretch that does not fall is in order. -/
lemma ordered_riseLength (h : Ranked less rank (x :: xs)) :
    Ordered rank (x :: xs.take (riseLength less x xs)) := by
  induction xs generalizing x with
  | nil => exact List.pairwise_singleton _ x
  | cons y ys ih =>
    rw [riseLength]
    split
    · exact List.pairwise_singleton _ x
    · rename_i hless
      have hle : rank x ≤ rank y := (h.le (by simp) (by simp)).mp (by simpa using hless)
      have hrest := ih (h.mono (List.subset_cons_self x _))
      rw [List.take_succ_cons]
      refine List.pairwise_cons.mpr ⟨fun z hz => ?_, hrest⟩
      rcases List.mem_cons.mp hz with rfl | hz
      · exact hle
      · exact hle.trans ((List.pairwise_cons.mp hrest).1 z hz)

lemma sorts_naturalRun (h : Ranked less rank xs) :
    ∃ n, Sorts rank (xs.take n) (naturalRun less xs).items ∧ (xs ≠ [] → n ≠ 0) ∧
      (naturalRun less xs).sorted = true := by
  rcases xs with _ | ⟨x, _ | ⟨y, rest⟩⟩
  · exact ⟨0, .refl .nil, by simp, rfl⟩
  · exact ⟨1, sorts_singleton x, by simp, rfl⟩
  · unfold naturalRun
    dsimp only
    split
    · rename_i hless
      have hfall := descending_fallLength h
      rw [fallLength, if_pos hless] at hfall
      refine ⟨fallLength less y rest + 2, ⟨?_, ?_⟩, by omega, rfl⟩
      · exact List.pairwise_reverse.mpr (hfall.imp fun hlt => hlt.le)
      · exact Keeps.reverse (hfall.imp fun hlt => hlt.ne')
    · rename_i hless
      have hrise := ordered_riseLength h
      rw [riseLength, if_neg hless] at hrise
      exact ⟨riseLength less y rest + 2, .refl hrise, by omega, rfl⟩

/-- The first run is sorted at once if it has to be. -/
lemma keeps_firstRun (block : Block) (eager : Bool) (kept : Nat) (h : Ranked less rank xs) :
    ∃ n, Keeps rank (xs.take n) (firstRun less block eager kept xs).items ∧ (xs ≠ [] → n ≠ 0) ∧
      (firstRun less block eager kept xs).Sound rank (eager = false) := by
  obtain ⟨n, hsorts, hpos, hsorted⟩ := sorts_naturalRun h
  unfold firstRun
  dsimp only
  split
  · exact ⟨n, hsorts.keeps, hpos, fun _ => hsorts.ordered, by simp [hsorted]⟩
  · rename_i hkept
    split
    · have hfew := sorts_sortFew block (h.mono (List.take_subset few xs))
      exact ⟨few, hfew.keeps, fun _ => by decide, fun _ => hfew.ordered, by simp⟩
    · rename_i heager
      refine ⟨kept, .refl _, fun _ hzero => hkept ?_, by simp, fun _ => by simpa using heager⟩
      subst hzero
      exact ⟨Nat.zero_le _, Nat.zero_le _⟩

/-- **Cutting** a list into runs keeps its items, and yields sound runs. -/
lemma keeps_cut (block : Block) (eager : Bool) (kept : Nat) (h : Ranked less rank xs) :
    Keeps rank xs ((cut less block eager kept xs).flatMap Run.items) ∧
      ∀ run ∈ cut less block eager kept xs, run.Sound rank (eager = false) := by
  induction hn : xs.length using Nat.strongRecOn generalizing xs with
  | _ n ih =>
    cases xs with
    | nil =>
      rw [cut]
      exact ⟨.refl [], by simp⟩
    | cons first rest =>
      rw [cut, List.flatMap_cons]
      obtain ⟨n', hrun, hpos, hsound⟩ := keeps_firstRun block eager kept h
      have htake := hrun.take_length
      have hone : 1 ≤ (firstRun less block eager kept (first :: rest)).items.length := by
        have := hrun.perm.length_eq
        have := hpos (by simp)
        simp only [List.length_take, List.length_cons] at *
        omega
      obtain ⟨k, hk⟩ := Nat.exists_eq_add_of_le' hone
      rw [hk, List.take_succ_cons] at htake
      rw [hk, Nat.add_sub_cancel]
      have hsub : rest.drop k ⊆ first :: rest :=
        fun z hz => List.mem_cons_of_mem first (List.drop_subset k rest hz)
      obtain ⟨hrest, hruns⟩ := ih (rest.drop k).length (by
        simp only [List.length_drop, List.length_cons] at hn ⊢
        omega) (h.mono hsub) rfl
      have hboth := htake.append hrest
      rw [List.cons_append, List.take_append_drop] at hboth
      exact ⟨hboth, List.forall_mem_cons.mpr ⟨hsound, hruns⟩⟩

end EntityQuery.Sorting
