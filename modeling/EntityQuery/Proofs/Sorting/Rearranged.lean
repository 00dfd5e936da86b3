import EntityQuery.Proofs.Sorting.Permutation
import Mathlib.Data.List.Nodup
import Mathlib.Dynamics.PeriodicPts.Lemmas

/-!
# Rearranging is exact

A permutation consists of cycles. Following one from any position closes it: every position on it
has its item then and is marked by pointing to itself, and the others are as before. So after the
cycles of all positions the array holds at each position the item that the permutation asks for.
-/

namespace EntityQuery.Permute

universe u

variable {α : Type u} {items : Array α} {perm : Array Nat} {start c d : Nat} {rest : List Nat}

/-- An array of all positions below its size. -/
structure IsPermutation (perm : Array Nat) : Prop where
  lt {i j : Nat} (h : perm[i]? = some j) : j < perm.size
  inj {i j k : Nat} (hi : perm[i]? = some k) (hj : perm[j]? = some k) : i = j

/-- The item a position is to get. -/
def due (items : Array α) (perm : Array Nat) (i : Nat) : Option α :=
  perm[i]?.bind fun j => items[j]?

lemma due_eq_of_getElem? {i j : Nat} (h : perm[i]? = some j) : due items perm i = items[j]? := by
  rw [due, h, Option.bind_some]

lemma due_eq_none {i : Nat} (h : perm[i]? = none) : due items perm i = none := by
  rw [due, h, Option.bind_none]

/-- Each position of a list leads to the next one, and the last one to the start. -/
def Leads (perm : Array Nat) (start : Nat) : List Nat → Prop
  | [] => False
  | [c] => perm[c]? = some start
  | c :: d :: rest => perm[c]? = some d ∧ Leads perm start (d :: rest)

namespace Leads

lemma congr {perm' : Array Nat} {path : List Nat} (h : Leads perm start path)
    (hsame : ∀ i ∈ path, perm'[i]? = perm[i]?) : Leads perm' start path := by
  induction path with
  | nil => exact h
  | cons c rest ih =>
    have hc := hsame c List.mem_cons_self
    cases rest with
    | nil => exact hc.trans h
    | cons d rest =>
      exact ⟨hc.trans h.1, ih h.2 fun i hi => hsame i (List.mem_cons_of_mem c hi)⟩

lemma lt_size {path : List Nat} (h : Leads perm start path) : ∀ i ∈ path, i < perm.size := by
  induction path with
  | nil => simp
  | cons c rest ih =>
    cases rest with
    | nil =>
      have hc : perm[c]? = some start := h
      simpa using (Array.getElem?_eq_some_iff.mp hc).1
    | cons d rest =>
      rw [List.forall_mem_cons]
      exact ⟨(Array.getElem?_eq_some_iff.mp h.1).1, ih h.2⟩

/-- The start, and each position but the first one, comes after a position of the list. -/
lemma exists_before (h : Leads perm start (c :: rest)) :
    ∀ i ∈ start :: rest, ∃ j ∈ c :: rest, perm[j]? = some i := by
  induction rest generalizing c with
  | nil =>
    intro i hi
    obtain rfl := List.mem_singleton.mp hi
    exact ⟨c, by simp, h⟩
  | cons d rest ih =>
    intro i hi
    rcases List.mem_cons.mp hi with rfl | hi
    · obtain ⟨j, hj, hperm⟩ := ih h.2 i (by simp)
      exact ⟨j, by simp [hj], hperm⟩
    · rcases List.mem_cons.mp hi with rfl | hi
      · exact ⟨c, by simp, h.1⟩
      · obtain ⟨j, hj, hperm⟩ := ih h.2 i (by simp [hi])
        exact ⟨j, by simp [hj], hperm⟩

/-- What comes after a position of the list is the start, or comes later in the list. -/
lemma exists_after (h : Leads perm start (c :: rest)) :
    ∀ i ∈ c :: rest, perm[i]? = some start ∨ ∃ j ∈ rest, perm[i]? = some j := by
  induction rest generalizing c with
  | nil =>
    intro i hi
    obtain rfl := List.mem_singleton.mp hi
    exact .inl h
  | cons d rest ih =>
    intro i hi
    rcases List.mem_cons.mp hi with rfl | hi
    · exact .inr ⟨d, by simp, h.1⟩
    · rcases ih h.2 i hi with hstart | ⟨j, hj, hperm⟩
      · exact .inl hstart
      · exact .inr ⟨j, by simp [hj], hperm⟩

end Leads

lemma getElem?_swapIfInBounds {i j : Nat} (hi : i < items.size) (hj : j < items.size) (k : Nat) :
    (items.swapIfInBounds i j)[k]? =
      if k = i then items[j]? else if k = j then items[i]? else items[k]? := by
  grind

/-! ### Closing a cycle -/

/-- What the positions hold once a way to the start is closed: each the item of the next one, and
the last one the item that was at the first. -/
lemma exists_closeCycle?_of_leads {steps : Nat} (h : Leads perm start (c :: rest))
    (hnodup : (c :: rest).Nodup) (hstart : start ∉ rest) (hsteps : rest.length < steps)
    (hlt : ∀ i ∈ c :: rest, i < items.size) :
    ∃ items' perm', closeCycle? start steps c (items, perm) = some (items', perm') ∧
      items'.size = items.size ∧ perm'.size = perm.size ∧
      (∀ i, perm'[i]? = if i ∈ c :: rest then some i else perm[i]?) ∧
      ∀ i, items'[i]? = if i ∈ c :: rest then
        (if perm[i]? = some start then items[c]? else due items perm i) else items[i]? := by
  induction rest generalizing c items perm steps with
  | nil =>
    obtain ⟨steps, rfl⟩ := Nat.exists_eq_add_of_lt hsteps
    have hc : perm[c]? = some start := h
    have hsize := (Array.getElem?_eq_some_iff.mp hc).1
    refine ⟨items, perm.setIfInBounds c c, ?_, rfl, by simp, fun i => ?_, fun i => ?_⟩
    · simp [closeCycle?, hc]
    · grind
    · grind
  | cons d rest ih =>
    obtain ⟨steps, rfl⟩ : ∃ n, steps = n + 1 := ⟨steps - 1, by omega⟩
    obtain ⟨hc, hleads⟩ := h
    obtain ⟨hcrest, hnodup⟩ := List.nodup_cons.mp hnodup
    have hne : d ≠ start := fun heq => hstart (heq ▸ List.mem_cons_self)
    have hcsize := hlt c (by simp)
    have hdsize := hlt d (by simp)
    have hsame : ∀ i ∈ d :: rest, (perm.setIfInBounds c c)[i]? = perm[i]? := by
      intro i hi
      refine Array.getElem?_setIfInBounds_ne ?_
      rintro rfl
      exact hcrest hi
    obtain ⟨items', perm', hclose, hsize, hpsize, hperm, hitems⟩ :=
      @ih (items.swapIfInBounds c d) (perm.setIfInBounds c c) d steps (hleads.congr hsame) hnodup
        (fun hmem => hstart (List.mem_cons_of_mem d hmem)) (by simpa using hsteps)
        (fun i hi => by simpa using hlt i (List.mem_cons_of_mem c hi))
    refine ⟨items', perm', ?_, by simpa using hsize, by simpa using hpsize, fun i => ?_,
      fun i => ?_⟩
    · simp [closeCycle?, hc, hne, hcsize, hdsize, hclose]
    · rw [hperm i]
      grind
    · rw [hitems i]
      by_cases hi : i ∈ d :: rest
      · rw [if_pos hi, if_pos (List.mem_cons_of_mem c hi), hsame i hi]
        rcases hleads.exists_after i hi with hlast | ⟨j, hj, hnext⟩
        · rw [if_pos hlast, if_pos hlast, getElem?_swapIfInBounds hcsize hdsize]
          grind
        · rw [hnext, if_neg (by grind), if_neg (by grind), due_eq_of_getElem? hnext,
            due_eq_of_getElem? ((hsame i hi).trans hnext), getElem?_swapIfInBounds hcsize hdsize]
          grind
      · rw [if_neg hi, getElem?_swapIfInBounds hcsize hdsize]
        by_cases hic : i = c
        · subst hic
          rw [if_pos rfl, if_pos List.mem_cons_self, hc, if_neg (by simpa using hne),
            due_eq_of_getElem? hc]
        · grind

/-! ### Permutations -/

/-- A permutation leads from each position back to it. -/
lemma IsPermutation.exists_leads (h : IsPermutation perm) (hstart : start < perm.size) :
    ∃ rest, Leads perm start (start :: rest) ∧ (start :: rest).Nodup := by
  have hget : ∀ i : Fin perm.size, perm[i.val]? = some perm[i.val] :=
    fun i => Array.getElem?_eq_getElem i.isLt
  let next (i : Fin perm.size) : Fin perm.size := ⟨perm[i.val], h.lt (hget i)⟩
  have hnext : Function.Injective next := by
    intro i j hij
    have hvalue : perm[i.val] = perm[j.val] := congrArg Fin.val hij
    exact Fin.ext (h.inj (hget i) (hvalue ▸ hget j))
  let first : Fin perm.size := ⟨start, hstart⟩
  let position (n : Nat) : Nat := (next^[n] first).val
  have hstep : ∀ n, perm[position n]? = some (position (n + 1)) := by
    intro n
    rw [hget (next^[n] first)]
    exact congrArg (fun i : Fin perm.size => some i.val)
      (Function.iterate_succ_apply' next n first).symm
  obtain ⟨period, hperiod⟩ : ∃ n, Function.minimalPeriod next first = n + 1 :=
    Nat.exists_eq_succ_of_ne_zero
      (Function.minimalPeriod_pos_of_mem_periodicPts (hnext.mem_periodicPts first)).ne'
  have hback : position (period + 1) = start := by
    have hfirst := Function.iterate_minimalPeriod (f := next) (x := first)
    rw [hperiod] at hfirst
    exact congrArg Fin.val hfirst
  -- the positions of one period, from any of them on, lead to the start
  have hleads : ∀ m n, n + m = period →
      Leads perm start ((List.range' n (m + 1)).map position) := by
    intro m
    induction m with
    | zero =>
      intro n hn
      rw [Nat.add_zero] at hn
      subst hn
      exact (hstep n).trans (congrArg some hback)
    | succ m ih =>
      intro n hn
      exact ⟨hstep n, ih (n + 1) (by omega)⟩
  have hnodup : ((List.range' 0 (period + 1)).map position).Nodup := by
    refine List.Nodup.map_on (fun i hi j hj hij => ?_) List.nodup_range'
    have hinj := Function.iterate_injOn_Iio_minimalPeriod (f := next) (x := first)
    rw [hperiod] at hinj
    simp only [List.mem_range'_1] at hi hj
    exact hinj (Set.mem_Iio.mpr (by omega)) (Set.mem_Iio.mpr (by omega)) (Fin.ext hij)
  exact ⟨_, hleads period 0 (Nat.zero_add period), hnodup⟩

/-- **One cycle** of a permutation is closed: its positions are marked, and every position is still
to get the item it was to get before. -/
lemma exists_closeCycle? (h : IsPermutation perm) (hsize : items.size = perm.size)
    (hstart : start < perm.size) :
    ∃ (items' : Array α) (perm' : Array Nat),
      closeCycle? start perm.size start (items, perm) = some (items', perm') ∧
      items'.size = items.size ∧ perm'.size = perm.size ∧ IsPermutation perm' ∧
      perm'[start]? = some start ∧ (∀ i : Nat, perm[i]? = some i → perm'[i]? = some i) ∧
      ∀ i, due items' perm' i = due items perm i := by
  obtain ⟨rest, hleads, hnodup⟩ := h.exists_leads hstart
  have hlt := hleads.lt_size
  have hlength : rest.length < perm.size := by
    have hsub : (start :: rest) ⊆ List.range perm.size :=
      fun i hi => List.mem_range.mpr (hlt i hi)
    simpa [Nat.succ_le_iff] using (hnodup.subperm hsub).length_le
  obtain ⟨items', perm', hclose, hitemsSize, hpermSize, hperm, hitems⟩ :=
    exists_closeCycle?_of_leads hleads hnodup (List.nodup_cons.mp hnodup).1 hlength
      (hsize ▸ hlt)
  -- what leads to a position of the cycle is on the cycle
  have hclosed : ∀ i j, perm[i]? = some j → j ∈ start :: rest → i ∈ start :: rest := by
    intro i j hij hj
    obtain ⟨k, hk, hkj⟩ := hleads.exists_before j hj
    exact h.inj hij hkj ▸ hk
  refine ⟨items', perm', hclose, hitemsSize, hpermSize,
    ⟨fun {i j} hij => ?_, fun {i j k} hi hj => ?_⟩,
    ?_, fun i hi => ?_, fun i => ?_⟩
  · rw [hpermSize]
    rw [hperm i] at hij
    split at hij
    · rename_i hi
      exact Option.some.inj hij ▸ hlt i hi
    · exact h.lt hij
  · rw [hperm i] at hi
    rw [hperm j] at hj
    grind [h.inj]
  · rw [hperm start, if_pos List.mem_cons_self]
  · rw [hperm i]
    split
    · rfl
    · exact hi
  · by_cases hi : i ∈ start :: rest
    · rw [due_eq_of_getElem? ((hperm i).trans (if_pos hi)), hitems i, if_pos hi]
      split
      · rename_i hlast
        rw [due_eq_of_getElem? hlast]
      · rfl
    · have hsame : perm'[i]? = perm[i]? := (hperm i).trans (if_neg hi)
      cases hj : perm[i]? with
      | none => rw [due_eq_none hj, due_eq_none (hsame.trans hj)]
      | some j =>
        rw [due_eq_of_getElem? hj, due_eq_of_getElem? (hsame.trans hj), hitems j,
          if_neg fun hmem => hi (hclosed i j hj hmem)]

/-- The cycles of some positions are closed. -/
lemma exists_closeCycles? (starts : List Nat) (h : IsPermutation perm)
    (hsize : items.size = perm.size) (hstarts : ∀ i ∈ starts, i < perm.size) :
    ∃ (items' : Array α) (perm' : Array Nat),
      closeCycles? starts (items, perm) = some (items', perm') ∧
      (∀ i ∈ starts, perm'[i]? = some i) ∧ (∀ i : Nat, perm[i]? = some i → perm'[i]? = some i) ∧
      ∀ i, due items' perm' i = due items perm i := by
  induction starts generalizing items perm with
  | nil => exact ⟨items, perm, rfl, by simp, fun _ hi => hi, fun _ => rfl⟩
  | cons start starts ih =>
    obtain ⟨items₁, perm₁, hclose, hsize₁, hpsize₁, hperm₁, hmarked₁, hkept₁, hitems₁⟩ :=
      exists_closeCycle? h hsize (hstarts start List.mem_cons_self)
    obtain ⟨items₂, perm₂, hcloses, hmarked₂, hkept₂, hitems₂⟩ :=
      ih hperm₁ (hsize₁.trans (hsize.trans hpsize₁.symm))
        fun i hi => hpsize₁ ▸ hstarts i (List.mem_cons_of_mem start hi)
    refine ⟨items₂, perm₂, ?_, ?_, fun i hi => hkept₂ i (hkept₁ i hi),
      fun i => (hitems₂ i).trans (hitems₁ i)⟩
    · rw [closeCycles?, hclose, Option.bind_some, hcloses]
    · exact List.forall_mem_cons.mpr ⟨hkept₂ start hmarked₁, hmarked₂⟩

/-- **Rearranging** by a permutation puts at each position the item that the permutation names. -/
theorem exists_rearrange? (h : IsPermutation perm) (hsize : items.size = perm.size) :
    ∃ items' : Array α, rearrange? items perm = some items' ∧
      ∀ i < perm.size, items'[i]? = due items perm i := by
  obtain ⟨items', perm', hclose, hmarked, -, hitems⟩ :=
    exists_closeCycles? (List.range perm.size) h hsize fun i hi => List.mem_range.mp hi
  refine ⟨items', by rw [rearrange?, hclose]; rfl, fun i hi => ?_⟩
  rw [← hitems i, due_eq_of_getElem? (hmarked i (List.mem_range.mpr hi))]

/-- The positions of a list in some order are a permutation. -/
lemma isPermutation_of_perm {xs : List α} {sorted : List (α × Nat)} (h : sorted.Perm xs.zipIdx) :
    IsPermutation (sorted.map Prod.snd).toArray where
  lt {k n} hk := by
    rw [List.getElem?_toArray] at hk
    obtain ⟨z, hz, rfl⟩ := List.mem_map.mp (List.mem_of_getElem? hk)
    have hlt := List.snd_lt_of_mem_zipIdx (h.mem_iff.mp hz)
    simpa [h.length_eq] using hlt
  inj {k l n} hk hl := by
    have hnodup : (sorted.map Prod.snd).Nodup := by
      rw [(h.map Prod.snd).nodup_iff, List.zipIdx_map_snd]
      exact List.nodup_range'
    rw [List.getElem?_toArray] at hk hl
    obtain ⟨hlt, -⟩ := List.getElem?_eq_some_iff.mp hk
    exact (List.getElem?_inj hlt hnodup).mp (hk.trans hl.symm)

/-- Rearranging a list puts at each place the item at the position that stands there. -/
lemma exists_rearrange?_toArray {xs : List α} {positions : List Nat}
    (h : IsPermutation positions.toArray) (hlength : positions.length = xs.length) :
    ∃ items', rearrange? xs.toArray positions.toArray = some items' ∧
      items'.toList.map some = positions.map fun j => xs[j]? := by
  have hsame : xs.toArray.size = positions.toArray.size := by simp [hlength]
  obtain ⟨items', hitems, hplaced⟩ := exists_rearrange? h hsame
  have hsize : items'.toList.length = xs.length := (rearrange?_perm hitems).length_eq
  refine ⟨items', hitems, List.ext_getElem (by simpa [hlength] using hsize) fun k hk hk' => ?_⟩
  have hlt : k < positions.length := by simpa using hk'
  have hposition : positions.toArray[k]? = some positions[k] := by simp [hlt]
  have hplace : items'[k]? = xs[positions[k]]? := by
    rw [hplaced k (by simpa using hlt), due_eq_of_getElem? hposition, List.getElem?_toArray]
  rw [List.getElem_map, List.getElem_map, ← hplace,
    Array.getElem?_eq_getElem (by simpa using hk), Array.getElem_toList]

/-- Rearranging by the positions of a list in some order puts it in this order. -/
lemma exists_rearrange?_of_perm {xs : List α} {sorted : List (α × Nat)}
    (h : sorted.Perm xs.zipIdx) :
    ∃ items', rearrange? xs.toArray (sorted.map Prod.snd).toArray = some items' ∧
      items'.toList = sorted.map Prod.fst := by
  have hlength : (sorted.map Prod.snd).length = xs.length := by simpa using h.length_eq
  obtain ⟨items', hitems, hplaced⟩ := exists_rearrange?_toArray (isPermutation_of_perm h) hlength
  refine ⟨items', hitems, List.map_injective_iff.mpr (Option.some_injective α) ?_⟩
  rw [hplaced, List.map_map, List.map_map]
  exact List.map_congr_left fun z hz => List.mk_mem_zipIdx_iff_getElem?.mp (h.mem_iff.mp hz)

end EntityQuery.Permute
