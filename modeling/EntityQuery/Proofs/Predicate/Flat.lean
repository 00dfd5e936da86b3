import EntityQuery.Proofs.Predicate.Truth
import Mathlib.Logic.Relation

/-!
# Flat predicates

A predicate is flat if its junctions have two children at least and none that is a junction of the
same kind. Joining flat predicates yields flat ones. A predicate without empty junctions has exactly
one flat form: in whatever order its junctions are unwrapped and spliced, the result is the same.
-/

namespace EntityQuery.Predicate

variable {C : Type} {good : C → Prop} {j : Junction} {p q : Predicate C} {ps : List (Predicate C)}

/-- Junctions have two children at least, and none that is a junction of the same kind. -/
inductive Flat (good : C → Prop) : Predicate C → Prop where
  | cond {c : C} (h : good c) : Flat good (.cond c)
  | and {ps : List (Predicate C)} (many : 2 ≤ ps.length) (apart : ∀ p ∈ ps, ∀ qs, p ≠ .and qs)
      (all : ∀ p ∈ ps, Flat good p) : Flat good (.and ps)
  | or {ps : List (Predicate C)} (many : 2 ≤ ps.length) (apart : ∀ p ∈ ps, ∀ qs, p ≠ .or qs)
      (all : ∀ p ∈ ps, Flat good p) : Flat good (.or ps)

/-! ### Joining flat predicates -/

lemma joined_of_many (many : 2 ≤ ps.length) :
    joined .and ps = .and ps ∧ joined .or ps = .or ps := by
  match ps, many with
  | _ :: _ :: _, _ => exact ⟨rfl, rfl⟩

lemma ne_nil_of_many (many : 2 ≤ ps.length) : ps ≠ [] := by
  rintro rfl
  cases many

/-- Nothing is to be done for a junction of one flat predicate. -/
lemma join_singleton (h : p.Flat good) : join j [p] = p := by
  rw [join, List.flatMap_singleton]
  cases h with
  | cond => cases j <;> rfl
  | and many => cases j <;> first | exact (joined_of_many many).1 | rfl
  | or many => cases j <;> first | exact (joined_of_many many).2 | rfl

/-- A predicate that is no junction of a kind. -/
def Apart : Junction → Predicate C → Prop
  | .and, p => ∀ qs, p ≠ .and qs
  | .or, p => ∀ qs, p ≠ .or qs

lemma Apart.operandsIn_eq (h : Apart j p) : operandsIn j p = [p] := by
  cases j <;> cases p <;> first | rfl | exact absurd rfl (h _)

lemma join_of_apart (apart : ∀ p ∈ ps, Apart j p) : join j ps = joined j ps := by
  have hitems : ps.flatMap (operandsIn j) = ps.flatMap fun p => [p] :=
    List.flatMap_congr fun p hp => (apart p hp).operandsIn_eq
  rw [join, hitems, List.flatMap_singleton']

/-- What a flat predicate brings into a junction is flat and no junction of the same kind. -/
lemma Flat.operandsIn (h : p.Flat good) :
    operandsIn j p ≠ [] ∧ ∀ q ∈ operandsIn j p, q.Flat good ∧ Apart j q := by
  have hself : ∀ {p : Predicate C}, p.Flat good → Apart j p →
      Predicate.operandsIn j p ≠ [] ∧
        ∀ q ∈ Predicate.operandsIn j p, q.Flat good ∧ Apart j q := by
    intro p flat apart
    rw [apart.operandsIn_eq]
    refine ⟨by simp, fun q hq => ?_⟩
    obtain rfl := List.mem_singleton.mp hq
    exact ⟨flat, apart⟩
  cases h with
  | cond hc => exact hself (.cond hc) (by cases j <;> simp [Apart])
  | @and ps many apart all =>
    cases j with
    | and => exact ⟨ne_nil_of_many many, fun q hq => ⟨all q hq, apart q hq⟩⟩
    | or => exact hself (.and many apart all) (by simp [Apart])
  | @or ps many apart all =>
    cases j with
    | and => exact hself (.or many apart all) (by simp [Apart])
    | or => exact ⟨ne_nil_of_many many, fun q hq => ⟨all q hq, apart q hq⟩⟩

lemma flat_joined (hne : ps ≠ []) (h : ∀ p ∈ ps, p.Flat good ∧ Apart j p) :
    (joined j ps).Flat good := by
  match ps, hne with
  | [p], _ => exact (h p (by simp)).1
  | p :: p' :: ps, _ =>
    have many : 2 ≤ (p :: p' :: ps).length := by simp
    cases j with
    | and => exact .and many (fun q hq => (h q hq).2) fun q hq => (h q hq).1
    | or => exact .or many (fun q hq => (h q hq).2) fun q hq => (h q hq).1

/-- Junctions of flat predicates are flat. -/
lemma flat_join (hne : ps ≠ []) (h : ∀ p ∈ ps, p.Flat good) : (join j ps).Flat good := by
  obtain ⟨p, ps', rfl⟩ := List.exists_cons_of_ne_nil hne
  refine flat_joined ?_ fun q hq => ?_
  · rw [List.flatMap_cons]
    exact List.append_ne_nil_of_left_ne_nil (h p (by simp)).operandsIn.1 _
  · obtain ⟨p', hp', hq⟩ := List.mem_flatMap.mp hq
    exact (h p' hp').operandsIn.2 q hq

/-- A flat predicate is flat with respect to what its conditions are known to be. -/
lemma Flat.imp {good' : C → Prop} (h : p.Flat good)
    (himp : ∀ c ∈ p.conditions, good c → good' c) : p.Flat good' := by
  induction h with
  | cond hc => exact .cond (himp _ (by simp) hc)
  | and many apart _ ih =>
    refine .and many apart fun q hq => ih q hq fun c hc => himp c ?_
    rw [conditions_and]
    exact List.mem_flatMap.mpr ⟨q, hq, hc⟩
  | or many apart _ ih =>
    refine .or many apart fun q hq => ih q hq fun c hc => himp c ?_
    rw [conditions_or]
    exact List.mem_flatMap.mpr ⟨q, hq, hc⟩

/-! ### Simplifying junctions -/

/-- The junction of a kind, with any children. -/
def junction : Junction → List (Predicate C) → Predicate C
  | .and => and
  | .or => or

/-- One junction somewhere in a predicate is simplified. -/
inductive Simplifies : Predicate C → Predicate C → Prop where
  /-- A junction of one child is that child. -/
  | unwrap (j : Junction) (p : Predicate C) : Simplifies (junction j [p]) p
  /-- A junction directly inside one of the same kind leaves its children there. -/
  | splice (j : Junction) (front inner back : List (Predicate C)) :
      Simplifies (junction j (front ++ junction j inner :: back))
        (junction j (front ++ inner ++ back))
  | inside (j : Junction) (front back : List (Predicate C)) {p q : Predicate C}
      (h : Simplifies p q) :
      Simplifies (junction j (front ++ p :: back)) (junction j (front ++ q :: back))

/-- A flat predicate that another one is simplified to. -/
structure FlatForm (p q : Predicate C) : Prop where
  simplified : Relation.ReflTransGen Simplifies p q
  flat : q.Flat fun _ => True

/-- Every junction has a child. -/
inductive Filled : Predicate C → Prop where
  | cond (c : C) : Filled (cond c)
  | junction (j : Junction) {ps : List (Predicate C)} (some : ps ≠ []) (all : ∀ p ∈ ps, Filled p) :
      Filled (junction j ps)

mutual

/-- The predicate with its junctions joined anew, from the innermost ones on. -/
def flattened : Predicate C → Predicate C
  | cond c => cond c
  | and children => allOf (flattenedAll children)
  | or children => anyOf (flattenedAll children)

/-- Flattens every predicate of a list. -/
def flattenedAll : List (Predicate C) → List (Predicate C)
  | [] => []
  | p :: ps => flattened p :: flattenedAll ps

end

/-- Induction over predicates, with both junctions in one case. -/
theorem inductJunction {motive : Predicate C → Prop} (cond : ∀ c, motive (cond c))
    (junction : ∀ j ps, (∀ p ∈ ps, motive p) → motive (junction j ps)) : ∀ p, motive p :=
  induct cond (junction .and) (junction .or)

lemma operandsIn_junction (j : Junction) (ps : List (Predicate C)) :
    operandsIn j (junction j ps) = ps := by
  cases j <;> rfl

lemma conditions_junction (j : Junction) (ps : List (Predicate C)) :
    (junction j ps).conditions = ps.flatMap conditions := by
  cases j <;> simp [junction]

lemma exists_junction_or_apart (j : Junction) (p : Predicate C) :
    (∃ inner, p = junction j inner) ∨ Apart j p := by
  cases j <;> cases p <;> simp [junction, Apart]

lemma flattenedAll_eq_map (ps : List (Predicate C)) : flattenedAll ps = ps.map flattened := by
  induction ps with
  | nil => rfl
  | cons p ps ih => rw [flattenedAll, ih, List.map_cons]

lemma flattened_junction (j : Junction) (ps : List (Predicate C)) :
    (junction j ps).flattened = join j (ps.map flattened) := by
  cases j <;> simp only [junction, flattened, flattenedAll_eq_map, allOf, anyOf]

lemma filled_junction : (junction j ps).Filled ↔ ps ≠ [] ∧ ∀ p ∈ ps, p.Filled := by
  refine ⟨fun h => ?_, fun h => .junction j h.1 h.2⟩
  generalize hq : junction j ps = q at h
  cases h with
  | cond c => cases j <;> cases hq
  | junction j' some all =>
    cases j <;> cases j' <;> cases hq <;> exact ⟨some, all⟩

/-- Flattening neither loses nor moves a condition. -/
lemma conditions_flattened (p : Predicate C) : p.flattened.conditions = p.conditions := by
  induction p using inductJunction with
  | cond c => rw [flattened]
  | junction j ps ih =>
    rw [flattened_junction, conditions_join, conditions_junction, List.flatMap_map]
    exact List.flatMap_congr ih

/-! ### A flat form is reached -/

open Relation

lemma simplified_children {f : Predicate C → Predicate C} (front : List (Predicate C))
    (h : ∀ p ∈ ps, ReflTransGen Simplifies p (f p)) :
    ReflTransGen Simplifies (junction j (front ++ ps)) (junction j (front ++ ps.map f)) := by
  induction ps generalizing front with
  | nil => exact .refl
  | cons p ps ih =>
    have hfirst : ReflTransGen Simplifies (junction j (front ++ p :: ps))
        (junction j (front ++ f p :: ps)) :=
      (h p (by simp)).lift (fun q => junction j (front ++ q :: ps)) fun _ _ => .inside j front ps
    have hrest := ih (front ++ [f p]) fun q hq => h q (by simp [hq])
    rw [List.append_assoc, List.append_assoc] at hrest
    exact hfirst.trans hrest

lemma simplified_spliced (front : List (Predicate C)) :
    ReflTransGen Simplifies (junction j (front ++ ps))
      (junction j (front ++ ps.flatMap (operandsIn j))) := by
  induction ps generalizing front with
  | nil => exact .refl
  | cons p ps ih =>
    rw [List.flatMap_cons, ← List.append_assoc]
    rcases exists_junction_or_apart j p with ⟨inner, rfl⟩ | apart
    · rw [operandsIn_junction]
      exact .head (.splice j front inner ps) (ih (front ++ inner))
    · rw [apart.operandsIn_eq]
      have hrest := ih (front ++ [p])
      rwa [List.append_assoc] at hrest

lemma simplified_joined (j : Junction) (ps : List (Predicate C)) :
    ReflTransGen Simplifies (junction j ps) (joined j ps) := by
  rcases ps with _ | ⟨p, _ | ⟨q, ps⟩⟩
  · cases j <;> exact .refl
  · exact .single (.unwrap j p)
  · cases j <;> exact .refl

/-- A predicate is simplified to what flattening makes of it. -/
lemma simplified_flattened (p : Predicate C) : ReflTransGen Simplifies p p.flattened := by
  induction p using inductJunction with
  | cond c =>
    rw [flattened]
  | junction j ps ih =>
    rw [flattened_junction]
    have hchildren : ReflTransGen Simplifies (junction j ps) (junction j (ps.map flattened)) :=
      simplified_children [] ih
    have hspliced : ReflTransGen Simplifies (junction j (ps.map flattened))
        (junction j ((ps.map flattened).flatMap (operandsIn j))) := simplified_spliced []
    exact (hchildren.trans hspliced).trans (simplified_joined j _)

lemma Filled.flat_flattened (h : p.Filled) : p.flattened.Flat fun _ => True := by
  induction h with
  | cond c =>
    rw [flattened]
    exact .cond trivial
  | junction j some _ ih =>
    rw [flattened_junction]
    refine flat_join (by simpa using some) fun q hq => ?_
    obtain ⟨p, hp, rfl⟩ := List.mem_map.mp hq
    exact ih p hp

/-! ### No other flat form is reached -/

/-- The operands of a junction are what its parts bring into it. -/
lemma operandsIn_join (h : ∀ p ∈ ps, p.Flat good) :
    operandsIn j (join j ps) = ps.flatMap (operandsIn j) := by
  have apart : ∀ q ∈ ps.flatMap (operandsIn j), Apart j q := by
    intro q hq
    obtain ⟨p, hp, hq⟩ := List.mem_flatMap.mp hq
    exact ((h p hp).operandsIn.2 q hq).2
  rw [join]
  generalize ps.flatMap (operandsIn j) = qs at apart
  rcases qs with _ | ⟨q, _ | ⟨q', qs⟩⟩
  · cases j <;> rfl
  · exact (apart q (by simp)).operandsIn_eq
  · cases j <;> rfl

/-- A simplification makes no difference to what flattening yields. -/
lemma Simplifies.flattened_eq (h : Simplifies p q) (filled : p.Filled) :
    q.Filled ∧ p.flattened = q.flattened := by
  induction h with
  | unwrap j p =>
    have hp := (filled_junction.mp filled).2 p (by simp)
    refine ⟨hp, ?_⟩
    rw [flattened_junction]
    exact join_singleton hp.flat_flattened
  | splice j front inner back =>
    obtain ⟨-, all⟩ := filled_junction.mp filled
    obtain ⟨some, hinner⟩ := filled_junction.mp (all (junction j inner) (by simp))
    refine ⟨filled_junction.mpr ⟨by simp [some], fun p hp => ?_⟩, ?_⟩
    · simp only [List.append_assoc, List.mem_append] at hp
      rcases hp with hp | hp | hp
      · exact all p (by simp [hp])
      · exact hinner p hp
      · exact all p (by simp [hp])
    · have hflat : ∀ p ∈ inner.map flattened, p.Flat fun _ => True := by
        intro p hp
        obtain ⟨p', hp', rfl⟩ := List.mem_map.mp hp
        exact (hinner p' hp').flat_flattened
      simp only [flattened_junction, join, List.map_append, List.map_cons, List.flatMap_append,
        List.flatMap_cons]
      rw [← join, operandsIn_join hflat, List.append_assoc]
  | @inside j front back p q _ ih =>
    obtain ⟨-, all⟩ := filled_junction.mp filled
    obtain ⟨hq, heq⟩ := ih (all p (by simp))
    refine ⟨filled_junction.mpr ⟨by simp, fun p' hp' => ?_⟩, ?_⟩
    · rcases List.mem_append.mp hp' with hmem | hmem
      · exact all p' (by simp [hmem])
      · rcases List.mem_cons.mp hmem with rfl | hmem
        · exact hq
        · exact all p' (by simp [hmem])
    · rw [flattened_junction, flattened_junction, List.map_append, List.map_append, List.map_cons,
        List.map_cons, heq]

lemma flattened_eq_of_simplified (h : ReflTransGen Simplifies p q) (filled : p.Filled) :
    q.Filled ∧ p.flattened = q.flattened := by
  induction h with
  | refl => exact ⟨filled, rfl⟩
  | tail _ hstep ih =>
    obtain ⟨hfilled, heq⟩ := hstep.flattened_eq ih.1
    exact ⟨hfilled, ih.2.trans heq⟩

/-- Nothing is to be done for a flat predicate. -/
lemma Flat.flattened_eq (h : p.Flat good) : p.flattened = p := by
  have hmap : ∀ {ps : List (Predicate C)}, (∀ p ∈ ps, p.flattened = p) → ps.map flattened = ps :=
    fun h => (List.map_congr_left h).trans (List.map_id' _)
  induction h with
  | cond => rw [flattened]
  | and many apart _ ih =>
    rw [flattened, flattenedAll_eq_map, hmap ih, allOf, join_of_apart apart,
      (joined_of_many many).1]
  | or many apart _ ih =>
    rw [flattened, flattenedAll_eq_map, hmap ih, anyOf, join_of_apart apart,
      (joined_of_many many).2]

/-- **The flat form** of a predicate without empty junctions is the one that flattening yields. -/
theorem flatForm_iff (filled : p.Filled) : FlatForm p q ↔ q = p.flattened := by
  constructor
  · intro h
    rw [(flattened_eq_of_simplified h.simplified filled).2, h.flat.flattened_eq]
  · rintro rfl
    exact ⟨simplified_flattened p, filled.flat_flattened⟩

end EntityQuery.Predicate
