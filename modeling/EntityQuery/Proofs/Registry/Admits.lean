import EntityQuery.Registry.Resolve
import Mathlib.Data.List.Basic
import Mathlib.Tactic.Common

/-!
# Paths that a registry admits

The steps of a resolved path are declared one after the other: each by the entity type that the
steps before it lead to. The main statement is that resolving yields such paths only.
-/

namespace EntityQuery

/-- The property of a name that an entity type declares. -/
def Registry.property? (r : Registry) (entity name : String) : Option PropertyDef :=
  (r.entity? entity).bind fun e => e.property? name

/-- A step repeats a declaration, and its name can be told apart in a path. -/
structure Registry.Declares (r : Registry) (s : PathSegment) (p : PropertyDef) : Prop where
  found : r.property? s.owner s.name = some p
  type : s.type = p.type
  nullable : s.nullable = p.nullable
  named : s.name ≠ ""
  plain : '.' ∉ s.name.toList

/-- The type of an association that is followed with or without an index. -/
def PropertyType.association (indexed : Bool) (target : String) : PropertyType :=
  if indexed then .collection (.entity target) else .entity target

/-- Steps lead from one entity type to another. -/
inductive Registry.Leads (r : Registry) : String → List PathSegment → String → Prop where
  | here {e : String} : Leads r e [] e
  | step {e t u : String} {s : PathSegment} {rest : List PathSegment} {p : PropertyDef}
      (owner : s.owner = e) (declared : r.Declares s p)
      (type : s.type = .association s.indexed t) (onward : Leads r t rest u) :
      Leads r e (s :: rest) u

/-- A path that starts at an entity type and ends with a property of the one it leads to. -/
structure Registry.Admits (r : Registry) (entity : String) (path : PropertyPath) : Prop where
  parents : r.Leads entity path.parents path.leaf.owner
  leaf : ∃ p, r.Declares path.leaf p
  unindexed : path.leaf.indexed = false

/-! ### Texts between dots -/

namespace PathStep

lemma splitDots_ne_nil (cs : List Char) : splitDots cs ≠ [] := by
  cases cs with
  | nil => simp [splitDots]
  | cons c cs =>
    rw [splitDots]
    split
    · simp
    · split <;> simp

lemma splitDots_plain {cs : List Char} (h : '.' ∉ cs) : splitDots cs = [cs] := by
  induction cs with
  | nil => rfl
  | cons c cs ih =>
    rw [List.mem_cons, not_or] at h
    rw [splitDots, if_neg fun hc => h.1 hc.symm, ih h.2]

lemma splitDots_append (cs ds : List Char) :
    splitDots (cs ++ '.' :: ds) = splitDots cs ++ splitDots ds := by
  induction cs with
  | nil => rfl
  | cons c cs ih =>
    rw [List.cons_append, splitDots, splitDots, ih]
    split
    · rfl
    · cases h : splitDots cs with
      | nil => exact absurd h (splitDots_ne_nil cs)
      | cons piece pieces => rfl

end PathStep

namespace Registry

variable {r : Registry} {e t u : String}

/-! ### Following steps -/

lemma Leads.append {hops rest : List PathSegment} (h : r.Leads e hops t)
    (h' : r.Leads t rest u) : r.Leads e (hops ++ rest) u := by
  induction h with
  | here => exact h'
  | step owner declared type _ ih => exact .step owner declared type (ih h')

lemma Leads.plain {hops : List PathSegment} (h : r.Leads e hops t) :
    ∀ s ∈ hops, '.' ∉ s.name.toList := by
  induction h with
  | here => simp
  | step _ declared _ _ ih => simpa using ⟨declared.plain, ih⟩

lemma entity?_name {name : String} {d : EntityDef} (h : r.entity? name = some d) :
    d.name = name := by
  simpa using List.find?_some h

lemma property?_eq {name : String} {d : EntityDef} (h : r.entity? e = some d) :
    r.property? e name = d.property? name := by
  simp [property?, h]

/-- A declaration has the name it is found by, and is one of its entity type's. -/
lemma declared_of_property? {name : String} {p : PropertyDef} (h : r.property? e name = some p) :
    p.name = name ∧ p ∈ ((r.entity? e).map EntityDef.properties).getD [] := by
  obtain ⟨d, hd, hp⟩ := Option.bind_eq_some_iff.mp h
  exact ⟨by simpa using List.find?_some hp, by simpa [hd] using List.mem_of_find?_eq_some hp⟩

/-! ### The names of a text -/

lemma not_mem_of_mem_splitDots {cs piece : List Char} (h : piece ∈ PathStep.splitDots cs) :
    '.' ∉ piece := by
  induction cs generalizing piece with
  | nil => simp_all [PathStep.splitDots]
  | cons c cs ih =>
    rw [PathStep.splitDots] at h
    by_cases hc : c = '.'
    · rw [if_pos hc] at h
      rcases List.mem_cons.mp h with rfl | h
      · simp
      · exact ih h
    · rw [if_neg hc] at h
      revert h ih
      cases PathStep.splitDots cs with
      | nil => simp; grind
      | cons first pieces => simp; grind

lemma mem_of_mem_ofPiece_name {piece : List Char} {c : Char}
    (h : c ∈ (PathStep.ofPiece piece).name.toList) : c ∈ piece := by
  unfold PathStep.ofPiece at h
  split at h
  · rename_i name hname
    rw [← List.reverse_reverse piece, hname]
    simp_all
  · simpa using h

/-- The names of a path have no dots. -/
lemma plain_of_mem_ofPath {path : String} {s : PathStep} (h : s ∈ PathStep.ofPath path) :
    '.' ∉ s.name.toList := by
  obtain ⟨piece, hpiece, rfl⟩ := List.mem_map.mp h
  exact fun hdot => not_mem_of_mem_splitDots hpiece (mem_of_mem_ofPiece_name hdot)

/-! ### Resolving -/

lemma segment_eq_ok {d : EntityDef} {path : String} {step : PathStep} {s : PathSegment}
    {p : PropertyDef} (h : segment d path step = .ok (s, p)) :
    step.name ≠ "" ∧ d.property? step.name = some p ∧
      s = ⟨step.name, d.name, p.type, p.nullable, step.indexed⟩ := by
  unfold segment at h
  split at h
  · cases h
  · rename_i hname
    split at h
    · cases h
    · rename_i p' hp
      cases h
      exact ⟨hname, hp, rfl⟩

lemma declares_of_segment {d : EntityDef} {path : String} {step : PathStep} {s : PathSegment}
    {p : PropertyDef} (hd : r.entity? e = some d) (plain : '.' ∉ step.name.toList)
    (h : segment d path step = .ok (s, p)) :
    s.owner = e ∧ s.indexed = step.indexed ∧ r.Declares s p := by
  obtain ⟨hname, hp, rfl⟩ := segment_eq_ok h
  refine ⟨entity?_name hd, rfl, ?_, rfl, rfl, hname, plain⟩
  simpa [entity?_name hd, property?_eq hd] using hp

lemma type_of_follow {type : PropertyType} {name : String} {indexed : Bool} {target : String}
    (h : type.follow name indexed = .ok target) : type = .association indexed target := by
  unfold PropertyType.follow at h
  split at h
  · cases indexed <;> simp_all [PropertyType.association]
  · cases indexed <;> simp at h
    split at h
    · simp_all [PropertyType.association]
    · cases h
  · cases h

/-- Following steps ends with a property that is not indexed, or goes on through an association. -/
lemma follow_cons {path : String} {d : EntityDef} {step : PathStep} {rest : List PathStep}
    {q : Resolved} (h : r.follow path d (step :: rest) = .ok q) :
    (∃ s p, rest = [] ∧ segment d path step = .ok (s, p) ∧ step.indexed = false ∧
      q = ⟨⟨[], s⟩, p⟩) ∨
    ∃ s p target next q', segment d path step = .ok (s, p) ∧
      p.type.follow step.name step.indexed = .ok target ∧ r.entity? target = some next ∧
      r.follow path next rest = .ok q' ∧
      q = ⟨⟨s :: q'.path.parents, q'.path.leaf⟩, q'.definition⟩ := by
  cases rest with
  | nil =>
    rw [follow] at h
    cases hs : segment d path step with
    | error => simp [hs] at h
    | ok sp =>
      obtain ⟨s, p⟩ := sp
      cases hx : step.indexed with
      | true => simp [hs, hx] at h
      | false =>
        simp only [hs, hx, Bool.false_eq_true, if_false, Except.ok.injEq] at h
        exact .inl ⟨s, p, rfl, rfl, rfl, h.symm⟩
  | cons step' rest =>
    rw [follow] at h
    · cases hs : segment d path step with
      | error => simp [hs] at h
      | ok sp =>
        obtain ⟨s, p⟩ := sp
        simp only [hs] at h
        cases ht : p.type.follow step.name step.indexed with
        | error => simp [ht] at h
        | ok target =>
          simp only [ht] at h
          cases hn : r.entity? target with
          | none => simp [hn] at h
          | some next =>
            simp only [hn] at h
            cases hq : r.follow path next (step' :: rest) with
            | error => simp [hq, Except.map] at h
            | ok q' =>
              simp only [hq, Except.map, Except.ok.injEq] at h
              exact .inr ⟨s, p, target, next, q', rfl, ht, hn, hq, h.symm⟩
    · simp

lemma admits_of_follow {path : String} {d : EntityDef} {steps : List PathStep} {q : Resolved}
    (hd : r.entity? e = some d) (plain : ∀ s ∈ steps, '.' ∉ s.name.toList)
    (h : r.follow path d steps = .ok q) :
    r.Admits e q.path ∧ r.Declares q.path.leaf q.definition := by
  induction steps generalizing d e q with
  | nil => simp [follow] at h
  | cons step rest ih =>
    rcases follow_cons h with
      ⟨s, p, rfl, hs, hx, rfl⟩ | ⟨s, p, target, next, q', hs, ht, hn, hq, rfl⟩
    · obtain ⟨rfl, hi, hdecl⟩ := declares_of_segment hd (plain step (by simp)) hs
      exact ⟨⟨.here, ⟨p, hdecl⟩, hi.trans hx⟩, hdecl⟩
    · obtain ⟨howner, hi, hdecl⟩ := declares_of_segment hd (plain step (by simp)) hs
      obtain ⟨hadm, hleaf⟩ := ih hn (fun s hs => plain s (by simp [hs])) hq
      have htype : s.type = .association s.indexed target := by
        rw [hdecl.type, hi]
        exact type_of_follow ht
      exact ⟨⟨.step howner hdecl htype hadm.parents, hadm.leaf, hadm.unindexed⟩, hleaf⟩

/-- **Soundness of resolving**: a resolved path is admitted, and the definition beside it is the
declaration of its last step. -/
theorem admits_of_resolve {path : String} {q : Resolved} (h : r.resolve e path = .ok q) :
    r.Admits e q.path ∧ r.Declares q.path.leaf q.definition := by
  unfold resolve at h
  split at h
  · cases h
  · rename_i d hd
    exact admits_of_follow hd (fun s hs => plain_of_mem_ofPath hs) h

end Registry

end EntityQuery
