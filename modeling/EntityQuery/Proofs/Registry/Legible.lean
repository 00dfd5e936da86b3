import EntityQuery.Proofs.Registry.Admits

/-!
# Paths that are read as themselves

A path is legible if the text of each step is read as that step. Resolving yields legible paths, and
a legible path that a registry admits is what its own text resolves to.
-/

namespace EntityQuery

/-- The text of a step: brackets mark an indexed one. -/
def PathStep.text (s : PathStep) : String :=
  if s.indexed then s.name ++ "[]" else s.name

/-- The step that a segment was resolved from. -/
def PathSegment.step (s : PathSegment) : PathStep :=
  ⟨s.name, s.indexed⟩

/-- A segment whose text is read as its step. -/
def PathSegment.Legible (s : PathSegment) : Prop :=
  PathStep.ofPiece s.text.toList = s.step

/-- Every segment of the path is legible. -/
def PropertyPath.Legible (p : PropertyPath) : Prop :=
  ∀ s ∈ p.segments, s.Legible

lemma PathStep.text_ofPiece (piece : List Char) : (ofPiece piece).text.toList = piece := by
  unfold ofPiece
  split
  · rename_i chars hchars
    rw [← List.reverse_reverse piece, hchars]
    simp [text]
  · simp [text]

lemma PathStep.not_mem_text {s : PathStep} (h : '.' ∉ s.name.toList) : '.' ∉ s.text.toList := by
  unfold text
  split <;> simp [h]

lemma PathSegment.text_step (s : PathSegment) : s.step.text = s.text :=
  rfl

/-- A segment with the step of a piece of text has that text. -/
lemma PathSegment.legible_of_step {s : PathSegment} {piece : List Char}
    (h : s.step = PathStep.ofPiece piece) : s.Legible := by
  rw [Legible, ← text_step, h, PathStep.text_ofPiece]

namespace Registry

variable {r : Registry} {e u : String}

/-! ### Resolved paths are legible -/

/-- The segments of a resolved path repeat the steps that were followed. -/
lemma steps_of_follow {path : String} {d : EntityDef} {steps : List PathStep} {q : Resolved}
    (h : r.follow path d steps = .ok q) : q.path.segments.map PathSegment.step = steps := by
  induction steps generalizing d q with
  | nil => simp [follow] at h
  | cons step rest ih =>
    rcases follow_cons h with ⟨s, p, rfl, hs, -, rfl⟩ | ⟨s, p, _, next, q', hs, -, -, hq, rfl⟩
    · obtain ⟨-, -, rfl⟩ := segment_eq_ok hs
      rfl
    · obtain ⟨-, -, rfl⟩ := segment_eq_ok hs
      rw [← ih hq]
      rfl

lemma legible_of_resolve {path : String} {q : Resolved} (h : r.resolve e path = .ok q) :
    q.path.Legible := by
  unfold resolve at h
  split at h
  · cases h
  · intro s hs
    have hmem : s.step ∈ PathStep.ofPath path := by
      rw [← steps_of_follow h]
      exact List.mem_map_of_mem hs
    obtain ⟨piece, -, hpiece⟩ := List.mem_map.mp hmem
    exact PathSegment.legible_of_step hpiece.symm

/-! ### Legible paths are resolved -/

lemma plain_text {s : PathSegment} (plain : '.' ∉ s.name.toList) : '.' ∉ s.text.toList := by
  rw [← s.text_step]
  exact PathStep.not_mem_text plain

/-- The text of a legible path has the steps of its segments. -/
lemma ofPath_text {p : PropertyPath} (plain : ∀ s ∈ p.segments, '.' ∉ s.name.toList)
    (unindexed : p.leaf.indexed = false) (legible : p.Legible) :
    PathStep.ofPath p.text = p.segments.map PathSegment.step := by
  obtain ⟨parents, leaf⟩ := p
  have hleaf : leaf.name = leaf.text := by
    rw [PathSegment.text, if_neg (Bool.eq_false_iff.mp unindexed)]
  suffices hsplit : PathStep.splitDots (PropertyPath.text ⟨parents, leaf⟩).toList =
      (parents ++ [leaf]).map fun s => s.text.toList by
    rw [PathStep.ofPath, hsplit, List.map_map]
    exact List.map_congr_left legible
  clear legible
  induction parents with
  | nil =>
    have hdot := plain_text (plain leaf (by simp [PropertyPath.segments]))
    simp [PropertyPath.text, hleaf, PathStep.splitDots_plain hdot]
  | cons s parents ih =>
    have hdot := plain_text (plain s (by simp [PropertyPath.segments]))
    have hrest := ih (fun s' hs' => plain s' (List.mem_cons_of_mem s hs')) unindexed
    have htext : (PropertyPath.text ⟨s :: parents, leaf⟩).toList =
        s.text.toList ++ '.' :: (PropertyPath.text ⟨parents, leaf⟩).toList := by
      simp [PropertyPath.text]
    rw [htext, PathStep.splitDots_append, PathStep.splitDots_plain hdot, hrest]
    rfl

/-- A declared segment is what its step names. -/
lemma segment_of_declares {s : PathSegment} {p : PropertyDef} {d : EntityDef} (path : String)
    (hd : r.entity? s.owner = some d) (h : r.Declares s p) :
    segment d path s.step = .ok (s, p) := by
  have hp : d.property? s.step.name = some p := by
    rw [← property?_eq hd]
    exact h.found
  have hnamed : s.step.name ≠ "" := h.named
  have hs : s = ⟨s.step.name, d.name, p.type, p.nullable, s.step.indexed⟩ := by
    rw [entity?_name hd, ← h.type, ← h.nullable]
    rfl
  rw [segment, if_neg hnamed]
  simp only [hp, ← hs]

lemma follow_association (indexed : Bool) (name target : String) :
    (PropertyType.association indexed target).follow name indexed = .ok target := by
  cases indexed <;> rfl

lemma Declares.exists_entity {s : PathSegment} {p : PropertyDef} (h : r.Declares s p) :
    ∃ d, r.entity? s.owner = some d := by
  obtain ⟨d, hd, -⟩ := Option.bind_eq_some_iff.mp h.found
  exact ⟨d, hd⟩

/-- The steps of a declared path are followed to its end. -/
lemma follow_of_leads {leaf : PathSegment} {definition : PropertyDef} {parents : List PathSegment}
    (path : String) (hleads : r.Leads e parents leaf.owner) (hleaf : r.Declares leaf definition)
    (unindexed : leaf.indexed = false) :
    ∃ d, r.entity? e = some d ∧
      r.follow path d ((parents ++ [leaf]).map PathSegment.step) =
        .ok ⟨⟨parents, leaf⟩, definition⟩ := by
  generalize howner : leaf.owner = owner at hleads
  induction hleads with
  | here =>
    subst howner
    obtain ⟨d, hd⟩ := hleaf.exists_entity
    refine ⟨d, hd, ?_⟩
    have hx : leaf.step.indexed = false := unindexed
    simp [follow, segment_of_declares path hd hleaf, hx]
  | @step e t u s rest p hs declared type _ ih =>
    obtain ⟨next, hnext, hfollow⟩ := ih howner
    subst hs
    obtain ⟨d, hd⟩ := declared.exists_entity
    refine ⟨d, hd, ?_⟩
    have htype : p.type.follow s.step.name s.step.indexed = .ok t := by
      rw [← declared.type, type]
      exact follow_association _ _ _
    rw [List.cons_append, List.map_cons, follow]
    · simp only [segment_of_declares path hd declared, htype, hnext, hfollow, Except.map]
    · simp

/-- **Completeness of resolving**: an admitted path that is legible is what its text resolves to. -/
theorem Admits.resolve_text {p : PropertyPath} (h : r.Admits e p) (legible : p.Legible) :
    ∃ definition, r.resolve e p.text = .ok ⟨p, definition⟩ := by
  obtain ⟨definition, hleaf⟩ := h.leaf
  obtain ⟨d, hd, hfollow⟩ := follow_of_leads p.text h.parents hleaf h.unindexed
  have plain : ∀ s ∈ p.segments, '.' ∉ s.name.toList := by
    intro s hs
    rcases List.mem_append.mp hs with hs | hs
    · exact h.parents.plain s hs
    · obtain rfl := List.mem_singleton.mp hs
      exact hleaf.plain
  refine ⟨definition, ?_⟩
  rw [resolve, hd]
  simp only [ofPath_text plain h.unindexed legible]
  exact hfollow

end Registry

end EntityQuery
