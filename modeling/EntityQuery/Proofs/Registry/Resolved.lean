import EntityQuery.Proofs.Registry.Legible

/-!
# What a path resolves to

A text is split at its dots into steps, and the steps are read one after the other: each is a
property of the entity type that the steps before it lead to. The main statement is that this
reading and resolving are the same, and that a resolved path is written as the text it comes from.
-/

namespace EntityQuery

/-- The steps that a path consists of: their texts stand between its dots, and a text with brackets
at its end is that of an indexed step. -/
structure PathStep.Split (path : String) (steps : List PathStep) : Prop where
  nonempty : steps ≠ []
  joined : ".".intercalate (steps.map PathStep.text) = path
  undotted : ∀ s ∈ steps, '.' ∉ s.name.toList
  unbracketed : ∀ s ∈ steps, s.indexed = false → ¬ ['[', ']'] <:+ s.name.toList

/-- What steps are read as from an entity type: every name is a property of the entity type reached
so far, every step but the last follows an association, and the last one is not indexed. -/
inductive Registry.Reads (r : Registry) : String → List PathStep → Resolved → Prop where
  | last {e name : String} {p : PropertyDef} (named : name ≠ "")
      (declared : r.property? e name = some p) :
      Reads r e [⟨name, false⟩] ⟨⟨[], ⟨name, e, p.type, p.nullable, false⟩⟩, p⟩
  | onward {e name target : String} {indexed : Bool} {p : PropertyDef} {rest : List PathStep}
      {q : Resolved} (named : name ≠ "") (declared : r.property? e name = some p)
      (type : p.type = .association indexed target) (onward : Reads r target rest q) :
      Reads r e (⟨name, indexed⟩ :: rest)
        ⟨⟨⟨name, e, p.type, p.nullable, indexed⟩ :: q.path.parents, q.path.leaf⟩, q.definition⟩

/-! ### Splitting a text -/

namespace PathStep

lemma intercalate_splitDots (cs : List Char) : ['.'].intercalate (splitDots cs) = cs := by
  induction cs with
  | nil => rfl
  | cons c cs ih =>
    obtain ⟨piece, pieces, hp⟩ := List.exists_cons_of_ne_nil (splitDots_ne_nil cs)
    rw [hp] at ih
    rw [splitDots, hp]
    split
    · rename_i hc
      rw [List.intercalate_cons_cons, ih, hc]
      rfl
    · cases pieces with
      | nil => simpa using ih
      | cons piece' pieces => simpa [List.intercalate_cons_cons] using ih

lemma splitDots_intercalate {pieces : List (List Char)} (hne : pieces ≠ [])
    (plain : ∀ piece ∈ pieces, '.' ∉ piece) : splitDots (['.'].intercalate pieces) = pieces := by
  induction pieces with
  | nil => exact absurd rfl hne
  | cons piece pieces ih =>
    have hpiece := splitDots_plain (plain piece (by simp))
    cases pieces with
    | nil => simpa using hpiece
    | cons piece' pieces =>
      have hrest := ih (by simp) fun q hq => plain q (List.mem_cons_of_mem _ hq)
      rw [List.intercalate_cons_cons, List.append_assoc, List.singleton_append, splitDots_append,
        hpiece, hrest]
      rfl

/-- A piece that is read as a plain name has no brackets at its end. -/
lemma not_suffix_of_ofPiece {piece : List Char} (h : (ofPiece piece).indexed = false) :
    ¬ ['[', ']'] <:+ (ofPiece piece).name.toList := by
  unfold ofPiece at h ⊢
  split at h
  · cases h
  · rename_i hplain
    rintro ⟨front, hfront⟩
    rw [String.toList_ofList] at hfront
    exact hplain front.reverse (by rw [← hfront]; simp)

lemma ofPiece_text {s : PathStep} (h : s.indexed = false → ¬ ['[', ']'] <:+ s.name.toList) :
    ofPiece s.text.toList = s := by
  obtain ⟨name, indexed⟩ := s
  cases indexed with
  | true => simp [ofPiece, text]
  | false =>
    unfold ofPiece
    split
    · rename_i chars hchars
      refine absurd ⟨chars.reverse, ?_⟩ (h rfl)
      have := congrArg List.reverse hchars
      simpa [text] using this.symm
    · simp [text]

/-- The steps read from a path are the ones it is split into. -/
theorem ofPath_eq_iff {path : String} {steps : List PathStep} :
    ofPath path = steps ↔ Split path steps := by
  constructor
  · rintro rfl
    refine ⟨by simpa [ofPath] using splitDots_ne_nil _, ?_,
      fun s hs => Registry.plain_of_mem_ofPath hs, fun s hs hplain => ?_⟩
    · have htexts : ((ofPath path).map text).map String.toList = splitDots path.toList := by
        simp [ofPath, Function.comp_def, text_ofPiece]
      apply String.toList_injective
      rw [String.toList_intercalate, htexts]
      exact intercalate_splitDots _
    · obtain ⟨piece, -, rfl⟩ := List.mem_map.mp hs
      exact not_suffix_of_ofPiece hplain
  · rintro ⟨hne, rfl, hdots, hbrackets⟩
    have hsplit : splitDots (".".intercalate (steps.map text)).toList =
        steps.map fun s => s.text.toList := by
      rw [String.toList_intercalate, List.map_map]
      refine splitDots_intercalate (by simpa using hne) fun piece hpiece => ?_
      obtain ⟨s, hs, rfl⟩ := List.mem_map.mp hpiece
      exact not_mem_text (hdots s hs)
    rw [ofPath, hsplit, List.map_map]
    exact (List.map_congr_left fun s hs => ofPiece_text (hbrackets s hs)).trans (List.map_id' _)

end PathStep

namespace Registry

variable {r : Registry} {e : String}

/-! ### Reading the steps -/

/-- Only an entity type that exists can be read from. -/
lemma Reads.exists_entity {steps : List PathStep} {q : Resolved} (h : r.Reads e steps q) :
    ∃ d, r.entity? e = some d := by
  have hdeclared : ∃ name p, r.property? e name = some p := by
    cases h with
    | last named declared => exact ⟨_, _, declared⟩
    | onward named declared type onward => exact ⟨_, _, declared⟩
  obtain ⟨name, p, hp⟩ := hdeclared
  obtain ⟨d, hd, -⟩ := Option.bind_eq_some_iff.mp hp
  exact ⟨d, hd⟩

lemma Reads.ne_nil {steps : List PathStep} {q : Resolved} (h : r.Reads e steps q) :
    steps ≠ [] := by
  cases h <;> simp

lemma segment_of_property? {d : EntityDef} {path name : String} {indexed : Bool} {p : PropertyDef}
    (hd : r.entity? e = some d) (named : name ≠ "") (declared : r.property? e name = some p) :
    segment d path ⟨name, indexed⟩ = .ok (⟨name, e, p.type, p.nullable, indexed⟩, p) := by
  rw [property?_eq hd] at declared
  simp [segment, named, declared, entity?_name hd]

/-- Following steps succeeds with what they are read as, and with nothing else. -/
theorem follow_eq_ok_iff {path : String} {d : EntityDef} {steps : List PathStep} {q : Resolved}
    (hd : r.entity? e = some d) : r.follow path d steps = .ok q ↔ r.Reads e steps q := by
  constructor
  · intro h
    induction steps generalizing d e q with
    | nil => simp [follow] at h
    | cons step rest ih =>
      obtain ⟨name, indexed⟩ := step
      rcases follow_cons h with
        ⟨s, p, rfl, hs, rfl, rfl⟩ | ⟨s, p, target, next, q', hs, ht, hn, hq, rfl⟩
      all_goals
        obtain ⟨hname, hp, rfl⟩ := segment_eq_ok hs
        rw [← property?_eq hd] at hp
        rw [entity?_name hd]
      · exact .last hname hp
      · exact .onward hname hp (type_of_follow ht) (ih hn hq)
  · intro h
    induction h generalizing d with
    | last named declared => simp [follow, segment_of_property? hd named declared]
    | @onward e name target indexed p rest q named declared type onward ih =>
      obtain ⟨next, hn⟩ := onward.exists_entity
      have htarget : p.type.follow name indexed = .ok target := by
        rw [type]
        exact follow_association indexed name target
      rw [follow]
      · simp only [segment_of_property? hd named declared, htarget, hn, ih hn, Except.map]
      · simpa using onward.ne_nil

/-- What steps are read as is written as their texts, with dots between them. -/
lemma Reads.text_eq {steps : List PathStep} {q : Resolved} (h : r.Reads e steps q) :
    q.path.text = ".".intercalate (steps.map PathStep.text) := by
  induction h with
  | last => rfl
  | onward named declared type onward ih =>
    rw [List.map_cons, String.intercalate_cons_of_ne_nil (by simpa using onward.ne_nil), ← ih]
    rfl

/-- **Resolving is sound, complete and canonical**: a path resolves to what the steps that it is
split into are read as, and to nothing else; and the path it resolves to is written as it is, so
that the written path resolves to the same. -/
theorem resolve_eq_ok_iff (r : Registry) (e path : String) (q : Resolved) :
    (r.resolve e path = .ok q ↔ ∃ steps, PathStep.Split path steps ∧ r.Reads e steps q) ∧
    (r.resolve e path = .ok q → q.path.text = path ∧ r.resolve e q.path.text = .ok q) := by
  have hread : r.resolve e path = .ok q ↔
      ∃ steps, PathStep.Split path steps ∧ r.Reads e steps q := by
    simp only [← PathStep.ofPath_eq_iff, exists_eq_left']
    cases hd : r.entity? e with
    | none =>
      have hnone : ¬ r.Reads e (PathStep.ofPath path) q := fun h => by
        obtain ⟨d, hd'⟩ := h.exists_entity
        simp [hd] at hd'
      simpa [resolve, hd] using hnone
    | some d => simpa [resolve, hd] using follow_eq_ok_iff hd
  refine ⟨hread, fun h => ?_⟩
  obtain ⟨steps, hsplit, hreads⟩ := hread.mp h
  have htext : q.path.text = path := by rw [hreads.text_eq, hsplit.joined]
  exact ⟨htext, by rw [htext, h]⟩

end Registry

namespace Library

/-- Shelves hold books, and books have authors. -/
def registry : Registry :=
  ⟨[⟨"Shelf", "id", [⟨"id", .int, false, none⟩,
      ⟨"books", .collection (.entity "Book"), true, none⟩]⟩,
    ⟨"Book", "id", [⟨"id", .int, false, none⟩,
      ⟨"authors", .collection (.entity "Author"), true, none⟩]⟩,
    ⟨"Author", "id", [⟨"id", .int, false, none⟩, ⟨"name", .text, true, none⟩]⟩]⟩

/-- The names of the authors of the books on a shelf. -/
def authorNames : Resolved :=
  ⟨⟨[⟨"books", "Shelf", .collection (.entity "Book"), true, true⟩,
      ⟨"authors", "Book", .collection (.entity "Author"), true, true⟩],
    ⟨"name", "Author", .text, true, false⟩⟩, ⟨"name", .text, true, none⟩⟩

end Library

open Library in
/-- Following both collections of a shelf leads to its authors' names, from one written path. -/
theorem resolve_eq_ok_iff_authorNames :
    (∃ steps, PathStep.Split "books[].authors[].name" steps ∧
        registry.Reads "Shelf" steps authorNames) ∧
      authorNames.path.text = "books[].authors[].name" ∧
      registry.resolve "Shelf" authorNames.path.text = .ok authorNames := by
  obtain ⟨hread, htext⟩ :=
    Registry.resolve_eq_ok_iff registry "Shelf" "books[].authors[].name" authorNames
  have hresolve : registry.resolve "Shelf" "books[].authors[].name" = .ok authorNames := by
    decide +kernel
  exact ⟨hread.mp hresolve, htext hresolve⟩

end EntityQuery
