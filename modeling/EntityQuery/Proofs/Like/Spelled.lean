import EntityQuery.Like
import Mathlib.Data.List.Infix
import Mathlib.Tactic.Common

/-!
# Patterns spell texts

Matching follows all ways of reading a pattern at once. Here a pattern is read piece by piece
instead, and the two agree. The patterns that rules make out of escaped text spell that text, and
the texts it occurs in.
-/

namespace EntityQuery

namespace Pattern

/-- Whether a text can be read along some pieces: a run takes any number of characters, the other
pieces take one. -/
def spells (ignoreCase : Bool) : List PatternPiece → List Char → Bool
  | [], text => text.isEmpty
  | .run :: ps, text => (suffixes text).any (spells ignoreCase ps)
  | .one :: _, [] => false
  | .one :: ps, _ :: rest => spells ignoreCase ps rest
  | .literal _ :: _, [] => false
  | .literal c :: ps, d :: rest => sameChar ignoreCase c d && spells ignoreCase ps rest

variable {ignoreCase : Bool}

/-! ### What may remain -/

lemma mem_suffixes {s t : List Char} : t ∈ suffixes s ↔ t <:+ s := by
  induction s with
  | nil => simp [suffixes]
  | cons c s ih => rw [suffixes, List.mem_cons, ih, List.suffix_cons_iff]

/-- Texts of which each is a suffix of those before it. -/
abbrev Nested (texts : List (List Char)) : Prop :=
  texts.Pairwise fun s t => t <:+ s

lemma nested_suffixes (s : List Char) : Nested (suffixes s) := by
  induction s with
  | nil => simp [suffixes]
  | cons c s ih =>
    rw [suffixes, Nested, List.pairwise_cons]
    exact ⟨fun t ht => (mem_suffixes.mp ht).trans (List.suffix_cons c s), ih⟩

/-- Taking a character off nested texts, where that is possible, leaves nested texts. -/
lemma Nested.filterMap {texts : List (List Char)} {f : List Char → Option (List Char)}
    (h : Nested texts) (hf : ∀ s t, f s = some t → s.tail? = some t) :
    Nested (texts.filterMap f) := by
  refine List.Pairwise.filterMap f ?_ h
  intro s t hts s' hs' t' ht'
  have hs := hf s s' hs'
  have ht := hf t t' ht'
  cases s with
  | nil => simp at hs
  | cons c s =>
    cases t with
    | nil => simp at ht
    | cons d t =>
      simp only [List.tail?_cons, Option.some.injEq] at hs ht
      subst hs ht
      rcases List.suffix_cons_iff.mp hts with heq | hsuffix
      · rw [(List.cons.inj heq).2]
      · exact (List.suffix_cons d t).trans hsuffix

lemma Nested.advance {texts : List (List Char)} (h : Nested texts) (piece : PatternPiece) :
    Nested (advance ignoreCase texts piece) := by
  cases piece with
  | run =>
    cases texts with
    | nil => exact .nil
    | cons s texts => exact nested_suffixes s
  | one => exact h.filterMap fun s t hst => hst
  | literal c =>
    refine h.filterMap fun s t hst => ?_
    cases s with
    | nil => simp at hst
    | cons d ds =>
      simp only [Option.ite_none_right_eq_some, Option.some.injEq] at hst
      simp [hst.2]

/-- Advancing over a piece keeps the ways of reading the rest. -/
lemma any_advance {texts : List (List Char)} (h : Nested texts) (piece : PatternPiece)
    (ps : List PatternPiece) :
    (advance ignoreCase texts piece).any (spells ignoreCase ps) =
      texts.any (spells ignoreCase (piece :: ps)) := by
  cases piece with
  | run =>
    cases texts with
    | nil => rfl
    | cons s texts =>
      -- the first text has all the others, and so all their suffixes, among its suffixes
      rw [Bool.eq_iff_iff, List.any_eq_true, List.any_eq_true]
      constructor
      · rintro ⟨t, ht, hspells⟩
        exact ⟨s, by simp, List.any_eq_true.mpr ⟨t, ht, hspells⟩⟩
      · rintro ⟨s', hs', hspells⟩
        obtain ⟨t, ht, hspells⟩ := List.any_eq_true.mp hspells
        refine ⟨t, mem_suffixes.mpr ((mem_suffixes.mp ht).trans ?_), hspells⟩
        rcases List.mem_cons.mp hs' with rfl | hs'
        · exact List.suffix_refl _
        · exact (List.pairwise_cons.mp h).1 s' hs'
  | one =>
    rw [Pattern.advance, List.any_filterMap]
    exact congrArg (List.any texts) (funext fun s => by cases s <;> rfl)
  | literal c =>
    rw [Pattern.advance, List.any_filterMap]
    refine congrArg (List.any texts) (funext fun s => ?_)
    cases s with
    | nil => rfl
    | cons d ds => cases hs : sameChar ignoreCase c d <;> simp [spells, hs]

/-- **Matching is reading**: following all ways at once finds one exactly if the text can be read
along the pieces. -/
theorem describes_eq_spells (ps : List PatternPiece) (text : List Char) :
    describes ignoreCase ps text = spells ignoreCase ps text := by
  have hfold : ∀ texts, Nested texts →
      (ps.foldl (advance ignoreCase) texts).any List.isEmpty =
        texts.any (spells ignoreCase ps) := by
    induction ps with
    | nil => exact fun texts _ => rfl
    | cons piece ps ih =>
      intro texts h
      rw [List.foldl_cons, ih _ (h.advance piece), any_advance h]
  rw [describes, hfold [text] (List.pairwise_singleton _ _), List.any_cons, List.any_nil,
    Bool.or_false]

/-! ### Escaped text -/

/-- A text with the case of ASCII letters disregarded, if so wanted. -/
def folded (ignoreCase : Bool) (cs : List Char) : List Char :=
  if ignoreCase then cs.map Char.toLower else cs

lemma sameChar_iff (c d : Char) :
    sameChar ignoreCase c d = true ↔ folded ignoreCase [c] = folded ignoreCase [d] := by
  cases ignoreCase <;> simp [sameChar, folded]

lemma folded_cons (c : Char) (cs : List Char) :
    folded ignoreCase (c :: cs) = folded ignoreCase [c] ++ folded ignoreCase cs := by
  cases ignoreCase <;> rfl

lemma folded_append (cs ds : List Char) :
    folded ignoreCase (cs ++ ds) = folded ignoreCase cs ++ folded ignoreCase ds := by
  cases ignoreCase <;> simp [folded]

lemma length_folded (cs : List Char) : (folded ignoreCase cs).length = cs.length := by
  cases ignoreCase <;> simp [folded]

/-- Escaped text is read as its characters. -/
lemma pieces?_escapePattern_append (cs rest : List Char) :
    pieces? (escapePattern cs ++ rest) = (pieces? rest).map (cs.map .literal ++ ·) := by
  induction cs with
  | nil => simp [escapePattern]
  | cons c cs ih =>
    rw [escapePattern]
    split
    · rw [List.cons_append, List.cons_append, pieces?, ih, Option.map_map]
      rfl
    · rename_i hc
      simp only [not_or] at hc
      rw [List.cons_append, pieces?, ih, Option.map_map]
      · rfl
      · exact fun h _ => hc.1 h
      · exact fun d ds h _ => hc.1 h
      · exact fun h => hc.2.1 h
      · exact fun h => hc.2.2 h

lemma spells_literals_append (cs : List Char) (ps : List PatternPiece) (text : List Char) :
    spells ignoreCase (cs.map .literal ++ ps) text = true ↔
      ∃ front back, text = front ++ back ∧ folded ignoreCase front = folded ignoreCase cs ∧
        spells ignoreCase ps back = true := by
  induction cs generalizing text with
  | nil =>
    have hnil : ∀ front : List Char,
        folded ignoreCase front = folded ignoreCase [] ↔ front = [] := by
      intro front
      cases ignoreCase <;> simp [folded]
    simp [hnil]
  | cons c cs ih =>
    cases text with
    | nil =>
      simp only [List.map_cons, List.cons_append, spells, Bool.false_eq_true, false_iff]
      rintro ⟨front, back, htext, hfold, -⟩
      have hlen := congrArg List.length hfold
      obtain ⟨rfl, -⟩ := List.append_eq_nil_iff.mp htext.symm
      simp [length_folded] at hlen
    | cons d rest =>
      rw [List.map_cons, List.cons_append, spells, Bool.and_eq_true, sameChar_iff, ih]
      constructor
      · rintro ⟨hcd, front, back, rfl, hfold, hback⟩
        refine ⟨d :: front, back, rfl, ?_, hback⟩
        rw [folded_cons, folded_cons c, hcd, hfold]
      · rintro ⟨front, back, htext, hfold, hback⟩
        cases front with
        | nil =>
          have hlen := congrArg List.length hfold
          simp [length_folded] at hlen
        | cons e front =>
          obtain ⟨rfl, rfl⟩ := List.cons.inj htext
          rw [folded_cons, folded_cons c] at hfold
          obtain ⟨h1, h2⟩ := List.append_inj hfold (by simp [length_folded])
          exact ⟨h1.symm, front, back, rfl, h2, hback⟩

/-- Escaped text spells itself. -/
theorem spells_literals (cs text : List Char) :
    spells ignoreCase (cs.map .literal) text =
      decide (folded ignoreCase text = folded ignoreCase cs) := by
  rw [Bool.eq_iff_iff, decide_eq_true_iff, ← List.append_nil (cs.map _), spells_literals_append]
  constructor
  · rintro ⟨front, back, rfl, hfold, hback⟩
    rw [spells, List.isEmpty_iff] at hback
    rw [hback, List.append_nil, hfold]
  · exact fun h => ⟨text, [], (List.append_nil text).symm, h, rfl⟩

lemma spells_run (text : List Char) : spells ignoreCase [.run] text = true := by
  rw [spells, List.any_eq_true]
  exact ⟨[], mem_suffixes.mpr (List.nil_suffix), rfl⟩

lemma folded_infix_iff (cs text : List Char) :
    folded ignoreCase cs <:+: folded ignoreCase text ↔
      ∃ before front back, text = before ++ (front ++ back) ∧
        folded ignoreCase front = folded ignoreCase cs := by
  constructor
  · rintro ⟨a, b, h⟩
    cases ignoreCase with
    | false => exact ⟨a, cs, b, by simpa [folded, eq_comm] using h, rfl⟩
    | true =>
      simp only [folded, if_true, List.append_assoc] at h
      obtain ⟨before, rest, rfl, -, hrest⟩ := List.map_eq_append_iff.mp h.symm
      obtain ⟨front, back, rfl, hfront, -⟩ := List.map_eq_append_iff.mp hrest
      exact ⟨before, front, back, rfl, hfront⟩
  · rintro ⟨before, front, back, rfl, h⟩
    refine ⟨folded ignoreCase before, folded ignoreCase back, ?_⟩
    rw [folded_append, folded_append, h, List.append_assoc]

/-- Escaped text between two runs spells the texts it occurs in. -/
theorem spells_between_runs (cs text : List Char) :
    spells ignoreCase (.run :: (cs.map .literal ++ [.run])) text =
      decide (folded ignoreCase cs <:+: folded ignoreCase text) := by
  rw [Bool.eq_iff_iff, decide_eq_true_iff, spells, List.any_eq_true, folded_infix_iff]
  constructor
  · rintro ⟨rest, hrest, hspells⟩
    obtain ⟨before, rfl⟩ := mem_suffixes.mp hrest
    obtain ⟨front, back, rfl, hfold, -⟩ := (spells_literals_append cs _ rest).mp hspells
    exact ⟨before, front, back, rfl, hfold⟩
  · rintro ⟨before, front, back, rfl, hfold⟩
    exact ⟨front ++ back, mem_suffixes.mpr ⟨before, rfl⟩,
      (spells_literals_append cs _ _).mpr ⟨front, back, rfl, hfold, spells_run back⟩⟩

/-! ### Folded letters -/

/-- A piece of a pattern whose letters are folded. -/
def foldPiece (ignoreCase : Bool) : PatternPiece → PatternPiece
  | .literal c => .literal (if ignoreCase then c.toLower else c)
  | p => p

lemma toLower_eq_iff {c d : Char} (hupper : d.isUpper = false) (hlower : d.isLower = false) :
    c.toLower = d ↔ c = d := by
  cases hc : c.isUpper with
  | false =>
    have hsame : c.toLower = c := dif_neg (of_decide_eq_false hc)
    rw [hsame]
  | true =>
    have hrange : 'A'.val ≤ c.val ∧ c.val ≤ 'Z'.val := of_decide_eq_true hc
    have hval : c.toLower.val = c.val + 32 := congrArg Char.val (dif_pos hrange)
    have hlow : 'a'.val ≤ c.toLower.val ∧ c.toLower.val ≤ 'z'.val := by
      simp only [hval, UInt32.le_iff_toNat_le, UInt32.toNat_add] at hrange ⊢
      simp at hrange ⊢
      omega
    have hislower : c.toLower.isLower = true :=
      Bool.and_eq_true_iff.mpr ⟨decide_eq_true hlow.1, decide_eq_true hlow.2⟩
    constructor
    · rintro rfl
      rw [hislower] at hlower
      cases hlower
    · rintro rfl
      rw [hc] at hupper
      cases hupper

lemma pieces?_folded (cs : List Char) :
    pieces? (folded ignoreCase cs) = (pieces? cs).map (List.map (foldPiece ignoreCase)) := by
  cases ignoreCase with
  | false =>
    have hid : foldPiece false = id := by
      funext p
      cases p <;> rfl
    simp [folded, hid]
  | true =>
    have hcons : ∀ c cs, folded true (c :: cs) = c.toLower :: folded true cs := fun _ _ => rfl
    have hsigns : '\\'.toLower = '\\' ∧ '%'.toLower = '%' ∧ '_'.toLower = '_' := by decide
    fun_induction pieces? cs with
    | case1 => rfl
    | case2 => rfl
    | case3 c cs ih =>
      rw [hcons, hcons, hsigns.1, pieces?, ih, Option.map_map, Option.map_map]
      rfl
    | case4 cs ih =>
      rw [hcons, hsigns.2.1, pieces?, ih, Option.map_map, Option.map_map]
      rfl
    | case5 cs ih =>
      rw [hcons, hsigns.2.2, pieces?, ih, Option.map_map, Option.map_map]
      rfl
    | case6 c cs hdangling hescape hrun hone ih =>
      -- folding makes no sign of a pattern out of any other character
      have hc : c.toLower ≠ '\\' := by
        rw [ne_eq, toLower_eq_iff rfl rfl]
        intro hc
        cases cs with
        | nil => exact hdangling hc rfl
        | cons d ds => exact hescape d ds hc rfl
      have hpercent : c.toLower ≠ '%' := by
        rw [ne_eq, toLower_eq_iff rfl rfl]
        exact hrun
      have hunderscore : c.toLower ≠ '_' := by
        rw [ne_eq, toLower_eq_iff rfl rfl]
        exact hone
      rw [hcons, pieces?, ih, Option.map_map, Option.map_map]
      · rfl
      · exact fun h _ => hc h
      · exact fun d ds h _ => hc h
      · exact hpercent
      · exact hunderscore

lemma sameChar_folded (c d : Char) :
    sameChar false (if ignoreCase then c.toLower else c) (if ignoreCase then d.toLower else d) =
      sameChar ignoreCase c d := by
  cases ignoreCase <;> rfl

lemma suffixes_folded (text : List Char) :
    suffixes (folded ignoreCase text) = (suffixes text).map (folded ignoreCase) := by
  induction text with
  | nil => cases ignoreCase <;> rfl
  | cons c cs ih =>
    have hcons : folded ignoreCase (c :: cs) =
        (if ignoreCase then c.toLower else c) :: folded ignoreCase cs := by
      cases ignoreCase <;> rfl
    rw [suffixes, List.map_cons, ← ih, hcons, suffixes]

/-- Folding the letters of pattern and text disregards their case. -/
lemma spells_folded (ps : List PatternPiece) (text : List Char) :
    spells false (ps.map (foldPiece ignoreCase)) (folded ignoreCase text) =
      spells ignoreCase ps text := by
  have hnil : folded ignoreCase [] = [] := by cases ignoreCase <;> rfl
  have hcons : ∀ c cs, folded ignoreCase (c :: cs) =
      (if ignoreCase then c.toLower else c) :: folded ignoreCase cs := by
    intro c cs
    cases ignoreCase <;> rfl
  induction ps generalizing text with
  | nil => cases text <;> simp [hnil, hcons, spells]
  | cons p ps ih =>
    cases p with
    | run =>
      rw [List.map_cons, foldPiece, spells, suffixes_folded, List.any_map]
      · exact congrArg (List.any _) (funext ih)
      · exact fun c h => nomatch h
    | one =>
      cases text with
      | nil => rw [hnil]; rfl
      | cons d rest => rw [hcons]; exact ih rest
    | literal c =>
      cases text with
      | nil => rw [hnil]; rfl
      | cons d rest =>
        rw [hcons, List.map_cons, foldPiece, spells, sameChar_folded, ih, spells]

end Pattern

/-- Whether a text can be read along a pattern. -/
def patternSpells (ignoreCase : Bool) (pattern text : String) : Bool :=
  (Pattern.pieces? pattern.toList).any fun ps => Pattern.spells ignoreCase ps text.toList

/-- Equality of texts, up to the case of ASCII letters if so wanted. -/
def sameText (ignoreCase : Bool) (s t : String) : Bool :=
  Pattern.folded ignoreCase t.toList = Pattern.folded ignoreCase s.toList

/-- Whether a text occurs in another, up to the case of ASCII letters if so wanted. -/
def occursIn (ignoreCase : Bool) (s t : String) : Bool :=
  Pattern.folded ignoreCase s.toList <:+: Pattern.folded ignoreCase t.toList

/-- An escaped text is a pattern for the text. -/
theorem patternSpells_escapeLike (ignoreCase : Bool) (s t : String) :
    patternSpells ignoreCase (escapeLike s) t = sameText ignoreCase s t := by
  have h := Pattern.pieces?_escapePattern_append s.toList []
  rw [List.append_nil] at h
  rw [patternSpells, escapeLike, String.toList_ofList, h]
  simpa [Pattern.pieces?, sameText] using Pattern.spells_literals s.toList t.toList

lemma sameText_false (s t : String) : sameText false s t = (t == s) := by
  rw [Bool.eq_iff_iff]
  simp [sameText, Pattern.folded, String.toList_inj]

end EntityQuery
