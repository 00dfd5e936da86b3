import EntityQuery.Like.Regex
import EntityQuery.Proofs.Like.Spelled

/-!
# Patterns split texts

A pattern describes the texts that can be split along it. Every pattern is accepted but those that
end in a backslash without a character to escape, and an accepted one matches exactly the texts that
it describes. So does the regular expression that it is written as, in any library that reads and
finds expressions as documented.
-/

namespace EntityQuery

open Regex

namespace Pattern

/-! ### Split texts -/

/-- Characters that are equal, or equal up to the case of ASCII letters if so wanted. -/
def Same (ignoreCase : Bool) (c d : Char) : Prop :=
  c = d ∨ ignoreCase = true ∧ c.toLower = d.toLower

/-- A text can be split along a pattern: a percent sign takes any run of characters, an underscore
one character, a backslash makes the next character literal, and a literal character takes its
like. -/
inductive Splits (ignoreCase : Bool) : List Char → List Char → Prop where
  | done : Splits ignoreCase [] []
  | run {cs rest : List Char} (front : List Char) (behind : Splits ignoreCase cs rest) :
      Splits ignoreCase ('%' :: cs) (front ++ rest)
  | one {cs rest : List Char} (d : Char) (behind : Splits ignoreCase cs rest) :
      Splits ignoreCase ('_' :: cs) (d :: rest)
  | escaped {c d : Char} {cs rest : List Char} (same : Same ignoreCase c d)
      (behind : Splits ignoreCase cs rest) : Splits ignoreCase ('\\' :: c :: cs) (d :: rest)
  | literal {c d : Char} {cs rest : List Char} (percent : c ≠ '%') (underscore : c ≠ '_')
      (backslash : c ≠ '\\') (same : Same ignoreCase c d) (behind : Splits ignoreCase cs rest) :
      Splits ignoreCase (c :: cs) (d :: rest)

/-- The number of backslashes that a pattern ends in. -/
def trailing (cs : List Char) : Nat :=
  (cs.reverse.takeWhile (· == '\\')).length

/-- Backslashes pair with what follows them from the left on, so the last character of a pattern is
a backslash that escapes nothing if it ends in an odd number of them. -/
def Dangling (cs : List Char) : Prop :=
  trailing cs % 2 = 1

instance (cs : List Char) : Decidable (Dangling cs) :=
  inferInstanceAs (Decidable (_ = _))

variable {ignoreCase : Bool} {c d : Char} {cs text : List Char} {ps : List PatternPiece}

lemma sameChar_eq_true_iff : sameChar ignoreCase c d = true ↔ Same ignoreCase c d := by
  cases ignoreCase
  · simp [sameChar, Same]
  · rw [sameChar, if_pos rfl, beq_iff_eq, Same]
    exact ⟨fun h => .inr ⟨rfl, h⟩, fun h => h.elim (congrArg Char.toLower) And.right⟩

/-! ### Accepted patterns -/

lemma trailing_le_length (cs : List Char) : trailing cs ≤ cs.length := by
  have hlength : cs.reverse.length = cs.length := List.length_reverse
  rw [trailing, ← hlength]
  exact (List.takeWhile_prefix _).length_le

lemma trailing_cons (c : Char) (cs : List Char) :
    trailing (c :: cs) =
      if trailing cs = cs.length ∧ c = '\\' then cs.length + 1 else trailing cs := by
  rw [trailing, List.reverse_cons, List.takeWhile_append, List.length_reverse, ← trailing]
  by_cases hall : trailing cs = cs.length
  · rw [if_pos hall]
    by_cases hc : c = '\\' <;> simp [hall, hc]
  · rw [if_neg hall, if_neg fun h => hall h.1, trailing]

lemma dangling_cons (hc : c ≠ '\\') : Dangling (c :: cs) ↔ Dangling cs := by
  rw [Dangling, trailing_cons, if_neg fun h => hc h.2, Dangling]

/-- A backslash and the character behind it are a pair. -/
lemma dangling_escaped : Dangling ('\\' :: c :: cs) ↔ Dangling cs := by
  have hle := trailing_le_length cs
  have hone := trailing_cons c cs
  have htwo := trailing_cons '\\' (c :: cs)
  rw [List.length_cons] at htwo
  rw [Dangling, Dangling]
  grind

/-- A pattern has pieces unless its last backslash dangles. -/
lemma pieces?_eq_none_iff : pieces? cs = none ↔ Dangling cs := by
  fun_induction pieces? cs with
  | case1 => simp [Dangling, trailing]
  | case2 => simp [Dangling, trailing]
  | case3 c cs ih => rw [Option.map_eq_none_iff, ih, dangling_escaped]
  | case4 cs ih => rw [Option.map_eq_none_iff, ih, dangling_cons (by decide)]
  | case5 cs ih => rw [Option.map_eq_none_iff, ih, dangling_cons (by decide)]
  | case6 c cs hlast hescape _ _ ih =>
    have hc : c ≠ '\\' := by
      intro hc
      cases cs with
      | nil => exact hlast hc rfl
      | cons d ds => exact hescape d ds hc rfl
    rw [Option.map_eq_none_iff, ih, dangling_cons hc]

/-! ### Pieces and splits -/

/-- A text can be split along a pattern exactly if it can be read along its pieces. -/
lemma splits_iff_spells (h : pieces? cs = some ps) :
    Splits ignoreCase cs text ↔ spells ignoreCase ps text = true := by
  fun_induction pieces? cs generalizing ps text with
  | case1 =>
    obtain rfl := Option.some.inj h
    rw [spells, List.isEmpty_iff]
    constructor
    · rintro ⟨⟩
      rfl
    · rintro rfl
      exact .done
  | case2 => cases h
  | case3 c cs ih =>
    obtain ⟨ps, hps, rfl⟩ := Option.map_eq_some_iff.mp h
    constructor
    · intro hsplits
      cases hsplits with
      | escaped same behind =>
        rw [spells, sameChar_eq_true_iff.mpr same, (ih hps).mp behind]
        rfl
      | literal _ _ backslash => exact absurd rfl backslash
    · intro hspells
      cases text with
      | nil => cases hspells
      | cons d rest =>
        obtain ⟨hsame, hrest⟩ := Bool.and_eq_true_iff.mp hspells
        exact .escaped (sameChar_eq_true_iff.mp hsame) ((ih hps).mpr hrest)
  | case4 cs ih =>
    obtain ⟨ps, hps, rfl⟩ := Option.map_eq_some_iff.mp h
    rw [spells, List.any_eq_true]
    constructor
    · intro hsplits
      cases hsplits with
      | run front behind =>
        exact ⟨_, mem_suffixes.mpr (List.suffix_append front _), (ih hps).mp behind⟩
      | literal percent => exact absurd rfl percent
    · rintro ⟨rest, hrest, hspells⟩
      obtain ⟨front, rfl⟩ := mem_suffixes.mp hrest
      exact .run front ((ih hps).mpr hspells)
  | case5 cs ih =>
    obtain ⟨ps, hps, rfl⟩ := Option.map_eq_some_iff.mp h
    constructor
    · intro hsplits
      cases hsplits with
      | one d behind => exact (ih hps).mp behind
      | literal _ underscore => exact absurd rfl underscore
    · intro hspells
      cases text with
      | nil => cases hspells
      | cons d rest => exact .one d ((ih hps).mpr hspells)
  | case6 c cs hlast hescape hpercent hunderscore ih =>
    obtain ⟨ps, hps, rfl⟩ := Option.map_eq_some_iff.mp h
    have hbackslash : c ≠ '\\' := by
      intro hc
      cases cs with
      | nil => exact hlast hc rfl
      | cons d ds => exact hescape d ds hc rfl
    constructor
    · intro hsplits
      cases hsplits with
      | run => exact absurd rfl hpercent
      | one => exact absurd rfl hunderscore
      | escaped => exact absurd rfl hbackslash
      | literal _ _ _ same behind =>
        rw [spells, sameChar_eq_true_iff.mpr same, (ih hps).mp behind]
        rfl
    · intro hspells
      cases text with
      | nil => cases hspells
      | cons d rest =>
        obtain ⟨hsame, hrest⟩ := Bool.and_eq_true_iff.mp hspells
        exact .literal hpercent hunderscore hbackslash (sameChar_eq_true_iff.mp hsame)
          ((ih hps).mpr hrest)

end Pattern

/-! ### Patterns as expressions -/

namespace PatternPiece

/-- The signs that a piece is written as. -/
def symbols : PatternPiece → List Symbol
  | run => [.atom .any, .star]
  | one => [.atom .any]
  | literal c => [.atom (.literal c)]

/-- The part of an expression that a piece is. -/
def part : PatternPiece → Part
  | run => .repeated .any
  | one => .once .any
  | literal c => .once (.literal c)

end PatternPiece

namespace LikePattern

open Pattern

variable {l : Regex.Library} {ignoreCase : Bool} {cs text : List Char} {ps : List PatternPiece}

/-- The body of a pattern's expression has the signs of its pieces. -/
lemma symbols?_regexBody (hl : l.Documented) (h : pieces? cs = some ps) (rest : List Char) :
    symbols? (regexBody l.escape cs ++ rest) =
      (symbols? rest).map (ps.flatMap PatternPiece.symbols ++ ·) := by
  have hdot (cs : List Char) : symbols? ('.' :: cs) = (symbols? cs).map (.atom .any :: ·) := by
    simp [symbols?, symbol?]
  have hstar (cs : List Char) : symbols? ('*' :: cs) = (symbols? cs).map (.star :: ·) := by
    simp [symbols?, symbol?]
  fun_induction pieces? cs generalizing ps with
  | case1 =>
    obtain rfl := Option.some.inj h
    simp [regexBody]
  | case2 => cases h
  | case3 c cs ih =>
    obtain ⟨ps, hps, rfl⟩ := Option.map_eq_some_iff.mp h
    rw [regexBody, List.append_assoc, hl.escaped, ih hps, Option.map_map]
    rfl
  | case4 cs ih =>
    obtain ⟨ps, hps, rfl⟩ := Option.map_eq_some_iff.mp h
    rw [regexBody, List.cons_append, List.cons_append, hdot, hstar, ih hps, Option.map_map,
      Option.map_map]
    rfl
  | case5 cs ih =>
    obtain ⟨ps, hps, rfl⟩ := Option.map_eq_some_iff.mp h
    rw [regexBody, List.cons_append, hdot, ih hps, Option.map_map]
    rfl
  | case6 c cs hlast hescape hpercent hunderscore ih =>
    obtain ⟨ps, hps, rfl⟩ := Option.map_eq_some_iff.mp h
    rw [regexBody, List.append_assoc, hl.escaped, ih hps, Option.map_map]
    · rfl
    · exact hpercent
    · exact hunderscore
    · exact hlast
    · exact hescape

/-- A sign that stands for a character stands once in front of pieces and the end, as no star
follows. -/
lemma parts?_atom (a : Atom) (ps : List PatternPiece) :
    parts? (.atom a :: (ps.flatMap PatternPiece.symbols ++ [.dollar])) =
      (parts? (ps.flatMap PatternPiece.symbols ++ [.dollar])).map (.once a :: ·) := by
  rcases ps with _ | ⟨_ | _ | c, ps⟩ <;> rfl

lemma parts?_symbols (ps : List PatternPiece) :
    parts? (ps.flatMap PatternPiece.symbols ++ [.dollar]) =
      some (ps.map PatternPiece.part ++ [.ending]) := by
  induction ps with
  | nil => rfl
  | cons p ps ih =>
    rw [List.flatMap_cons, List.append_assoc]
    cases p with
    | run =>
      change (parts? (ps.flatMap PatternPiece.symbols ++ [.dollar])).map _ = _
      rw [ih]
      rfl
    | one =>
      rw [PatternPiece.symbols, List.singleton_append, parts?_atom, ih]
      rfl
    | literal c =>
      rw [PatternPiece.symbols, List.singleton_append, parts?_atom, ih]
      rfl

/-- The expression of a pattern has the pieces for its parts, between the two ends of the text. -/
def expression (ignoreCase : Bool) (ps : List PatternPiece) : Expression :=
  ⟨ignoreCase, true, .beginning :: (ps.map PatternPiece.part ++ [.ending])⟩

lemma read?_regex {pattern : String} (ignoreCase : Bool) (hl : l.Documented)
    (h : pieces? pattern.toList = some ps) :
    Expression.read? (regex l.escape ignoreCase pattern) = some (expression ignoreCase ps) := by
  have hbody : (symbols? ('^' :: (regexBody l.escape pattern.toList ++ ['$']))).bind parts? =
      some (.beginning :: (ps.map PatternPiece.part ++ [.ending])) := by
    have hcaret (cs : List Char) : symbols? ('^' :: cs) = (symbols? cs).map (.caret :: ·) := by
      simp [symbols?, symbol?]
    have hdollar : symbols? ['$'] = some [.dollar] := by decide
    rw [hcaret, symbols?_regexBody hl h, hdollar]
    simp [parts?, parts?_symbols]
  cases ignoreCase with
  | false =>
    change ((symbols? ('^' :: (regexBody l.escape pattern.toList ++ ['$']))).bind parts?).map _ = _
    rw [hbody]
    rfl
  | true =>
    change ((symbols? ('^' :: (regexBody l.escape pattern.toList ++ ['$']))).bind parts?).map _ = _
    rw [hbody]
    rfl

/-! ### Expressions that are found -/

lemma repeatedThen_eq_any {next : Bool → List Char → Bool} {test : List Char → Bool}
    (h : ∀ atStart cs, next atStart cs = test cs) (atStart : Bool) (cs : List Char) :
    repeatedThen (fun _ => true) next atStart cs = (suffixes cs).any test := by
  induction cs generalizing atStart with
  | nil => simp [repeatedThen, suffixes, h]
  | cons c cs ih => simp [repeatedThen, suffixes, h, ih]

/-- The parts of a pattern are found at a place if the rest of the text can be read along its
pieces. -/
lemma foundAt_eq_spells (xs : List Part) (ps : List PatternPiece) (atStart : Bool)
    (text : List Char) :
    (⟨ignoreCase, true, xs⟩ : Expression).foundAt (ps.map PatternPiece.part ++ [.ending]) atStart
      text = spells ignoreCase ps text := by
  induction ps generalizing atStart text with
  | nil => simp [Expression.foundAt, spells]
  | cons p ps ih =>
    rw [List.map_cons, List.cons_append]
    cases p with
    | run => exact repeatedThen_eq_any ih atStart text
    | one =>
      cases text with
      | nil => rfl
      | cons d rest => exact ih false rest
    | literal c =>
      cases text with
      | nil => rfl
      | cons d rest => exact congrArg (sameChar ignoreCase c d && ·) (ih false rest)

/-- **Anchors**: the expression of a pattern is found in a text if the whole text can be read along
the pieces. -/
lemma foundIn_expression (ps : List PatternPiece) (text : String) :
    (expression ignoreCase ps).foundIn text = spells ignoreCase ps text.toList := by
  -- behind its first character a text has no beginning
  have hbehind : ∀ cs, (expression ignoreCase ps).foundFrom false cs = false := by
    intro cs
    induction cs with
    | nil => rfl
    | cons c cs ih => rw [Expression.foundFrom, ih]; rfl
  rw [Expression.foundIn]
  cases hcs : text.toList with
  | nil => exact foundAt_eq_spells _ ps true []
  | cons c cs =>
    rw [Expression.foundFrom, hbehind, Bool.or_false]
    exact foundAt_eq_spells _ ps true (c :: cs)

/-! ### Patterns that are read -/

/-- **Patterns.** A pattern is refused exactly if it ends in a backslash that escapes nothing.
Otherwise it is read, and it matches a text exactly if the text can be split along it. Its
expression does the same in any library of regular expressions, unless it is too large. -/
theorem accepts_iff_splits (hl : l.Documented) (pattern : String) (ignoreCase : Bool) :
    (Dangling pattern.toList →
      let refusal : EvaluationError := .invalidPattern pattern danglingEscape
      checkPattern pattern = .error refusal ∧ compile pattern ignoreCase = .error refusal ∧
        compileRegex l pattern ignoreCase = .error refusal) ∧
    (¬ Dangling pattern.toList →
      checkPattern pattern = .ok () ∧
      (∃ p, compile pattern ignoreCase = .ok p ∧ ∀ text : String,
        p.accepts text = true ↔ Splits ignoreCase pattern.toList text.toList) ∧
      (l.fits (regex l.escape ignoreCase pattern) →
        ∃ compiled, compileRegex l pattern ignoreCase = .ok compiled ∧ ∀ text : String,
          l.isMatch compiled text = true ↔
            Splits ignoreCase pattern.toList text.toList)) := by
  constructor
  · intro hdangling
    have hnone := pieces?_eq_none_iff.mpr hdangling
    have hcheck : checkPattern pattern = .error (.invalidPattern pattern danglingEscape) := by
      rw [checkPattern, hnone]
    refine ⟨hcheck, by rw [compile, hnone], ?_⟩
    rw [compileRegex, hcheck]
  · intro hpaired
    obtain ⟨ps, hps⟩ := Option.ne_none_iff_exists'.mp fun h => hpaired (pieces?_eq_none_iff.mp h)
    have hcheck : checkPattern pattern = .ok () := by rw [checkPattern, hps]
    refine ⟨hcheck, ⟨⟨ps, ignoreCase⟩, by rw [compile, hps], fun text => ?_⟩, fun hfits => ?_⟩
    · rw [accepts, describes_eq_spells, splits_iff_spells hps]
    · obtain ⟨compiled, hcompiled, hmatch⟩ :=
        hl.compiled (read?_regex ignoreCase hl hps) hfits
      refine ⟨compiled, ?_, fun text => ?_⟩
      · rw [compileRegex, hcheck]
        simp only [hcompiled]
      · rw [hmatch, foundIn_expression, splits_iff_spells hps]

end LikePattern

/-! ### A library -/

namespace Regex

/-- Characters with a meaning somewhere in expressions. -/
def metaCharacters : List Char :=
  "\\.+*?()|[]\x7b\x7d^$#&-~".toList

/-- A library that reads what is described here and nothing else. -/
def described : Library where
  Compiled := Expression
  escape c := if c ∈ metaCharacters then ['\\', c] else [c]
  fits _ := True
  compile source :=
    match Expression.read? source with
    | some x => .ok x
    | none => .error "unsupported expression"
  isMatch := Expression.foundIn

lemma symbol?_of_notMem {c : Char} (h : c ∉ metaCharacters) :
    symbol? c = some (.atom (.literal c)) := by
  have hne : ∀ d ∈ metaCharacters, c ≠ d := by
    rintro d hd rfl
    exact h hd
  unfold symbol?
  split
  all_goals first | exact absurd rfl (hne _ (by decide)) | rfl

lemma documented_described : described.Documented where
  escaped c rest := by
    by_cases hc : c ∈ metaCharacters
    · have hall : metaCharacters.all isEscapable = true := by decide
      have hescapable : isEscapable c = true := List.all_eq_true.mp hall c hc
      simp [described, hc, symbols?, hescapable]
    · have hbackslash : c ≠ '\\' := by
        rintro rfl
        exact hc (by decide)
      simp only [described, if_neg hc, List.singleton_append]
      rw [symbols?, symbol?_of_notMem hc]
      · rfl
      · exact fun h => absurd h hbackslash
      · exact fun _ _ h => absurd h hbackslash
  compiled read _ := by
    refine ⟨_, by simp only [described, read], fun _ => rfl⟩

end Regex

open Pattern LikePattern in
/-- An escaped underscore takes no other character, and a percent sign takes what would mean
something in an expression, line feeds too. A backslash at the end escapes nothing. -/
theorem accepts_iff_splits_underscore :
    (Dangling "a\\".toList ∧
      checkPattern "a\\" = .error (.invalidPattern "a\\" danglingEscape)) ∧
    ¬ Dangling "a\\_%".toList ∧
      (∃ p, compile "a\\_%" true = .ok p ∧ p.accepts "A_\n.*" = true ∧ ¬ p.accepts "Ax" = true) ∧
      ∃ compiled, compileRegex described "a\\_%" true = .ok compiled ∧
        described.isMatch compiled "A_\n.*" = true ∧ ¬ described.isMatch compiled "Ax" = true := by
  have hdangling : Dangling "a\\".toList := by decide
  have hrefused := (accepts_iff_splits documented_described "a\\" true).1 hdangling
  have hpaired : ¬ Dangling "a\\_%".toList := by decide
  obtain ⟨-, ⟨p, hp, hmatches⟩, hlibrary⟩ :=
    (accepts_iff_splits documented_described "a\\_%" true).2 hpaired
  obtain ⟨compiled, hcompiled, hfound⟩ := hlibrary trivial
  obtain rfl : ⟨[.literal 'a', .literal '_', .run], true⟩ = p := Except.ok.inj hp
  have hsplits : Splits true "a\\_%".toList "A_\n.*".toList := (hmatches _).mp (by decide)
  have hapart : ¬ Splits true "a\\_%".toList "Ax".toList := by
    rw [← hmatches]
    decide
  refine ⟨⟨hdangling, hrefused.1⟩, hpaired, ⟨_, hp, ?_, ?_⟩, compiled, hcompiled, ?_, ?_⟩
  · rwa [hmatches]
  · rwa [hmatches]
  · rwa [hfound]
  · rwa [hfound]

end EntityQuery
