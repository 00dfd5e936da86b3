import EntityQuery.Proofs.Token.Layout
import Mathlib.Data.List.DropRight

/-!
# The positions of tokens

The places of tokens and faults are counted up character by character. They are the ones that the
text in front of them has: so many bytes, so many line feeds, and so many characters behind the last
of these. The stretches of the tokens lie one behind the other, on whole characters, and between
them is nothing but white space.
-/

namespace EntityQuery

/-! ### Places -/

/-- A stretch of a text as it follows from what stands in front of it and in it. Offsets are counted
in bytes, lines by the line feeds, and columns in characters behind the last line feed. -/
structure Span.Marks (s : Span) (before word : List Char) : Prop where
  start : s.start = (String.ofList before).utf8ByteSize
  stop : s.stop = (String.ofList (before ++ word)).utf8ByteSize
  line : s.line = before.count '\n' + 1
  column : s.column = (before.rtakeWhile (· != '\n')).length + 1

lemma Position.after_append (p : Position) (cs ds : List Char) :
    p.after (cs ++ ds) = (p.after cs).after ds :=
  List.foldl_append

/-- **Counting** character by character comes to the place that the text in front has. -/
lemma Position.after_start (before : List Char) : Position.start.after before =
    ⟨(String.ofList before).utf8ByteSize, before.count '\n' + 1,
      (before.rtakeWhile (· != '\n')).length + 1⟩ := by
  induction before using List.reverseRecOn with
  | nil => rfl
  | append_singleton before c ih =>
    have hstep : (Position.start.after (before ++ [c])) = (Position.start.after before).step c :=
      after_append _ _ _
    rw [hstep, ih, step, List.rtakeWhile_concat]
    by_cases hc : c = '\n'
    · subst hc
      simp
      rfl
    · simp [hc]

lemma Span.marks_covering (before word : List Char) :
    (covering (Position.start.after before) word).Marks before word := by
  have hstop : ((Position.start.after before).after word).offset =
      (String.ofList (before ++ word)).utf8ByteSize := by
    rw [← Position.after_append, Position.after_start]
  refine ⟨?_, hstop, ?_, ?_⟩ <;> rw [covering, Position.after_start]

/-! ### Faults of lexemes -/

namespace Lexeme

variable {c : Char} {cs : List Char} {kind : TokenKind} {fault : ParseFault} {n : Nat}

/-- The mark of an exponent in small letters. -/
def smallMark (c : Char) : Char :=
  if c = 'E' then 'e' else c

/-- What has been consumed behind the first character of a lexeme when its fault is found, and what
has not. -/
inductive Consumed (c : Char) (cs rest : List Char) : ParseFault → Prop where
  /-- Nothing more than the character that begins no lexeme. -/
  | character (alone : cs = []) : Consumed c cs rest (.unexpectedCharacter c)
  /-- All that follows a quote, if it is not closed. -/
  | string (quote : c = '\'' ∨ c = '"') (all : rest = []) : Consumed c cs rest .unterminatedString
  /-- A number without a value. -/
  | number {text : String} (first : c.isDigit = true ∨ c = '-')
      (written : text.toList = (c :: cs).map smallMark) : Consumed c cs rest (.invalidNumber text)

lemma map_smallMark {cs : List Char} (h : 'E' ∉ cs) : cs.map smallMark = cs := by
  refine (List.map_congr_left fun c hc => ?_).trans (List.map_id cs)
  rw [smallMark, if_neg (ne_of_mem_of_not_mem hc h), id_eq]

lemma notMem_takeWhile_isDigit (cs : List Char) : 'E' ∉ cs.takeWhile Char.isDigit := fun h => by
  have hdigit := List.mem_takeWhile_imp h
  revert hdigit
  decide

lemma notMem_fraction (cs : List Char) : 'E' ∉ fraction cs := by
  unfold fraction
  split
  · rename_i d ds
    split
    · rename_i hd
      have hne : 'E' ≠ d := by
        rintro rfl
        cases hd
      simpa [hne] using notMem_takeWhile_isDigit ds
    · simp
  · simp

/-- An exponent is read as its mark, its sign and its digits, if there is one. -/
lemma exponent_cases (cs : List Char) : exponent cs = ([], []) ∨
    ∃ e sign rest, cs = e :: (sign ++ rest) ∧ (e = 'e' ∨ e = 'E') ∧ 'E' ∉ sign ∧
      exponent cs = ('e' :: sign, rest.takeWhile Char.isDigit) := by
  unfold exponent
  split
  · rename_i e cs
    split
    · rename_i he
      split
      · exact .inr ⟨e, ['+'], _, rfl, he, by decide, rfl⟩
      · exact .inr ⟨e, ['-'], _, rfl, he, by decide, rfl⟩
      · exact .inr ⟨e, [], _, rfl, he, by decide, rfl⟩
    · exact .inl rfl
  · exact .inl rfl

/-- The exponent that is read is the one that is written, its mark in small letters. -/
lemma exponent_written (cs : List Char) : exponentLength cs ≤ cs.length ∧
    (cs.take (exponentLength cs)).map smallMark = (exponent cs).1 ++ (exponent cs).2 := by
  rcases exponent_cases cs with hnone | ⟨e, sign, rest, rfl, he, hsign, hsome⟩
  · simp [exponentLength, hnone]
  · have hlength := (List.takeWhile_prefix Char.isDigit (l := rest)).length_le
    have hmark : smallMark e = 'e' := by rcases he with rfl | rfl <;> rfl
    have htake : (e :: (sign ++ rest)).take (exponentLength (e :: (sign ++ rest))) =
        e :: (sign ++ rest.takeWhile Char.isDigit) := by
      rw [exponentLength, hsome, List.length_cons, Nat.add_right_comm, List.take_succ_cons,
        List.take_length_add_append, take_length_takeWhile]
    constructor
    · simp only [exponentLength, hsome, List.length_cons, List.length_append]
      omega
    · rw [htake, hsome, List.map_cons, List.map_append, hmark, map_smallMark hsign,
        map_smallMark (notMem_takeWhile_isDigit rest)]
      rfl

lemma consumed_of_number (first : c.isDigit = true ∨ c = '-')
    (h : number c cs = .error (fault, n)) :
    n ≤ cs.length ∧ Consumed c (cs.take n) (cs.drop n) fault := by
  obtain ⟨whole, hwhole⟩ : ∃ whole, whole = cs.takeWhile Char.isDigit := ⟨_, rfl⟩
  obtain ⟨rest, hrest⟩ : ∃ rest, rest = cs.dropWhile Char.isDigit := ⟨_, rfl⟩
  obtain ⟨rest', hrest'⟩ : ∃ rest', rest' = rest.drop (fraction rest).length := ⟨_, rfl⟩
  have hcs : cs = whole ++ (fraction rest ++ rest') := by
    have hsplit := List.take_append_drop (fraction rest).length rest
    rw [(fraction_take rest).1, ← hrest'] at hsplit
    rw [hsplit, hwhole, hrest, List.takeWhile_append_dropWhile]
  obtain ⟨hle, hwritten⟩ := exponent_written rest'
  unfold number at h
  simp only [← hwhole, ← hrest, ← hrest'] at h
  split at h
  · cases h
  · obtain ⟨rfl, hn⟩ := Prod.mk.inj (Except.error.inj h)
    have hlength : n = (whole ++ fraction rest).length + exponentLength rest' := by
      rw [← hn]
      simp only [List.length_append, exponentLength]
      omega
    have htake : cs.take n = whole ++ (fraction rest ++ rest'.take (exponentLength rest')) := by
      rw [hlength, hcs, ← List.append_assoc, ← List.append_assoc, List.take_length_add_append]
    refine ⟨?_, .number first ?_⟩
    · rw [hlength, hcs]
      simp only [List.length_append]
      omega
    · have hfirst : smallMark c = c := by
        rcases first with hc | rfl
        · refine if_neg ?_
          rintro rfl
          cases hc
        · rfl
      have hwhole' := map_smallMark (notMem_takeWhile_isDigit cs)
      rw [← hwhole] at hwhole'
      rw [String.toList_ofList, htake, List.map_cons, List.map_append, List.map_append, hfirst,
        hwhole', map_smallMark (notMem_fraction rest), hwritten]
      simp

/-- **Faults** of a lexeme come with what has been consumed of it. -/
lemma consumed_of_read (h : read c cs = .error (fault, n)) :
    n ≤ cs.length ∧ Consumed c (cs.take n) (cs.drop n) fault := by
  unfold read at h
  split at h
  case h_14 =>
    split at h
    · rename_i hquote
      split at h
      · cases h
      · obtain ⟨rfl, rfl⟩ := Prod.mk.inj (Except.error.inj h)
        exact ⟨Nat.le_refl _, .string hquote (List.drop_length)⟩
    · split at h
      · rename_i hnumber
        exact consumed_of_number (hnumber.imp_right And.left) h
      · split at h
        · cases h
        · obtain ⟨rfl, rfl⟩ := Prod.mk.inj (Except.error.inj h)
          exact ⟨Nat.zero_le _, .character rfl⟩
  all_goals cases h

end Lexeme

/-! ### The scan -/

/-- A text as it has been gone through up to some place: white space is passed over, and each
lexeme, read in view of what follows it, is a token. -/
inductive Scanned (text : String) : List Char → List Token → Prop where
  | nothing : Scanned text [] []
  | space {before after : List Char} {c : Char} {tokens : List Token}
      (scanned : Scanned text before tokens) (here : text.toList = before ++ c :: after)
      (space : Text.isSpace c = true) : Scanned text (before ++ [c]) tokens
  | lexeme {before after cs : List Char} {c : Char} {tokens : List Token} {t : Token}
      (scanned : Scanned text before tokens) (here : text.toList = before ++ c :: (cs ++ after))
      (dark : Text.isSpace c = false) (read : Lexeme.read c (cs ++ after) = .ok (t.kind, cs.length))
      (marks : t.span.Marks before (c :: cs)) : Scanned text (before ++ c :: cs) (tokens ++ [t])

/-- A token has the place of a lexeme, which is read as it in view of what follows. -/
def Token.IsLexemeOf (text : String) (t : Token) : Prop :=
  ∃ before c cs after, text.toList = before ++ c :: (cs ++ after) ∧ Text.isSpace c = false ∧
    Lexeme.read c (cs ++ after) = .ok (t.kind, cs.length) ∧ t.span.Marks before (c :: cs)

/-- The place of an error: it starts with the first lexeme that has a fault, and ends where this has
been consumed. -/
def ParseError.LocatedIn (text : String) (e : ParseError) : Prop :=
  ∃ before c cs after tokens, text.toList = before ++ c :: (cs ++ after) ∧
    Scanned text before tokens ∧ Text.isSpace c = false ∧
    Lexeme.read c (cs ++ after) = .error (e.fault, cs.length) ∧
    Lexeme.Consumed c cs after e.fault ∧ e.span.Marks before (c :: cs)

namespace Scanned

variable {text : String} {before cs : List Char} {tokens : List Token} {p : Position}

lemma spaces (h : Scanned text before tokens) {gap after : List Char}
    (here : text.toList = before ++ (gap ++ after)) (hgap : ∀ c ∈ gap, Text.isSpace c = true) :
    Scanned text (before ++ gap) tokens := by
  induction gap generalizing before with
  | nil => rwa [List.append_nil]
  | cons c gap ih =>
    obtain ⟨hc, hgap⟩ := List.forall_mem_cons.mp hgap
    rw [List.append_cons]
    refine ih (h.space here hc) ?_ hgap
    rw [here, List.append_assoc]
    rfl

/-- White space is passed over up to the next lexeme. -/
lemma skip (h : Scanned text before tokens) (here : text.toList = before ++ cs)
    (hp : p = Position.start.after before) :
    Scanned text (before ++ cs.takeWhile Text.isSpace) tokens ∧
      text.toList = before ++ cs.takeWhile Text.isSpace ++ Text.dropSpace cs ∧
      p.after (cs.takeWhile Text.isSpace) =
        Position.start.after (before ++ cs.takeWhile Text.isSpace) := by
  have hcs : before ++ cs = before ++ (cs.takeWhile Text.isSpace ++ Text.dropSpace cs) :=
    congrArg (before ++ ·) List.takeWhile_append_dropWhile.symm
  refine ⟨h.spaces (here.trans hcs) fun c hc => List.mem_takeWhile_imp hc, ?_, ?_⟩
  · rw [here, hcs, List.append_assoc]
  · rw [hp, Position.after_append]

/-- The next lexeme becomes a token. -/
lemma next (h : Scanned text before tokens) {c : Char} {rest : List Char} {kind : TokenKind}
    {n : Nat} (here : text.toList = before ++ c :: rest) (dark : Text.isSpace c = false)
    (hread : Lexeme.read c rest = .ok (kind, n)) :
    Scanned text (before ++ c :: rest.take n)
        (tokens ++ [⟨kind, .covering (Position.start.after before) (c :: rest.take n)⟩]) ∧
      text.toList = before ++ c :: rest.take n ++ rest.drop n := by
  have hle : n ≤ rest.length := (Lexeme.read_append Lexeme.endsAny_nil hread).2
  have hplace : text.toList = before ++ c :: (rest.take n ++ rest.drop n) := by
    rwa [List.take_append_drop]
  refine ⟨h.lexeme hplace dark ?_ (Span.marks_covering _ _), ?_⟩
  · rw [List.take_append_drop, List.length_take_of_le hle, hread]
  · rw [hplace, List.append_assoc]
    rfl

lemma dark_of_dropSpace {c : Char} {rest : List Char} (h : Text.dropSpace cs = c :: rest) :
    Text.isSpace c = false := by
  have hhead := List.head?_dropWhile_not Text.isSpace cs
  rw [← Text.dropSpace, h] at hhead
  exact hhead

/-- White space and the next lexeme behind it: the place that is counted goes along. -/
lemma advance (h : Scanned text before tokens) (here : text.toList = before ++ cs)
    (hp : p = Position.start.after before) {c : Char} {rest : List Char} {kind : TokenKind}
    {n : Nat} (hdrop : Text.dropSpace cs = c :: rest) (hread : Lexeme.read c rest = .ok (kind, n)) :
    let p' := p.after (cs.takeWhile Text.isSpace)
    let before' := before ++ cs.takeWhile Text.isSpace ++ c :: rest.take n
    Scanned text before' (tokens ++ [⟨kind, .covering p' (c :: rest.take n)⟩]) ∧
      text.toList = before' ++ rest.drop n ∧
      p'.after (c :: rest.take n) = Position.start.after before' := by
  obtain ⟨hscanned, hplace, hp'⟩ := h.skip here hp
  rw [hdrop] at hplace
  rw [hp']
  obtain ⟨hnext, hrest⟩ := hscanned.next hplace (dark_of_dropSpace hdrop) hread
  exact ⟨hnext, hrest, (Position.after_append _ _ _).symm⟩

/-- What the rest of a text yields behind tokens that have been scanned: the tokens that complete
the scan, with the end of the text for the last one, or an error at its place. -/
def Completed (text : String) (tokens : List Token) : Except ParseError (List Token) → Prop
  | .ok more => ∃ front span, more = front ++ [⟨.endOfInput, span⟩] ∧
      Scanned text text.toList (tokens ++ front) ∧ span.Marks text.toList []
  | .error e => e.LocatedIn text

/-- **The run** completes the scan from whatever has been scanned. -/
theorem completed (h : Scanned text before tokens) (here : text.toList = before ++ cs)
    (hp : p = Position.start.after before) : Completed text tokens (tokensFrom p cs) := by
  fun_induction tokensFrom p cs generalizing before tokens with
  | case1 p cs p' =>
    rename_i hdrop
    obtain ⟨hscanned, hplace, hp'⟩ := h.skip here hp
    rw [hdrop, List.append_nil] at hplace
    rw [← hplace] at hscanned hp'
    change p' = _ at hp'
    exact ⟨[], .covering p' [], rfl, by rwa [List.append_nil], hp' ▸ Span.marks_covering _ _⟩
  | case2 p cs p' c rest hdrop fault n =>
    rename_i hread
    obtain ⟨hscanned, hplace, hp'⟩ := h.skip here hp
    rw [hdrop] at hplace
    change p' = _ at hp'
    obtain ⟨hle, hconsumed⟩ := Lexeme.consumed_of_read hread
    refine ⟨_, c, rest.take n, rest.drop n, tokens, ?_, hscanned, dark_of_dropSpace hdrop, ?_,
      hconsumed, hp' ▸ Span.marks_covering _ _⟩
    · rwa [List.take_append_drop]
    · rw [List.take_append_drop, List.length_take_of_le hle, hread]
  | case3 p cs p' c rest hdrop kind n hread e hmore =>
    rename_i ih
    obtain ⟨hnext, hrest, hp'⟩ := h.advance here hp hdrop hread
    have hcompleted := ih hnext hrest hp'
    rwa [hmore] at hcompleted
  | case4 p cs p' c rest hdrop kind n hread more hmore =>
    rename_i ih
    obtain ⟨hnext, hrest, hp'⟩ := h.advance here hp hdrop hread
    have hcompleted := ih hnext hrest hp'
    rw [hmore] at hcompleted
    obtain ⟨front, span, rfl, hall, hend⟩ := hcompleted
    refine ⟨_ :: front, span, rfl, ?_, hend⟩
    rwa [List.append_assoc] at hall

/-! ### What has been scanned -/

lemma bytes_append (cs ds : List Char) : (String.ofList (cs ++ ds)).utf8ByteSize =
    (String.ofList cs).utf8ByteSize + (String.ofList ds).utf8ByteSize := by
  rw [String.ofList_append, String.utf8ByteSize_append]

lemma bytes_cons_pos (c : Char) (cs : List Char) : 0 < (String.ofList (c :: cs)).utf8ByteSize := by
  have hc : (String.ofList [c]).utf8ByteSize = c.utf8Size := by simp
  rw [← List.singleton_append, bytes_append, hc]
  exact Nat.add_pos_left c.utf8Size_pos _

lemma stop_le (h : Scanned text before tokens) :
    ∀ t ∈ tokens, t.span.stop ≤ (String.ofList before).utf8ByteSize := by
  induction h with
  | nothing => simp
  | space _ _ _ ih =>
    intro t ht
    rw [bytes_append]
    exact (ih t ht).trans (Nat.le_add_right _ _)
  | lexeme _ _ _ _ marks ih =>
    intro t ht
    rcases List.mem_append.mp ht with ht | ht
    · rw [bytes_append]
      exact (ih t ht).trans (Nat.le_add_right _ _)
    · rw [List.mem_singleton.mp ht, marks.stop]

/-- Each token lies behind those before it. -/
lemma ordered (h : Scanned text before tokens) :
    tokens.Pairwise fun t u => t.span.stop ≤ u.span.start := by
  induction h with
  | nothing => exact .nil
  | space _ _ _ ih => exact ih
  | lexeme scanned _ _ _ marks ih =>
    refine List.pairwise_append.mpr ⟨ih, List.pairwise_singleton _ _, fun t ht u hu => ?_⟩
    rw [List.mem_singleton.mp hu, marks.start]
    exact scanned.stop_le t ht

/-- There are no more tokens than characters. -/
lemma length_le (h : Scanned text before tokens) : tokens.length ≤ before.length := by
  induction h with
  | nothing => exact Nat.le_refl 0
  | space _ _ _ ih =>
    rw [List.length_append]
    exact ih.trans (Nat.le_add_right _ _)
  | lexeme _ _ _ _ _ ih =>
    simp only [List.length_append, List.length_cons, List.length_nil]
    omega

/-- Whatever has been scanned is white space or in a token. -/
lemma covered (h : Scanned text before tokens) {front back : List Char} {c : Char}
    (hc : before = front ++ c :: back) : Text.isSpace c = true ∨ ∃ t ∈ tokens,
      t.span.start ≤ (String.ofList front).utf8ByteSize ∧
      (String.ofList front).utf8ByteSize < t.span.stop := by
  induction h generalizing back with
  | nothing => simp at hc
  | @space before _ d _ _ _ space ih =>
    rcases List.append_eq_append_iff.mp hc with ⟨more, rfl, hd⟩ | ⟨more, hbefore, hd⟩
    · obtain ⟨rfl, rfl, rfl⟩ : more = [] ∧ d = c ∧ back = [] := by
        cases more <;> simp_all
      exact .inl space
    · cases more with
      | nil => exact .inl ((List.cons.inj hd).1 ▸ space)
      | cons e more =>
        obtain ⟨rfl, -⟩ := List.cons.inj hd
        exact ih hbefore
  | @lexeme before _ cs d tokens t _ _ _ _ marks ih =>
    -- a place from the beginning of the lexeme on is in its token
    have hin : before <+: front → Text.isSpace c = true ∨ ∃ u ∈ tokens ++ [t],
        u.span.start ≤ (String.ofList front).utf8ByteSize ∧
        (String.ofList front).utf8ByteSize < u.span.stop := by
      rintro ⟨more, rfl⟩
      refine .inr ⟨t, by simp, ?_, ?_⟩
      · rw [marks.start, bytes_append]
        exact Nat.le_add_right _ _
      · rw [marks.stop, hc, bytes_append (before ++ more)]
        exact Nat.lt_add_of_pos_right (bytes_cons_pos c back)
    rcases List.append_eq_append_iff.mp hc with ⟨more, rfl, -⟩ | ⟨more, hbefore, hd⟩
    · exact hin (List.prefix_append _ _)
    · cases more with
      | nil => exact hin (by simp [hbefore])
      | cons e more =>
        obtain ⟨rfl, -⟩ := List.cons.inj hd
        refine (ih hbefore).imp_right fun ⟨u, hu, hplace⟩ => ⟨u, ?_, hplace⟩
        exact List.mem_append_left _ hu

/-- Each token has the place of a lexeme that is read as it. -/
lemma exists_lexeme (h : Scanned text before tokens) : ∀ t ∈ tokens, t.IsLexemeOf text := by
  induction h with
  | nothing => simp
  | space _ _ _ ih => exact ih
  | lexeme _ here dark read marks ih =>
    intro t ht
    rcases List.mem_append.mp ht with ht | ht
    · exact ih t ht
    · obtain rfl := List.mem_singleton.mp ht
      exact ⟨_, _, _, _, here, dark, read, marks⟩

end Scanned

/-- The tokens of a text are at the places of its lexemes, one behind the other, with nothing but
white space between them, and the last one is the end of the text. -/
structure Token.LocatedIn (text : String) (tokens : List Token) : Prop where
  lexemes : ∀ t ∈ tokens.dropLast, t.IsLexemeOf text ∧ t.kind ≠ .endOfInput
  last : ∃ span, tokens.getLast? = some ⟨.endOfInput, span⟩ ∧ span.Marks text.toList []
  ordered : tokens.Pairwise fun t u => t.span.stop ≤ u.span.start
  within : ∀ t ∈ tokens, t.span.stop ≤ text.utf8ByteSize
  /-- A character that is in no token is white space. -/
  covered : ∀ before c after, text.toList = before ++ c :: after → Text.isSpace c = true ∨
    ∃ t ∈ tokens, t.span.start ≤ (String.ofList before).utf8ByteSize ∧
      (String.ofList before).utf8ByteSize < t.span.stop
  few : tokens.length ≤ text.length + 1

/-- **Positions.** The tokens of a text have the places of its lexemes. If it has none, the error is
at the first lexeme with a fault, up to where this has been consumed. -/
theorem tokenize_located (text : String) :
    match tokenize text with
    | .ok tokens => Token.LocatedIn text tokens
    | .error e => e.LocatedIn text := by
  have hcompleted : Scanned.Completed text [] (tokenize text) :=
    Scanned.nothing.completed (List.nil_append _).symm rfl
  cases h : tokenize text with
  | error e => rwa [h] at hcompleted
  | ok tokens =>
    rw [h] at hcompleted
    obtain ⟨front, span, rfl, hscanned, hend⟩ := hcompleted
    rw [List.nil_append] at hscanned
    have hwithin : ∀ t ∈ front, t.span.stop ≤ text.utf8ByteSize := fun t ht => by
      simpa using hscanned.stop_le t ht
    have hstop : span.start = text.utf8ByteSize ∧ span.stop = text.utf8ByteSize := by
      rw [hend.start, hend.stop, List.append_nil, String.ofList_toList]
      exact ⟨rfl, rfl⟩
    constructor
    · rw [List.dropLast_concat]
      refine fun t ht => ⟨hscanned.exists_lexeme t ht, ?_⟩
      obtain ⟨_, c, cs, after, -, -, hread, -⟩ := hscanned.exists_lexeme t ht
      intro hkind
      exact Lexeme.read_ne_end (hkind ▸ hread)
    · exact ⟨span, List.getLast?_concat, hend⟩
    · refine List.pairwise_append.mpr ⟨hscanned.ordered, List.pairwise_singleton _ _, ?_⟩
      intro t ht u hu
      rw [List.mem_singleton.mp hu, hstop.1]
      exact hwithin t ht
    · intro t ht
      rcases List.mem_append.mp ht with ht | ht
      · exact hwithin t ht
      · rw [List.mem_singleton.mp ht, hstop.2]
    · intro before c after hc
      refine (hscanned.covered hc).imp_right fun ⟨t, ht, hplace⟩ => ⟨t, ?_, hplace⟩
      exact List.mem_append_left _ ht
    · rw [List.length_append, List.length_singleton, ← String.length_toList]
      exact Nat.succ_le_succ hscanned.length_le

end EntityQuery
