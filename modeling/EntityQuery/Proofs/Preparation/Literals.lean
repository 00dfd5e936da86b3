import EntityQuery.Proofs.Number.Plain
import EntityQuery.Proofs.Preparation.Behind
import EntityQuery.Proofs.Token.Content
import EntityQuery.Proofs.Time.ReadBack

/-!
# Values are read back from their literals

The literal of a value that an operand was converted to is written for the type, not for the
operand: it is one token, which is read as an operand of its own. Converted to the same type, this
operand gives an equal value just if the value is legible. That leaves out constants that are no
names, and the numbers whose plain text is no number or an integer out of range.
-/

namespace EntityQuery

/-- A value whose literal is read as an equal value. A constant is written without quotes, so it has
to be a name. -/
def Value.Legible : Value → Prop
  | .float d => d.Legible
  | .enum name => IsName name
  | .ref _ id => id.Legible
  | _ => True

/-- What conversion sees of a token that is an operand on its own. -/
def TokenKind.literal? : TokenKind → Option Literal
  | .string s | .name s => some (.text s)
  | .int i => some (.int i)
  | .float d => some (.float d)
  | _ => none

namespace Registry

/-- The literal of a value is one token, and that token is an operand of any operator; converted to
a type, the operand is an equal value. -/
def ReadsBack (r : Registry) (context : QueryContext) (property : String) (type : PropertyType)
    (v : Value) : Prop :=
  ∃ tokens kind o w, tokenize v.literal = .ok tokens ∧
    tokens.map Token.kind = [kind, .endOfInput] ∧
    (∀ op : Operator, Tokens.operand op [kind, .endOfInput] =
      .ok (if op.takesList then .list [o] else o, [.endOfInput])) ∧
    r.coerce context property type o = .ok w ∧ (w == v) = true

end Registry

/-! ### Writing -/

/-- A legible number is written as an integer that equals it, as this very number, or as a word that
is read as it. -/
lemma Double.Legible.exists_kind {d : Double} (h : d.Legible) :
    ∃ kind, Lexes d.plainText.toList [kind, .endOfInput] ∧
      ∃ l w, kind.literal? = some l ∧ l.scalar? .float = some (.float w) ∧ (w == d) = true := by
  have hself : (d == d) = true := by
    cases d with
    | nan => cases h
    | infinite => exact beq_iff.mpr ⟨_, rfl, rfl⟩
    | finite => exact beq_iff.mpr ⟨_, rfl, rfl⟩
  cases d with
  | nan => cases h
  | infinite negative =>
    obtain rfl : negative = false := h
    have hname : IsName "inf" := by decide
    exact ⟨_, Lexes.name hname Lexeme.endsName_nil .nil, _, _, rfl, rfl, hself⟩
  | finite negative units representable =>
    rcases exists_plainText negative representable with ⟨hwhole, htext⟩ | ⟨-, w, hw, hvalue, htext⟩
    · have hfit := fitInt64?_whole negative representable hwhole
      have hnumber := Lexeme.exists_number_numeral negative (whole .upper units) Lexeme.endsNumber_nil
      split at hfit
      · rename_i i hsome
        simp only [hsome] at hnumber
        have hlexes := Lexes.number hnumber .nil
        rw [List.append_nil, ← htext] at hlexes
        exact ⟨_, hlexes, _, _, rfl, rfl, hfit.2⟩
      · exact absurd h hfit
    · have hlexes := Lexes.number (Lexeme.exists_number_chars hw negative Lexeme.endsNumber_nil) .nil
      rw [List.append_nil, ← htext, hvalue] at hlexes
      exact ⟨_, hlexes, _, _, rfl, rfl, hself⟩

lemma Lexes.quoted (s : String) : Lexes (Text.quote s).toList [.string s, .endOfInput] := by
  have hlexes := Lexes.string s .nil
  rwa [List.append_nil] at hlexes

lemma Lexes.single {s : String} (hs : IsName s) : Lexes s.toList [.name s, .endOfInput] := by
  have hlexes := Lexes.name hs Lexeme.endsName_nil .nil
  rwa [List.append_nil] at hlexes

/-- A legible value of a type without references is written as one token, whose content is the same
value. -/
lemma Literal.exists_kind_of_scalar? {type : PropertyType} {l : Literal} {v : Value}
    (h : l.scalar? type = some v) (legible : v.Legible) :
    ∃ kind, Lexes v.literal.toList [kind, .endOfInput] ∧
      ∃ l' w, kind.literal? = some l' ∧ l'.scalar? type = some w ∧ (w == v) = true := by
  have htyped := Registry.isOperand_of_scalar? (r := ⟨[]⟩) h
  cases htyped with
  | text s => exact ⟨_, .quoted s, _, _, rfl, rfl, beq_self_eq_true s⟩
  | int i =>
    have hlexes := Lexes.integer i Lexeme.endsNumber_nil .nil
    rw [List.append_nil] at hlexes
    exact ⟨_, hlexes, _, _, rfl, rfl, beq_self_eq_true i⟩
  | float d =>
    obtain ⟨kind, hlexes, l', w, hkind, hscalar, hbeq⟩ := Double.Legible.exists_kind legible
    exact ⟨kind, hlexes, l', _, hkind, hscalar, hbeq⟩
  | bool b =>
    cases b
    · exact ⟨_, .single (s := "false") (by decide), _, _, rfl, rfl, rfl⟩
    · exact ⟨_, .single (s := "true") (by decide), _, _, rfl, rfl, rfl⟩
  | date d =>
    refine ⟨_, .quoted d.text, _, .date d, rfl, ?_, beq_self_eq_true d⟩
    rw [scalar?, Date.ofText?_text]
    rfl
  | dateTime t =>
    refine ⟨_, .quoted t.text, _, .dateTime t, rfl, ?_, beq_self_eq_true t⟩
    rw [scalar?, DateTime.ofText?_text]
    rfl
  | @enum name s constants known =>
    have hknown : constants.contains s = true := by simpa using known
    refine ⟨_, .single legible, _, .enum s, rfl, ?_, beq_self_eq_true s⟩
    exact if_pos hknown
  | ref => cases l <;> cases h
  | element => cases l <;> cases h

namespace Registry

variable {r : Registry} {context : QueryContext} {property : String} {type : PropertyType}
  {v : Value}

/-- References are equal if their ids are. -/
lemma ref_beq (name : String) {v w : Value} (h : (w == v) = true) :
    (Value.ref name w == .ref name v) = true := by
  change (name == name && w.beq v) = true
  rw [beq_self_eq_true, Bool.true_and]
  exact h

/-- **Conversion**: a legible value that a literal was converted to is written as one token, whose
content is converted to an equal value. -/
lemma exists_kind_of_convert {site : OperandSite} {l : Literal}
    (untyped : l.Untyped) (h : r.convert site type l = .ok v) (legible : v.Legible) :
    ∃ kind, Lexes v.literal.toList [kind, .endOfInput] ∧ ∃ l' w, kind.literal? = some l' ∧
      r.convert site type l' = .ok w ∧ (w == v) = true := by
  replace h := convert_eq_ok.mp h
  induction h with
  | element _ ih =>
    obtain ⟨kind, hlexes, l', w, hkind, hconvert, hbeq⟩ := ih legible
    exact ⟨kind, hlexes, l', w, hkind, (convert_collection _).trans hconvert, hbeq⟩
  | reference hv =>
    -- only a typed value is a reference already
    cases l with
    | typed w => exact absurd rfl (untyped w)
    | _ => cases hv
  | @id name _ _ _ known _ ih =>
    obtain ⟨kind, hlexes, l', w, hkind, hconvert, hbeq⟩ := ih legible
    have hplain : l'.reference? name = none := by
      cases kind <;> cases hkind <;> rfl
    refine ⟨kind, hlexes, l', .ref name w, hkind, ?_, ref_beq name hbeq⟩
    rw [convert_entity hplain known, hconvert]
    rfl
  | scalar hv =>
    obtain ⟨kind, hlexes, l', w, hkind, hscalar, hbeq⟩ := Literal.exists_kind_of_scalar? hv legible
    exact ⟨kind, hlexes, l', w, hkind, convert_of_scalar? hscalar, hbeq⟩

/-- The value of an operand without a type is null, the value of a clock function, or converted from
a literal without a type. -/
lemma coerce_cases {o : Operand} (untyped : o.Untyped)
    (h : r.coerce context property type o = .ok v) :
    v.isNull = true ∨ (∃ l : Literal, l.scalar? type = some v) ∨
      ∃ l site, l.Untyped ∧ r.convert site type l = .ok v := by
  unfold coerce at h
  split at h
  case h_1 | h_2 => exact .inl (Except.ok.inj h ▸ rfl)
  case h_7 w _ => exact absurd rfl (untyped w)
  case h_8 f =>
    unfold functionValue at h
    split at h
    · split at h
      · cases h
      · exact .inr (.inr ⟨_, _, fun _ => by simp, h⟩)
    · split at h
      · obtain rfl := Except.ok.inj h
        exact .inr (.inl ⟨.typed (.date _), rfl⟩)
      · obtain rfl := Except.ok.inj h
        exact .inr (.inl ⟨.typed (.dateTime _), rfl⟩)
      · cases h
  case h_9 => cases h
  all_goals exact .inr (.inr ⟨_, _, fun _ => by simp, h⟩)

/-- **Written**: a legible value that an operand was converted to is read back. -/
theorem readsBack_of_legible {o : Operand} (untyped : o.Untyped)
    (h : r.coerce context property type o = .ok v) (present : v.isNull = false)
    (legible : v.Legible) : r.ReadsBack context property type v := by
  obtain ⟨kind, hlexes, l, w, hkind, hconvert, hbeq⟩ : ∃ kind,
      Lexes v.literal.toList [kind, .endOfInput] ∧ ∃ l w, kind.literal? = some l ∧
        (∀ site, r.convert site type l = .ok w) ∧ (w == v) = true := by
    rcases coerce_cases untyped h with hnull | ⟨l, hscalar⟩ | ⟨l, site, hl, hconvert⟩
    · rw [present] at hnull
      cases hnull
    · obtain ⟨kind, hlexes, l', w, hkind, hscalar', hbeq⟩ :=
        Literal.exists_kind_of_scalar? hscalar legible
      exact ⟨kind, hlexes, l', w, hkind, fun site => convert_of_scalar? hscalar', hbeq⟩
    · obtain ⟨kind, hlexes, l', w, hkind, hconvert', hbeq⟩ :=
        exists_kind_of_convert hl hconvert legible
      exact ⟨kind, hlexes, l', w, hkind, fun site' => convert_site hconvert' site', hbeq⟩
  obtain ⟨tokens, htokens, hkinds⟩ := hlexes .start
  cases kind <;> cases hkind
  case name s | int i | float d | string s =>
    exact ⟨tokens, _, _, w, htokens, hkinds, fun op => rfl, hconvert _, hbeq⟩

end Registry

/-! ### Reading -/

/-- A number whose plain text has tokens is legible, apart from not a number. -/
lemma Double.legible_of_tokenize {d : Double} {tokens : List Token} (hnan : d ≠ .nan)
    (h : tokenize d.plainText = .ok tokens) : d.Legible := by
  cases d with
  | nan => exact absurd rfl hnan
  | infinite negative =>
    cases negative with
    | false => rfl
    | true =>
      have hname : Lexeme.startsName '-' = false :=
        Lexeme.startsName_eq_false (by decide) (by decide) (by decide)
      have hread : Lexeme.read '-' ['i', 'n', 'f'] = .error (.unexpectedCharacter '-', 0) := by
        simp [Lexeme.read, hname]
      exact absurd h (tokensFrom_ne_ok .start (by decide) hread tokens)
  | finite negative units representable =>
    rcases exists_plainText negative representable with ⟨hwhole, htext⟩ | hsmall
    · have hfit := fitInt64?_whole negative representable hwhole
      obtain ⟨c, cs, hchars, hstart, hnumber⟩ :=
        Lexeme.exists_number_numeral negative (whole .upper units) Lexeme.endsNumber_nil
      split at hfit
      · exact hfit.1
      · rename_i hnone
        have hspace : Text.isSpace c = false := by
          rcases hstart with hc | ⟨rfl, -⟩
          · exact Text.isSpace_of_isDigit hc
          · decide
        simp only [hnone, List.append_nil] at hnumber
        rw [List.append_nil] at hstart
        rw [tokenize, htext, hchars] at h
        exact absurd h (tokensFrom_ne_ok .start hspace
          ((Lexeme.read_of_number hstart).trans hnumber) tokens)
    · exact hsmall.1

namespace Value

variable {v w : Value}

lemma literal_identity (v : Value) : v.identity.literal = v.literal := by
  fun_induction identity v with
  | case1 name id ih => rw [ih, literal]
  | case2 => rfl

lemma identity_ne_ref (v : Value) (name : String) (id : Value) : v.identity ≠ .ref name id := by
  fun_induction identity v with
  | case1 _ _ ih => exact ih
  | case2 v hv => exact hv name id

lemma legible_identity (v : Value) : v.identity.Legible ↔ v.Legible := by
  fun_induction identity v with
  | case1 name id ih => exact ih
  | case2 => rfl

/-- Equal values have equal identities. -/
lemma identity_beq (h : (w == v) = true) : (w.identity == v.identity) = true := by
  fun_induction identity v generalizing w with
  | case1 name id ih =>
    cases w with
    | ref name' id' => exact ih (w := id') (Bool.and_eq_true_iff.mp h).2
    | _ => cases h
  | case2 v hv =>
    cases w with
    | ref name' id' =>
      cases v with
      | ref name id => exact absurd rfl (hv name id)
      | _ => cases h
    | _ => exact h

end Value

namespace Registry

variable {r : Registry} {context : QueryContext} {property : String} {type : PropertyType}
  {v : Value}

/-- A constant is converted from its own name. -/
lemma text_of_convert {site : OperandSite} {l : Literal} {s : String}
    (untyped : l.Untyped) (h : r.convert site type l = .ok v)
    (hidentity : v.identity = .enum s) : l = .text s := by
  replace h := convert_eq_ok.mp h
  induction h with
  | element _ ih => exact ih hidentity
  | reference hv =>
    cases l with
    | typed w => exact absurd rfl (untyped w)
    | _ => cases hv
  | id _ _ _ ih => exact ih hidentity
  | scalar hv =>
    have htyped := isOperand_of_scalar? (r := r) hv
    cases htyped with
    | enum known =>
      obtain rfl := Value.enum.inj hidentity
      cases l with
      | text t =>
        simp only [Literal.scalar?] at hv
        split at hv
        · rw [Value.enum.inj (Option.some.inj hv)]
        · cases hv
      | typed w => exact absurd rfl (untyped w)
      | _ => cases hv
    | ref => cases l <;> cases hv
    | element => cases l <;> cases hv
    | _ => cases hidentity

/-- **Read**: a value that is read back from its literal is legible. -/
theorem legible_of_readsBack (h : r.ReadsBack context property type v) : v.Legible := by
  obtain ⟨tokens, kind, o, w, htokens, hkinds, hoperand, hcoerce, hbeq⟩ := h
  have hidentity := Value.identity_beq hbeq
  rw [← Value.literal_identity] at htokens
  rw [← Value.legible_identity]
  cases hv : v.identity with
  | float d =>
    rw [hv] at htokens hidentity
    refine Double.legible_of_tokenize ?_ htokens
    rintro rfl
    cases hw : w.identity with
    | float e =>
      rw [hw] at hidentity
      obtain ⟨x, -, hx⟩ := Double.beq_iff.mp hidentity
      cases hx
    | _ =>
      rw [hw] at hidentity
      cases hidentity
  | enum s =>
    rw [hv] at htokens hidentity
    have hw : w.identity = .enum s := by
      cases hw : w.identity with
      | enum t =>
        rw [hw] at hidentity
        exact congrArg Value.enum (beq_iff_eq.mp hidentity)
      | _ =>
        rw [hw] at hidentity
        cases hidentity
    have hmem : kind ∈ tokens.map Token.kind := by simp [hkinds]
    have hoperand := hoperand .eq
    cases kind with
    | name n =>
      cases hoperand
      cases text_of_convert (fun _ => by simp) hcoerce hw
      exact named_tokensFrom htokens s hmem
    | string t =>
      cases hoperand
      cases text_of_convert (fun _ => by simp) hcoerce hw
      exact absurd (length_of_mem_string htokens hmem) (Nat.lt_irrefl _)
    | int i =>
      cases hoperand
      cases text_of_convert (fun _ => by simp) hcoerce hw
    | float d =>
      cases hoperand
      cases text_of_convert (fun _ => by simp) hcoerce hw
    | keyword k =>
      cases k with
      | null =>
        cases hoperand
        obtain rfl := Except.ok.inj hcoerce
        cases hw
      | _ => cases hoperand
    | sign c => cases c <;> cases hoperand
    | endOfInput => cases hoperand
  | ref name id => exact absurd hv (Value.identity_ne_ref v name id)
  | _ => trivial

/-- **Literals mean their values**: a value that an operand without a type was converted to is read
back from its literal if it is legible, and only then. -/
theorem readsBack_iff_legible {o : Operand} (untyped : o.Untyped)
    (h : r.coerce context property type o = .ok v) (present : v.isNull = false) :
    r.ReadsBack context property type v ↔ v.Legible :=
  ⟨legible_of_readsBack, readsBack_of_legible untyped h present⟩

end Registry

namespace Races

/-- Results of runners, who have numbers for ids. -/
def registry : Registry :=
  ⟨[⟨"Result", "id", [⟨"id", .text, false, none⟩, ⟨"score", .float, true, none⟩,
      ⟨"runner", .entity "Runner", true, none⟩]⟩,
    ⟨"Runner", "number", [⟨"number", .int, false, none⟩]⟩]⟩

/-- Nobody asks, at the beginning of time. -/
def context : QueryContext :=
  ⟨.startOf default, none⟩

end Races

open Races in
/-- A runner is written as the number, and read back from it. -/
theorem readsBack_iff_legible_runner :
    registry.coerce context "runner" (.entity "Runner") (.integer 7) =
        .ok (.ref "Runner" (.int 7)) ∧
      (registry.ReadsBack context "runner" (.entity "Runner") (.ref "Runner" (.int 7)) ↔
        (Value.ref "Runner" (.int 7)).Legible) := by
  have h : registry.coerce context "runner" (.entity "Runner") (.integer 7) =
      .ok (.ref "Runner" (.int 7)) := by
    exact Registry.convert_eq_ok.mpr (.id rfl rfl (.scalar rfl))
  exact ⟨h, Registry.readsBack_iff_legible (fun _ => by simp) h rfl⟩

open Races in
/-- A large number is read with an exponent, but written without one it is an integer that is out of
range. -/
theorem exists_number_not_readsBack : ∃ tokens d, tokenize "1e19" = .ok tokens ∧
    tokens.map Token.kind = [.float d, .endOfInput] ∧ d ≠ .nan ∧
    registry.coerce context "score" .float (.decimal d) = .ok (.float d) ∧
    ¬ registry.ReadsBack context "score" .float (.float d) := by
  have hproper : (WrittenDecimal.mk ['1'] [] (some 19)).Proper :=
    ⟨by simp, List.forall_mem_singleton.mpr rfl, by simp, fun _ => rfl⟩
  have hchars : Text.signChars false ++ (WrittenDecimal.mk ['1'] [] (some 19)).chars ++ [] =
      "1e19".toList := by
    decide +kernel
  have hlexes := Lexes.number
    (Lexeme.exists_number_chars hproper false Lexeme.endsNumber_nil) .nil
  rw [hchars] at hlexes
  obtain ⟨tokens, htokens, hkinds⟩ := hlexes .start
  have hlarge : ¬ ((WrittenDecimal.mk ['1'] [] (some 19)).value false).Legible := by
    decide +kernel
  have hnan : (WrittenDecimal.mk ['1'] [] (some 19)).value false ≠ .nan := by
    decide +kernel
  generalize (WrittenDecimal.mk ['1'] [] (some 19)).value false = d at hkinds hlarge hnan
  refine ⟨tokens, d, htokens, hkinds, hnan, ?_, fun h => hlarge (Registry.legible_of_readsBack h)⟩
  exact Registry.convert_of_scalar? rfl

end EntityQuery
