import EntityQuery.Proofs.Dataset.Loaded
import EntityQuery.Proofs.Preparation.Equal

/-!
# Ids and the references to them

A reference is read without regard to the type of the ids it is for: it carries a text or an integer.
It leads to the record whose id has the same literal. That id is then the same text or integer, or an
equal number, unless it is of a type whose values documents write as texts.
-/

namespace EntityQuery

/-- A type whose values are written as texts in documents, and are none. -/
def PropertyType.isEncoded : PropertyType → Bool
  | .date | .dateTime | .enum _ _ => true
  | _ => false

/-- The ids that references carry when they are read. -/
inductive Value.IsCarried : Value → Prop where
  | text (s : String) : IsCarried (.text s)
  | int (i : Int64) : IsCarried (.int i)

/-- A text has tokens in one way. -/
lemma Lexes.unique {cs : List Char} {ks ks' : List TokenKind} (h : Lexes cs ks)
    (h' : Lexes cs ks') : ks = ks' := by
  obtain ⟨tokens, htokens, rfl⟩ := h .start
  obtain ⟨tokens', htokens', rfl⟩ := h' .start
  rw [Except.ok.inj (htokens.symm.trans htokens')]

lemma Lexes.integerText (i : Int64) :
    Lexes (Text.integerText i.toInt).toList [.int i, .endOfInput] := by
  have hlexes := Lexes.integer i Lexeme.endsNumber_nil .nil
  rwa [List.append_nil] at hlexes

/-- The plain text of a double that is written as an integer is the integer it equals. -/
lemma Double.ofInt_beq_of_plainText {d : Double} {i : Int64}
    (h : d.plainText = Text.integerText i.toInt) : (Double.ofInt i.toInt == d) = true := by
  have hlexes := Lexes.integerText i
  rw [← h] at hlexes
  have hnan : d ≠ .nan := by
    rintro rfl
    have hname : Lexes Double.nan.plainText.toList [.name "NaN", .endOfInput] :=
      Lexes.single (s := "NaN") (by decide)
    cases hlexes.unique hname
  obtain ⟨tokens, htokens, -⟩ := hlexes .start
  obtain ⟨kind, hkind, l, w, hliteral, hscalar, hequal⟩ :=
    (Double.legible_of_tokenize hnan htokens).exists_kind
  obtain rfl : .int i = kind := (List.cons.inj (hlexes.unique hkind)).1
  obtain rfl := Option.some.inj hliteral
  obtain rfl := Value.float.inj (Option.some.inj hscalar)
  exact hequal

/-- No double is written in quotes. -/
lemma Double.plainText_ne_quote (d : Double) (s : String) : d.plainText ≠ Text.quote s := by
  have hhead : d.plainText.toList.head? ≠ some '\'' := by
    cases d with
    | nan => decide
    | infinite negative => cases negative <;> decide
    | finite negative units representable =>
      have hdigit : ∀ cs : List Char, (∀ c ∈ cs.head?, c.isDigit = true) →
          (Text.signChars negative ++ cs).head? ≠ some '\'' := by
        intro cs hcs hquote
        cases negative with
        | true => cases hquote
        | false => cases hcs _ hquote
      rcases exists_plainText negative representable with ⟨-, htext⟩ | ⟨-, w, hw, -, htext⟩
      · rw [htext]
        exact hdigit _ fun c hc => Text.isDigit_of_mem_numeral (List.mem_of_head? hc)
      · obtain ⟨c, cs, hc, hchars⟩ := hw.exists_cons
        rw [htext, hchars]
        exact hdigit _ fun e he => Option.some.inj he ▸ hc
  intro h
  rw [h] at hhead
  exact hhead (by simp [Text.quote])

namespace Value

variable {target : String} {type : PropertyType} {j : Json} {v w id : Value}

/-! ### Reading -/

/-- A value that is not null, of a type that is no collection, is read as a scalar. -/
lemma scalarOfJson?_of_ofJson (single : type.isCollection = false) (h : ofJson type j = .ok v)
    (present : v.isNull = false) : scalarOfJson? type j = some v := by
  unfold ofJson at h
  split at h
  · cases single
  · cases single
  · obtain rfl := Except.ok.inj h
    cases present
  · split at h
    · rename_i w hw
      rw [hw, Except.ok.inj h]
    · cases h

/-- A reference carries a text or an integer. -/
lemma isCarried_of_ofJson (h : ofJson (.entity target) j = .ok v) :
    v = .null ∨ ∃ id, v = .ref target id ∧ id.IsCarried := by
  cases hv : v.isNull with
  | true => exact .inl (by cases v <;> first | rfl | cases hv)
  | false =>
    have hscalar := scalarOfJson?_of_ofJson rfl h hv
    cases j <;> try cases hscalar
    · obtain ⟨i, -, rfl⟩ := Option.map_eq_some_iff.mp hscalar
      exact .inr ⟨_, rfl, .int i⟩
    · exact .inr ⟨_, rfl, .text _⟩

/-- The elements of a list are read one by one. -/
lemma items_of_ofJson {element : PropertyType} (h : ofJson (.collection element) j = .ok v) :
    ∃ items, v = .list items ∧ ∀ w ∈ items, ∃ j, ofJson element j = .ok w := by
  cases j with
  | null =>
    obtain rfl := Except.ok.inj h
    exact ⟨[], rfl, by simp⟩
  | array js =>
    rw [ofJson] at h
    cases hall : convertAll (ofJson element) js with
    | error e => simp [hall, Except.map] at h
    | ok items =>
      simp only [hall, Except.map, Except.ok.injEq] at h
      subst h
      refine ⟨items, rfl, fun w hw => ?_⟩
      have hitems := forall₂_of_convertAll hall
      clear hall
      induction hitems with
      | nil => cases hw
      | @cons j v js items hv _ ih =>
        rcases List.mem_cons.mp hw with rfl | hw
        · exact ⟨j, hv⟩
        · exact ih hw
  | _ =>
    rw [ofJson] at h
    · cases h
    all_goals simp

/-! ### Literals -/

/-- Texts and integers with the same literal are the same. -/
lemma IsCarried.eq_of_literal (hv : v.IsCarried) (hw : w.IsCarried) (h : v.literal = w.literal) :
    v = w := by
  have hchars : v.literal.toList = w.literal.toList := congrArg String.toList h
  cases hv <;> cases hw
  case text.text s t =>
    have hlexes := Lexes.quoted s
    rw [show (Text.quote s).toList = (Text.quote t).toList from hchars] at hlexes
    rw [TokenKind.string.inj (List.cons.inj (hlexes.unique (Lexes.quoted t))).1]
  case int.int i k =>
    have hlexes := Lexes.integerText i
    rw [show (Text.integerText i.toInt).toList = _ from hchars] at hlexes
    rw [TokenKind.int.inj (List.cons.inj (hlexes.unique (Lexes.integerText k))).1]
  case text.int s i =>
    have hlexes := Lexes.quoted s
    rw [show (Text.quote s).toList = _ from hchars] at hlexes
    cases hlexes.unique (Lexes.integerText i)
  case int.text i s =>
    have hlexes := Lexes.integerText i
    rw [show (Text.integerText i.toInt).toList = _ from hchars] at hlexes
    cases hlexes.unique (Lexes.quoted s)

/-- No text and no integer is written as a name. -/
lemma IsCarried.literal_ne_name (h : id.IsCarried) {s : String} (hs : IsName s) : id.literal ≠ s := by
  rintro rfl
  cases h with
  | text t => cases (Lexes.quoted t).unique (Lexes.single hs)
  | int i => cases (Lexes.integerText i).unique (Lexes.single hs)

/-- No text and no integer is written as a list. -/
lemma IsCarried.literal_ne_list (h : id.IsCarried) (items : List Value) :
    id.literal ≠ (list items).literal := by
  have hlist : (list items).literal.toList.head? = some '(' := by
    simp [literal, Text.bracketed]
  intro heq
  rw [← heq] at hlist
  cases h with
  | text s => simp [literal, Text.quote] at hlist
  | int i =>
    rw [literal, Text.integerText, String.toList_ofList] at hlist
    split at hlist
    · cases hlist
    · have hdigit := Text.isDigit_of_mem_numeral (List.mem_of_head? hlist)
      cases hdigit

/-! ### References and ids -/

/-- Values with the same identity are equal to the same values. -/
lemma sameAs_of_identity (h : v.identity = w.identity) (u : Value) : v.sameAs u = w.sameAs u := by
  rw [sameAs, sameAs, h]

/-- A number is equal to the same numbers as the integer that it equals. -/
lemma sameAs_of_ofInt {i : Int64} {d : Double} (h : (Double.ofInt i.toInt == d) = true)
    {u : Value} (hu : ∃ e, u.identity = .float e) : (float d).sameAs u = (int i).sameAs u := by
  obtain ⟨e, he⟩ := hu
  simp only [sameAs, identity, he]
  exact ((Double.beq_congr h e).1).symm

/-- **Identity**: the id of a record has the literal of an id that a reference carries. Then both are
the same for the operands that the ids are compared with, if their type is not encoded. -/
theorem sameAs_of_literal (hid : id.IsCarried) (hw : ofJson type j = .ok w)
    (present : w.isNull = false) (hliteral : w.literal = id.literal)
    (plain : type.isEncoded = false) {u : Value} (hu : type = .float → ∃ d, u.identity = .float d) :
    w.sameAs u = id.sameAs u := by
  have hcarried : ∀ v : Value, v.IsCarried → v.literal = w.literal → w.identity = v.identity →
      w.sameAs u = id.sameAs u := by
    intro v hv hvw hidentity
    rw [hv.eq_of_literal hid (hvw.trans hliteral)] at hidentity
    exact sameAs_of_identity hidentity u
  cases hcollection : type.isCollection with
  | true =>
    cases type with
    | collection element =>
      obtain ⟨items, rfl, -⟩ := items_of_ofJson hw
      exact absurd hliteral.symm (hid.literal_ne_list items)
    | _ => cases hcollection
  | false =>
    have hscalar := scalarOfJson?_of_ofJson hcollection hw present
    unfold scalarOfJson? at hscalar
    split at hscalar
    case h_1 =>
      obtain rfl := Option.some.inj hscalar
      exact hcarried _ (.text _) rfl rfl
    case h_2 =>
      obtain ⟨i, -, rfl⟩ := Option.map_eq_some_iff.mp hscalar
      exact hcarried _ (.int i) rfl rfl
    case h_3 n =>
      obtain rfl := Option.some.inj hscalar
      cases hid with
      | text s => exact absurd hliteral (Double.plainText_ne_quote _ s)
      | int i => exact sameAs_of_ofInt (Double.ofInt_beq_of_plainText hliteral) (hu rfl)
    case h_4 b =>
      obtain rfl := Option.some.inj hscalar
      have hname : IsName (Value.bool b).literal := by cases b <;> decide
      exact absurd hliteral.symm (hid.literal_ne_name hname)
    case h_5 | h_6 | h_7 => cases plain
    case h_8 s =>
      obtain rfl := Option.some.inj hscalar
      exact hcarried _ (.text s) rfl rfl
    case h_9 =>
      obtain ⟨i, -, rfl⟩ := Option.map_eq_some_iff.mp hscalar
      exact hcarried _ (.int i) rfl rfl
    case h_10 => cases hscalar

end Value

end EntityQuery
