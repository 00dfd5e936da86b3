import EntityQuery.Proofs.Token.Lexes
import Mathlib.Data.List.TakeWhile

/-!
# The content of tokens

What the tokens of a text say about it: the names among them are no reserved words, a string is
shorter than the text that it stands in, and a lexeme with a fault leaves no tokens.
-/

namespace EntityQuery

/-! ### Lexemes -/

namespace Lexeme

lemma kind_of_number {c : Char} {cs : List Char} {kind : TokenKind} {n : Nat}
    (h : number c cs = .ok (kind, n)) : (∃ i, kind = .int i) ∨ ∃ d, kind = .float d := by
  unfold number at h
  simp only [] at h
  split at h
  · rename_i kind' hkind
    obtain rfl : kind' = kind := (Prod.mk.inj (Except.ok.inj h)).1
    split at hkind
    · cases hkind
    · split at hkind
      · obtain ⟨i, -, rfl⟩ := Option.map_eq_some_iff.mp hkind
        exact .inl ⟨i, rfl⟩
      · obtain ⟨d, -, rfl⟩ := Option.map_eq_some_iff.mp hkind
        exact .inr ⟨d, rfl⟩
  · cases h

lemma isName_of_word {c : Char} {cs : List Char} {s : String} {n : Nat} (hc : startsName c = true)
    (h : word c cs = (.name s, n)) : IsName s := by
  have hcontinues : ∀ d ∈ cs.takeWhile continuesName, continuesName d = true :=
    fun d hd => List.mem_takeWhile_imp hd
  unfold word at h
  simp only [] at h
  split at h
  · cases (Prod.mk.inj h).1
  · rename_i hnone
    obtain rfl := TokenKind.name.inj (Prod.mk.inj h).1
    exact ⟨c, cs.takeWhile continuesName, String.toList_ofList, hc, hcontinues, hnone⟩

lemma isName_of_read {c : Char} {cs : List Char} {s : String} {n : Nat}
    (h : read c cs = .ok (.name s, n)) : IsName s := by
  unfold read at h
  split at h
  case h_14 =>
    split at h
    · -- a string
      split at h <;> cases h
    · split at h
      · rcases kind_of_number h with ⟨_, hkind⟩ | ⟨_, hkind⟩ <;> cases hkind
      · split at h
        · rename_i hc
          exact isName_of_word hc (Except.ok.inj h)
        · cases h
  all_goals cases h

lemma length_of_stringBody? {quote : Char} {cs body : List Char} {n : Nat}
    (h : stringBody? quote cs = some (body, n)) : body.length < n ∧ n ≤ cs.length := by
  fun_induction stringBody? quote cs generalizing body n with
  | case1 => cases h
  | case2 => cases h
  | case3 c cs ih =>
    obtain ⟨⟨body', n'⟩, hbody, hresult⟩ := Option.map_eq_some_iff.mp h
    obtain ⟨hshort, hfits⟩ := ih hbody
    simp only [] at hresult
    split at hresult <;> obtain ⟨rfl, rfl⟩ := Prod.mk.inj hresult <;>
      simp only [List.length_cons] <;> omega
  | case4 cs =>
    obtain ⟨rfl, rfl⟩ := Prod.mk.inj (Option.some.inj h)
    simp
  | case5 c cs _ _ _ ih =>
    obtain ⟨⟨body', n'⟩, hbody, hresult⟩ := Option.map_eq_some_iff.mp h
    obtain ⟨hshort, hfits⟩ := ih hbody
    obtain ⟨rfl, rfl⟩ := Prod.mk.inj hresult
    simp only [List.length_cons]
    omega

lemma length_of_read {c : Char} {cs : List Char} {s : String} {n : Nat}
    (h : read c cs = .ok (.string s, n)) : s.toList.length < (c :: cs).length := by
  unfold read at h
  split at h
  case h_14 =>
    split at h
    · split at h
      · rename_i body m hbody
        obtain ⟨hkind, -⟩ := Prod.mk.inj (Except.ok.inj h)
        obtain rfl := TokenKind.string.inj hkind
        obtain ⟨hshort, hfits⟩ := length_of_stringBody? hbody
        rw [String.toList_ofList, List.length_cons]
        omega
      · cases h
    · split at h
      · rcases kind_of_number h with ⟨_, hkind⟩ | ⟨_, hkind⟩ <;> cases hkind
      · split at h
        · unfold word at h
          simp only [] at h
          split at h <;> cases h
        · cases h
  all_goals cases h

end Lexeme

/-! ### Tokens -/

/-- A lexeme with a fault leaves a text without tokens. -/
lemma tokensFrom_ne_ok {c : Char} {cs : List Char} {fault : ParseFault × Nat} (p : Position)
    (hspace : Text.isSpace c = false) (hread : Lexeme.read c cs = .error fault)
    (tokens : List Token) : tokensFrom p (c :: cs) ≠ .ok tokens := by
  have hdrop : Text.dropSpace (c :: cs) = c :: cs := by
    rw [Text.dropSpace, List.dropWhile_cons, hspace]
    rfl
  rw [tokensFrom]
  split
  · rename_i hnil
    rw [hdrop] at hnil
    cases hnil
  · rename_i d ds hcons
    rw [hdrop] at hcons
    obtain ⟨rfl, rfl⟩ := List.cons.inj hcons
    simp [hread]

/-- The names among some tokens are names. -/
def Named (ts : List TokenKind) : Prop :=
  ∀ s, .name s ∈ ts → IsName s

lemma named_tokensFrom {p : Position} {cs : List Char} {tokens : List Token}
    (h : tokensFrom p cs = .ok tokens) : Named (tokens.map Token.kind) := by
  fun_induction tokensFrom p cs generalizing tokens with
  | case1 =>
    obtain rfl := Except.ok.inj h
    intro s hs
    simp at hs
  | case2 => cases h
  | case3 => cases h
  | case4 p cs p' c rest _ kind n hread more hmore =>
    rename_i ih
    obtain rfl := Except.ok.inj h
    intro s hs
    rcases List.mem_cons.mp hs with hkind | hmem
    · obtain rfl : kind = .name s := hkind.symm
      exact Lexeme.isName_of_read hread
    · exact ih hmore s hmem

namespace Named

variable {t : TokenKind} {ts : List TokenKind}

lemma tail (h : Named (t :: ts)) : Named ts :=
  fun s hs => h s (List.mem_cons_of_mem _ hs)

lemma head {n : String} (h : Named (.name n :: ts)) : IsName n :=
  h n (List.mem_cons_self ..)

lemma of_suffix {rest : List TokenKind} (h : Named ts) (suffix : rest <:+ ts) : Named rest :=
  fun s hs => h s (suffix.subset hs)

end Named

/-- A string is shorter than the text that it stands in. -/
lemma length_of_mem_string {p : Position} {cs : List Char} {tokens : List Token} {s : String}
    (h : tokensFrom p cs = .ok tokens) (hs : .string s ∈ tokens.map Token.kind) :
    s.toList.length < cs.length := by
  fun_induction tokensFrom p cs generalizing tokens with
  | case1 =>
    obtain rfl := Except.ok.inj h
    simp at hs
  | case2 => cases h
  | case3 => cases h
  | case4 p cs p' c rest hdrop kind n hread more hmore =>
    rename_i ih
    obtain rfl := Except.ok.inj h
    have hle : (c :: rest).length ≤ cs.length := by
      rw [← hdrop]
      exact (List.dropWhile_suffix Text.isSpace).length_le
    rcases List.mem_cons.mp hs with hkind | hmem
    · obtain rfl : kind = .string s := hkind.symm
      exact Nat.lt_of_lt_of_le (Lexeme.length_of_read hread) hle
    · have hlt := ih hmore hmem
      rw [List.length_drop] at hlt
      rw [List.length_cons] at hle
      omega

end EntityQuery
