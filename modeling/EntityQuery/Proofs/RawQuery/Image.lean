import EntityQuery.Proofs.Predicate.Truth
import EntityQuery.Proofs.RawQuery.RereadWhole
import EntityQuery.Proofs.Token.Content

/-!
# What is read is well formed

Each reader passes on the tokens that it leaves. What it makes of the others is well formed, if the
names among them are no reserved words and its decimals are finite.
-/

namespace EntityQuery

namespace Tokens

variable {ts rest : Tokens}

/-! ### Conditions -/

lemma isPath_of_path {p : String} (named : Named ts) (h : path ts = .ok (p, rest)) :
    IsPath p ∧ Named rest := by
  fun_induction path ts generalizing p with
  | case1 n more ih =>
    obtain ⟨⟨q, rest'⟩, hmore, hresult⟩ := exists_of_map_eq_ok h
    obtain ⟨rfl, rfl⟩ := Prod.mk.inj hresult
    obtain ⟨hq, hrest⟩ := ih named.tail.tail.tail.tail hmore
    rw [stepText_true_dot]
    exact ⟨.step named.head hq, hrest⟩
  | case2 n more =>
    obtain ⟨rfl, rfl⟩ := Prod.mk.inj (Except.ok.inj h)
    have hpath : IsPath (stepText n true) := .last named.head
    exact ⟨hpath, named.tail.tail.tail⟩
  | case4 n more ih =>
    obtain ⟨⟨q, rest'⟩, hmore, hresult⟩ := exists_of_map_eq_ok h
    obtain ⟨rfl, rfl⟩ := Prod.mk.inj hresult
    obtain ⟨hq, hrest⟩ := ih named.tail.tail hmore
    rw [← stepText_false n]
    exact ⟨.step named.head hq, hrest⟩
  | case5 n more =>
    obtain ⟨rfl, rfl⟩ := Prod.mk.inj (Except.ok.inj h)
    exact ⟨.of_isName named.head, named.tail⟩
  | case3 | case6 => cases h

lemma operator_suffix {op : Operator} (h : operator ts = .ok (op, rest)) : rest <:+ ts := by
  have habsence : ∀ a b (ts : Tokens), operator.absence a b ts = .ok (op, rest) → rest <:+ ts := by
    intro a b ts h
    unfold operator.absence at h
    split at h
    · obtain ⟨-, rfl⟩ := Prod.mk.inj (Except.ok.inj h)
      exact List.suffix_cons ..
    · split at h
      · obtain ⟨-, rfl⟩ := Prod.mk.inj (Except.ok.inj h)
        exact List.suffix_cons ..
      · cases h
    · cases h
  unfold operator at h
  split at h
  case h_15 | h_18 => cases h
  case h_16 | h_17 =>
    have hsuffix := habsence _ _ _ h
    first
      | exact hsuffix.trans (List.suffix_cons ..)
      | exact hsuffix.trans ((List.suffix_cons ..).trans (List.suffix_cons ..))
  all_goals
    obtain ⟨-, rfl⟩ := Prod.mk.inj (Except.ok.inj h)
    first | exact List.suffix_cons .. | exact (List.suffix_cons ..).trans (List.suffix_cons ..)

lemma literal_suffix {o : Operand} (h : literal ts = .ok (o, rest)) : rest <:+ ts := by
  unfold literal at h
  split at h
  case h_5 =>
    split at h
    · cases h
    · split at h
      · obtain ⟨-, rfl⟩ := Prod.mk.inj (Except.ok.inj h)
        exact (List.suffix_cons ..).trans ((List.suffix_cons ..).trans (List.suffix_cons ..))
      · cases h
  case h_7 => cases h
  all_goals
    obtain ⟨-, rfl⟩ := Prod.mk.inj (Except.ok.inj h)
    exact List.suffix_cons ..

/-- What a literal is read as, unless it is a decimal that is not finite. -/
lemma isLiteral_of_literal {o : Operand} (named : Named ts) (h : literal ts = .ok (o, rest))
    (finite : ∀ d ∈ o.decimals, d.isFinite = true) : o.IsLiteral := by
  unfold literal at h
  split at h
  case h_5 =>
    split at h
    · cases h
    · split at h
      · obtain ⟨rfl, -⟩ := Prod.mk.inj (Except.ok.inj h)
        exact .function _
      · cases h
  case h_7 => cases h
  all_goals obtain ⟨rfl, -⟩ := Prod.mk.inj (Except.ok.inj h)
  · exact .string _
  · exact .integer _
  · exact .decimal (finite _ (by simp [Operand.decimals]))
  · exact .null
  · exact .word named.head

lemma isLiteral_of_literals {os : List Operand} (named : Named ts)
    (h : literals ts = .ok (os, rest)) :
    os ≠ [] ∧ (∀ o ∈ os, (∀ d ∈ o.decimals, d.isFinite = true) → o.IsLiteral) ∧ Named rest := by
  fun_induction literals ts generalizing os with
  | case1 => cases h
  | case2 ts o more hliteral _ ih =>
    obtain ⟨⟨qs, rest'⟩, hmore, hresult⟩ := exists_of_map_eq_ok h
    obtain ⟨rfl, rfl⟩ := Prod.mk.inj hresult
    obtain ⟨-, hqs, hrest⟩ := ih (named.of_suffix (literal_suffix hliteral)).tail hmore
    refine ⟨by simp, fun q hq => ?_, hrest⟩
    rcases List.mem_cons.mp hq with rfl | hmem
    · exact isLiteral_of_literal named hliteral
    · exact hqs q hmem
  | case3 ts o more _ hliteral =>
    obtain ⟨rfl, rfl⟩ := Prod.mk.inj (Except.ok.inj h)
    refine ⟨by simp, fun q hq => ?_, named.of_suffix (literal_suffix hliteral)⟩
    obtain rfl := List.mem_singleton.mp hq
    exact isLiteral_of_literal named hliteral

/-- What an operand is read as, unless a decimal in it is not finite. -/
lemma takes_of_operand {op : Operator} {o : Operand} (named : Named ts)
    (binary : op.isUnary = false) (h : operand op ts = .ok (o, rest)) :
    ((∀ d ∈ o.decimals, d.isFinite = true) → op.Takes (some o)) ∧ Named rest := by
  unfold operand at h
  split at h
  · rename_i more
    split at h
    · rename_i accepts
      cases hliterals : literals more with
      | error e => simp [hliterals] at h
      | ok r =>
        obtain ⟨os, rest'⟩ := r
        simp only [hliterals] at h
        obtain ⟨rest'', hsign, hresult⟩ := exists_of_map_eq_ok h
        obtain ⟨rfl, rfl⟩ := Prod.mk.inj hresult
        obtain ⟨filled, hos, hrest⟩ := isLiteral_of_literals named.tail hliterals
        rw [sign_eq hsign] at hrest
        refine ⟨fun finite => ?_, hrest.tail⟩
        refine .list accepts filled fun o ho => hos o ho fun d hd => ?_
        exact finite d (Operand.mem_decimalsOfAll.mpr ⟨o, ho, hd⟩)
    · cases h
  · obtain ⟨⟨q, rest'⟩, hliteral, hresult⟩ := exists_of_map_eq_ok h
    obtain ⟨rfl, rfl⟩ := Prod.mk.inj hresult
    refine ⟨fun finite => ?_, named.of_suffix (literal_suffix hliteral)⟩
    by_cases hlist : op.takesList = true
    · -- a single value where a list is wanted
      rw [if_pos hlist] at finite ⊢
      have accepts : op.acceptsList = true := by
        cases op <;> first | rfl | cases hlist
      refine .list accepts (by simp) fun p hp => ?_
      obtain rfl := List.mem_singleton.mp hp
      exact isLiteral_of_literal named hliteral fun d hd =>
        finite d (Operand.mem_decimalsOfAll.mpr ⟨p, hp, hd⟩)
    · rw [if_neg hlist] at finite ⊢
      rw [Bool.not_eq_true] at hlist
      exact .literal binary hlist (isLiteral_of_literal named hliteral finite)

/-- A condition is well formed if its decimals are finite. -/
def Sound (c : RawCondition) : Prop :=
  (∀ d ∈ c.decimals, d.isFinite = true) → c.WellFormed

lemma sound_of_condition {c : RawCondition} (named : Named ts) (h : condition ts = .ok (c, rest)) :
    Sound c ∧ Named rest := by
  unfold condition at h
  cases hpath : path ts with
  | error e => simp [hpath] at h
  | ok first =>
    obtain ⟨property, rest₁⟩ := first
    obtain ⟨hproperty, hrest₁⟩ := isPath_of_path named hpath
    cases hoperator : operator rest₁ with
    | error e => simp [hpath, hoperator] at h
    | ok second =>
      obtain ⟨op, rest₂⟩ := second
      have hrest₂ := hrest₁.of_suffix (operator_suffix hoperator)
      simp only [hpath, hoperator] at h
      split at h
      · rename_i unary
        obtain ⟨rfl, rfl⟩ := Prod.mk.inj (Except.ok.inj h)
        exact ⟨fun _ => ⟨hproperty, .nothing unary⟩, hrest₂⟩
      · rename_i binary
        rw [Bool.not_eq_true] at binary
        obtain ⟨⟨o, rest₃⟩, hoperand, hresult⟩ := exists_of_map_eq_ok h
        obtain ⟨rfl, rfl⟩ := Prod.mk.inj hresult
        obtain ⟨htakes, hrest⟩ := takes_of_operand hrest₂ binary hoperand
        exact ⟨fun finite => ⟨hproperty, htakes finite⟩, hrest⟩

/-! ### Predicates -/

/-- What is read as an item of a junction, as long as few tokens are left. -/
def ItemsAreFlat (j : Junction) (n : Nat) : Prop :=
  ∀ ts p rest, ts.length ≤ n → Named ts → ReadsItem j ts p rest → p.Flat Sound ∧ Named rest

/-- What is read as a junction, as long as few tokens are left. -/
def JunctionsAreFlat (j : Junction) (n : Nat) : Prop :=
  ∀ ts p rest, ts.length ≤ n → Named ts → ReadsJunction j ts p rest → p.Flat Sound ∧ Named rest

variable {j : Junction} {n : Nat} {ps : List (Predicate RawCondition)}

lemma flat_of_readsMore (hitem : ItemsAreFlat j n) (hle : ts.length ≤ n) (named : Named ts)
    (h : ReadsMore j ts ps rest) : (∀ p ∈ ps, p.Flat Sound) ∧ Named rest := by
  induction ps generalizing ts with
  | nil =>
    rcases h.nil_or_cons with ⟨-, rfl⟩ | ⟨_, _, _, _, _, _, _, hcons⟩
    · exact ⟨by simp, named⟩
    · cases hcons
  | cons p ps ih =>
    rcases h.nil_or_cons with ⟨hnil, -⟩ | ⟨ts', q, qs, rest', rfl, hreads, hmore, hcons⟩
    · cases hnil
    · obtain ⟨rfl, rfl⟩ := List.cons.inj hcons
      rw [List.length_cons] at hle
      have hlt := hreads.1
      obtain ⟨hp, hrest'⟩ := hitem ts' p rest' (by omega) named.tail hreads
      obtain ⟨hps, hrest⟩ := ih (by omega) hrest' hmore
      exact ⟨List.forall_mem_cons.mpr ⟨hp, hps⟩, hrest⟩

lemma junctionsAreFlat (hitem : ItemsAreFlat j n) : JunctionsAreFlat j n := by
  intro ts p rest hle named h
  obtain ⟨q, qs, rest', hreads, hmore, rfl⟩ := h.exists_items
  have hlt := hreads.1
  obtain ⟨hq, hrest'⟩ := hitem ts q rest' hle named hreads
  obtain ⟨hqs, hrest⟩ := flat_of_readsMore hitem (by omega) hrest' hmore
  exact ⟨Predicate.flat_join (by simp) (List.forall_mem_cons.mpr ⟨hq, hqs⟩), hrest⟩

/-- A junction is read from fewer tokens when it stands in parentheses. -/
lemma itemsAreFlat_and (h : ∀ m < n, JunctionsAreFlat .or m) : ItemsAreFlat .and n := by
  intro ts p rest hle named hreads
  rcases hreads.enclosed_or_condition with ⟨ts', rfl, hjunction⟩ | ⟨c, hcondition, rfl⟩
  · rw [List.length_cons] at hle
    obtain ⟨hp, hrest⟩ := h ts'.length (by omega) ts' p _ (Nat.le_refl _) named.tail hjunction
    exact ⟨hp, hrest.tail⟩
  · obtain ⟨hc, hrest⟩ := sound_of_condition named hcondition
    exact ⟨.cond hc, hrest⟩

lemma junctionsAreFlat_or (n : Nat) : JunctionsAreFlat .or n := by
  induction n using Nat.strongRecOn with
  | ind n ih =>
    have hand : JunctionsAreFlat .and n := junctionsAreFlat (itemsAreFlat_and ih)
    have hor : ItemsAreFlat .or n := fun ts p rest hle named h =>
      hand ts p rest hle named h.junction
    exact junctionsAreFlat hor

/-! ### Sort clauses and queries -/

lemma isPath_of_order {o : Order String} (named : Named ts) (h : order ts = .ok (o, rest)) :
    IsPath o.property ∧ Named rest := by
  unfold order at h
  cases hpath : path ts with
  | error e => simp [hpath] at h
  | ok r =>
    obtain ⟨property, rest'⟩ := r
    obtain ⟨hproperty, hrest'⟩ := isPath_of_path named hpath
    simp only [hpath] at h
    split at h
    · obtain ⟨rfl, rfl⟩ := Prod.mk.inj (Except.ok.inj h)
      exact ⟨hproperty, hrest'.of_suffix (List.tail_suffix _)⟩
    · split at h
      · obtain ⟨rfl, rfl⟩ := Prod.mk.inj (Except.ok.inj h)
        exact ⟨hproperty, hrest'.of_suffix (List.tail_suffix _)⟩
      · cases h

lemma isPath_of_orders {os : List (Order String)} (named : Named ts)
    (h : orders ts = .ok (os, rest)) : ∀ o ∈ os, IsPath o.property := by
  fun_induction orders ts generalizing os with
  | case1 => cases h
  | case2 ts o more horder _ ih =>
    obtain ⟨ho, hmore⟩ := isPath_of_order named horder
    obtain ⟨⟨qs, rest'⟩, hothers, hresult⟩ := exists_of_map_eq_ok h
    obtain ⟨rfl, rfl⟩ := Prod.mk.inj hresult
    exact List.forall_mem_cons.mpr ⟨ho, ih hmore.tail hothers⟩
  | case3 ts o more _ horder =>
    obtain ⟨rfl, -⟩ := Prod.mk.inj (Except.ok.inj h)
    intro q hq
    obtain rfl := List.mem_singleton.mp hq
    exact (isPath_of_order named horder).1

lemma flat_of_predicate {p? : Option (Predicate RawCondition)} (named : Named ts)
    (h : predicate ts = .ok (p?, rest)) : (∀ p ∈ p?, p.Flat Sound) ∧ Named rest := by
  unfold predicate at h
  split at h
  · obtain ⟨rfl, rfl⟩ := Prod.mk.inj (Except.ok.inj h)
    exact ⟨by simp, named⟩
  · cases hjunction : junction .or ts with
    | error e => simp [hjunction] at h
    | ok r =>
      obtain ⟨p, rest', hlt⟩ := r
      simp only [hjunction, Except.ok.injEq, Prod.mk.injEq] at h
      obtain ⟨rfl, rfl⟩ := h
      obtain ⟨hp, hrest⟩ :=
        junctionsAreFlat_or ts.length ts p rest' (Nat.le_refl _) named ⟨hlt, hjunction⟩
      refine ⟨fun q hq => ?_, hrest⟩
      obtain rfl := Option.some.inj hq
      exact hp

/-- What a query is read as, but for the decimals that are not finite. -/
lemma sound_of_query {q : RawQuery} (named : Named ts) (h : query ts = .ok q) :
    (∀ p ∈ q.predicate, p.Flat Sound) ∧ ∀ o ∈ q.orders, IsPath o.property := by
  unfold query at h
  cases hpredicate : predicate ts with
  | error e => simp [hpredicate] at h
  | ok first =>
    obtain ⟨p?, rest₁⟩ := first
    obtain ⟨hp, hrest₁⟩ := flat_of_predicate named hpredicate
    simp only [hpredicate] at h
    cases hclauses : sortClauses rest₁ with
    | error e => simp [hclauses] at h
    | ok second =>
      obtain ⟨os, rest₂⟩ := second
      have hos : ∀ o ∈ os, IsPath o.property := by
        unfold sortClauses at hclauses
        split at hclauses
        · exact isPath_of_orders (hrest₁.of_suffix (List.drop_suffix _ _)) hclauses
        · obtain ⟨rfl, -⟩ := Prod.mk.inj (Except.ok.inj hclauses)
          simp
      simp only [hclauses] at h
      split at h
      · obtain rfl := Except.ok.inj h
        exact ⟨hp, hos⟩
      · cases h

end Tokens

namespace RawQuery

/-- **What is read** is well formed, if its decimals are finite. -/
theorem wellFormed_of_parse {text : String} {q : RawQuery} (h : parse text = .ok q)
    (finite : ∀ d ∈ q.decimals, d.isFinite = true) : q.WellFormed := by
  unfold parse at h
  cases htokens : tokenize text with
  | error e => simp [htokens] at h
  | ok tokens =>
    cases hquery : Tokens.query (tokens.map Token.kind) with
    | error r => simp [htokens, hquery] at h
    | ok q' =>
      obtain rfl : q' = q := by simpa [htokens, hquery] using h
      obtain ⟨hflat, horders⟩ := Tokens.sound_of_query (named_tokensFrom htokens) hquery
      refine ⟨fun p hp => (hflat p hp).imp fun c hc sound => sound fun d hd => finite d ?_, horders⟩
      rw [decimals, Option.mem_def.mp hp]
      exact List.mem_flatMap.mpr ⟨c, hc, hd⟩

/-- **Writing and reading** queries are inverse to each other: a well-formed query is read back from
its text, and a query that was read from any text is well formed and read back from its own, if its
decimals are finite. -/
theorem parse_text_inverse (q : RawQuery) :
    (q.WellFormed → parse q.text = .ok q) ∧
      ∀ text, parse text = .ok q → (∀ d ∈ q.decimals, d.isFinite = true) →
        q.WellFormed ∧ parse q.text = .ok q := by
  refine ⟨fun h => h.parse_text, fun text htext finite => ?_⟩
  have hwell := wellFormed_of_parse htext finite
  exact ⟨hwell, hwell.parse_text⟩

/-- A query that has a junction inside another, a list, a string with a quote in it and a decimal.
-/
def cheapOrNamed : RawQuery where
  predicate := some (.and [
    .cond ⟨"items[].kind", .isIn, some (.list [.word "NEW", .string "it's"])⟩,
    .or [.cond ⟨"price", .le, some (.decimal .zero)⟩, .cond ⟨"name", .isEmpty, none⟩]])
  orders := [⟨"name", .descending⟩]

/-- The query is written with all its parts and read back. -/
theorem cheapOrNamed_parse : cheapOrNamed.WellFormed ∧
    (∀ d ∈ cheapOrNamed.decimals, d.isFinite = true) ∧
    cheapOrNamed.text =
      "items[].kind in (NEW, 'it\\'s') and (price <= 0.0 or name is empty) order by name DESC" ∧
    parse cheapOrNamed.text = .ok cheapOrNamed := by
  have hkind : IsPath (stepText "items" true ++ "." ++ "kind") :=
    .step (by decide) (.of_isName (by decide))
  have hprice : IsPath "price" := .of_isName (by decide)
  have hname : IsPath "name" := .of_isName (by decide)
  have hnew : Operand.IsLiteral (.word "NEW") := .word (by decide)
  have hlist : Operator.Takes .isIn (some (.list [.word "NEW", .string "it's"])) :=
    .list rfl (by simp) (by simp [hnew, Operand.IsLiteral.string])
  have hor : Predicate.Flat RawCondition.WellFormed (.or [
      .cond ⟨"price", .le, some (.decimal .zero)⟩, .cond ⟨"name", .isEmpty, none⟩]) := by
    refine .or (by decide) (by simp) ?_
    simp only [List.forall_mem_cons]
    exact ⟨.cond ⟨hprice, .literal rfl rfl (.decimal rfl)⟩, .cond ⟨hname, .nothing rfl⟩, by simp⟩
  have hwell : cheapOrNamed.WellFormed := by
    refine ⟨fun p hp => ?_, by simp [cheapOrNamed, hname]⟩
    obtain rfl := Option.some.inj hp
    refine .and (by decide) (by simp) ?_
    simp only [List.forall_mem_cons]
    exact ⟨.cond ⟨hkind, hlist⟩, hor, by simp⟩
  have hparse := (parse_text_inverse cheapOrNamed).1 hwell
  have finite : ∀ d ∈ cheapOrNamed.decimals, d.isFinite = true := by
    simp [cheapOrNamed, decimals, RawCondition.decimals, Operand.decimals, Operand.decimalsOfAll]
    rfl
  have hagain := (parse_text_inverse cheapOrNamed).2 _ hparse finite
  exact ⟨hagain.1, finite, by decide +kernel, hagain.2⟩

end RawQuery

end EntityQuery
