import EntityQuery.Proofs.Predicate.Turned
import EntityQuery.Proofs.RawQuery.Reread
import Mathlib.Data.List.Basic

/-!
# Written predicates and queries are read back

A junction is read back from its items with connectives between them. An item of a conjunction ends
anywhere, and an item of a disjunction only where no further item of a conjunction comes, since it
is read as a conjunction of its own.
-/

namespace EntityQuery

namespace Tokens

/-! ### Items and junctions -/

/-- An item of a junction is read off the front of some tokens. -/
def ReadsItem (j : Junction) (ts : Tokens) (p : Predicate RawCondition) (rest : Tokens) : Prop :=
  ∃ h, item j ts = .ok (p, ⟨rest, h⟩)

/-- Further items of a junction are read off the front of some tokens. -/
def ReadsMore (j : Junction) (ts : Tokens) (ps : List (Predicate RawCondition)) (rest : Tokens) :
    Prop :=
  ∃ h, moreItems j ts = .ok (ps, ⟨rest, h⟩)

/-- A junction is read off the front of some tokens. -/
def ReadsJunction (j : Junction) (ts : Tokens) (p : Predicate RawCondition) (rest : Tokens) :
    Prop :=
  ∃ h, junction j ts = .ok (p, ⟨rest, h⟩)

/-- No connective of a junction comes next. -/
def EndsItems (j : Junction) (more : Tokens) : Prop :=
  ∀ t ∈ more.head?, t ≠ .keyword j.keyword

variable {j : Junction} {ts rest more : Tokens} {p : Predicate RawCondition}
  {ps : List (Predicate RawCondition)}

lemma readsMore_nil (h : EndsItems j more) : ReadsMore j more [] more := by
  refine ⟨Nat.le_refl _, ?_⟩
  rw [moreItems.eq_def]
  split
  · rename_i k rest
    have hk : k ≠ j.keyword := fun hk => h _ rfl (congrArg TokenKind.keyword hk)
    rw [if_neg hk]
  · rfl

lemma readsMore_cons (h : ReadsItem j ts p rest) (hrest : ReadsMore j rest ps more) :
    ReadsMore j (.keyword j.keyword :: ts) (p :: ps) more := by
  obtain ⟨hlt, h⟩ := h
  obtain ⟨hle, hrest⟩ := hrest
  refine ⟨?_, ?_⟩
  · rw [List.length_cons]
    omega
  · rw [moreItems, if_pos rfl]
    simp only [h, hrest]

lemma readsJunction_cons (h : ReadsItem j ts p rest) (hrest : ReadsMore j rest ps more) :
    ReadsJunction j ts (.join j (p :: ps)) more := by
  obtain ⟨hlt, h⟩ := h
  obtain ⟨hle, hrest⟩ := hrest
  refine ⟨by omega, ?_⟩
  rw [junction]
  simp only [h, hrest]

lemma readsItem_or (h : ReadsJunction .and ts p rest) : ReadsItem .or ts p rest := by
  obtain ⟨hlt, h⟩ := h
  exact ⟨hlt, by rw [item, h]⟩

lemma readsItem_condition {c : RawCondition} (h : condition ts = .ok (c, rest)) :
    ReadsItem .and ts (.cond c) rest := by
  refine ⟨condition_length h, ?_⟩
  rw [item.eq_def]
  simp only []
  split
  · -- a condition does not begin with a parenthesis
    cases h
  · split
    · rename_i e he
      rw [h] at he
      cases he
    · rename_i c' rest' hc
      rw [h] at hc
      cases hc
      rfl

lemma readsItem_enclosed (h : ReadsJunction .or ts p (.sign .rightParen :: rest)) :
    ReadsItem .and (.sign .leftParen :: ts) p rest := by
  obtain ⟨hlt, h⟩ := h
  rw [List.length_cons] at hlt
  refine ⟨by rw [List.length_cons]; omega, ?_⟩
  rw [item]
  simp only [h]
  split
  · rename_i e he
    cases he
  · rename_i rest' hrest
    cases hrest
    rfl

lemma ReadsJunction.exists_items (h : ReadsJunction j ts p more) :
    ∃ q qs rest, ReadsItem j ts q rest ∧ ReadsMore j rest qs more ∧ p = .join j (q :: qs) := by
  obtain ⟨hlt, h⟩ := h
  rw [junction] at h
  cases hitem : item j ts with
  | error e => simp [hitem] at h
  | ok first =>
    obtain ⟨q, rest, hlt'⟩ := first
    simp only [hitem] at h
    cases hmore : moreItems j rest with
    | error e => simp [hmore] at h
    | ok others =>
      obtain ⟨qs, rest', hle⟩ := others
      simp only [hmore, Except.ok.injEq, Prod.mk.injEq, Subtype.mk.injEq] at h
      obtain ⟨rfl, rfl⟩ := h
      exact ⟨q, qs, rest, ⟨hlt', hitem⟩, ⟨hle, hmore⟩, rfl⟩

/-- Further items are none, or one after a connective and further ones. -/
lemma ReadsMore.nil_or_cons (h : ReadsMore j ts ps more) :
    ps = [] ∧ more = ts ∨ ∃ ts' q qs rest, ts = .keyword j.keyword :: ts' ∧
      ReadsItem j ts' q rest ∧ ReadsMore j rest qs more ∧ ps = q :: qs := by
  obtain ⟨hle, h⟩ := h
  rw [moreItems.eq_def] at h
  split at h
  · rename_i k ts'
    split at h
    · rename_i hk
      cases hitem : item j ts' with
      | error e => simp [hitem] at h
      | ok first =>
        obtain ⟨q, rest, hlt'⟩ := first
        simp only [hitem] at h
        cases hmore : moreItems j rest with
        | error e => simp [hmore] at h
        | ok others =>
          obtain ⟨qs, rest', hle'⟩ := others
          simp only [hmore, Except.ok.injEq, Prod.mk.injEq, Subtype.mk.injEq] at h
          obtain ⟨rfl, rfl⟩ := h
          exact .inr ⟨ts', q, qs, rest, by rw [hk], ⟨hlt', hitem⟩, ⟨hle', hmore⟩, rfl⟩
    · simp only [Except.ok.injEq, Prod.mk.injEq, Subtype.mk.injEq] at h
      exact .inl ⟨h.1.symm, h.2.symm⟩
  · simp only [Except.ok.injEq, Prod.mk.injEq, Subtype.mk.injEq] at h
    exact .inl ⟨h.1.symm, h.2.symm⟩

lemma sign_eq {s : Sign} (h : sign s ts = .ok rest) : ts = .sign s :: rest := by
  unfold sign at h
  split at h
  · split at h
    · rename_i t ts' ht
      rw [ht, Except.ok.inj h]
    · cases h
  · cases h

lemma ReadsItem.junction (h : ReadsItem .or ts p rest) : ReadsJunction .and ts p rest := by
  obtain ⟨hlt, h⟩ := h
  rw [item] at h
  exact ⟨hlt, h⟩

/-- An item of a conjunction is a predicate in parentheses or a condition. -/
lemma ReadsItem.enclosed_or_condition (h : ReadsItem .and ts p more) :
    (∃ ts', ts = .sign .leftParen :: ts' ∧
      ReadsJunction .or ts' p (.sign .rightParen :: more)) ∨
    ∃ c, condition ts = .ok (c, more) ∧ p = .cond c := by
  obtain ⟨hlt, h⟩ := h
  rw [item.eq_def] at h
  simp only [] at h
  split at h
  · rename_i ts'
    cases hjunction : Tokens.junction .or ts' with
    | error e => simp [hjunction] at h
    | ok first =>
      obtain ⟨q, rest, hlt'⟩ := first
      simp only [hjunction] at h
      split at h
      · cases h
      · rename_i rest' hsign
        simp only [Except.ok.injEq, Prod.mk.injEq, Subtype.mk.injEq] at h
        obtain ⟨rfl, rfl⟩ := h
        obtain rfl := sign_eq hsign
        exact .inl ⟨ts', rfl, hlt', hjunction⟩
  · split at h
    · cases h
    · rename_i c rest hcondition
      simp only [Except.ok.injEq, Prod.mk.injEq, Subtype.mk.injEq] at h
      obtain ⟨rfl, rfl⟩ := h
      exact .inr ⟨c, hcondition, rfl⟩

/-- The connective of a junction as it is written. -/
def connective : Junction → String
  | .and => " and "
  | .or => " or "

lemma spells_connected (j : Junction) {text text' : String} {ts ts' : Tokens} (h : Spells text ts)
    (h' : Spells text' ts') :
    Spells (text ++ connective j ++ text') (ts ++ .keyword j.keyword :: ts') := by
  have hword : ∃ k, connective j = " " ++ k ++ " " ∧ Spells k [.keyword j.keyword] := by
    cases j with
    | and => exact ⟨"and", by decide, .word rfl rfl rfl rfl⟩
    | or => exact ⟨"or", by decide, .word rfl rfl rfl rfl⟩
  obtain ⟨k, hk, hkeyword⟩ := hword
  have hjoined := (h.joined hkeyword).joined h'
  rw [hk]
  simpa [String.append_assoc] using hjoined

/-- A junction is the items after a connective, without the connective. -/
lemma readsJunction_of_readsMore (hne : ps ≠ [])
    (h : ReadsMore j (.keyword j.keyword :: ts) ps more) :
    ReadsJunction j ts (.join j ps) more := by
  rcases h.nil_or_cons with ⟨rfl, -⟩ | ⟨ts', q, qs, rest, hts, hitem, hmore, rfl⟩
  · exact absurd rfl hne
  · obtain ⟨-, rfl⟩ := List.cons.inj hts
    exact readsJunction_cons hitem hmore

/-- A place where a predicate ends. -/
structure EndsPredicate (more : Tokens) : Prop where
  literal : EndsLiteral more
  items : ∀ j, EndsItems j more

section Written

/- Predicates of whatever conditions, as long as each is read back from the text that it is written
as. -/

variable {C : Type} {text : C → String} {read : C → RawCondition} {q : Predicate C}
  {qs : List (Predicate C)}

/-- A condition is read back from the text that it is written as. -/
def Rereads (text : C → String) (read : C → RawCondition) (c : C) : Prop :=
  Retrieves condition EndsLiteral (text c) (read c)

/-- A predicate that is written inside a junction is read as an item of a conjunction. -/
def Nested (text : C → String) (read : C → RawCondition) (q : Predicate C) (ts : Tokens) : Prop :=
  Spells (q.textAt text true) ts ∧
    ∀ more, EndsLiteral more → ReadsItem .and (ts ++ more) (q.turned false read) more

lemma Nested.readsItem (h : Nested text read q ts) (flat : q.Flat (Rereads text read))
    (literal : EndsLiteral more) (items : j = .or → EndsItems .and more) :
    ReadsItem j (ts ++ more) (q.turned false read) more := by
  have hitem := h.2 more literal
  cases j with
  | and => exact hitem
  | or =>
    have hjunction := readsJunction_cons hitem (readsMore_nil (items rfl))
    rw [Predicate.join_singleton flat.turned] at hjunction
    exact readsItem_or hjunction

/-- Items with connectives between them are read back. -/
lemma exists_items (j : Junction) (hne : qs ≠ [])
    (h : ∀ q ∈ qs, q.Flat (Rereads text read) ∧ ∃ ts, Nested text read q ts) :
    ∃ ts, Spells (String.intercalate (connective j) (Predicate.textsOf text qs)) ts ∧
      ∀ more, EndsPredicate more → ReadsMore j (.keyword j.keyword :: (ts ++ more))
        (qs.map (Predicate.turned false read)) more := by
  induction qs with
  | nil => exact absurd rfl hne
  | cons q qs ih =>
    obtain ⟨flat, ts, hnested⟩ := h q (by simp)
    cases qs with
    | nil =>
      refine ⟨ts, hnested.1, fun more stop => ?_⟩
      have hitem : ReadsItem j (ts ++ more) (q.turned false read) more :=
        hnested.readsItem flat stop.literal fun _ => stop.items .and
      exact readsMore_cons hitem (readsMore_nil (stop.items j))
    | cons q' qs =>
      obtain ⟨ts', hspells, hread⟩ := ih (by simp) fun q hq => h q (by simp [hq])
      refine ⟨ts ++ .keyword j.keyword :: ts', ?_, fun more stop => ?_⟩
      · have htext : String.intercalate (connective j) (Predicate.textsOf text (q :: q' :: qs)) =
            q.textAt text true ++ connective j ++
              String.intercalate (connective j) (Predicate.textsOf text (q' :: qs)) :=
          String.intercalate_cons_cons
        rw [htext]
        exact spells_connected j hnested.1 hspells
      · have hliteral : EndsLiteral (.keyword j.keyword :: (ts' ++ more)) :=
          forall_mem_head? (by simp)
        have hitems : j = .or → EndsItems .and (.keyword j.keyword :: (ts' ++ more)) := by
          rintro rfl
          exact forall_mem_head? (by decide)
        have hitem := hnested.readsItem flat hliteral hitems
        rw [List.append_assoc]
        exact readsMore_cons hitem (hread more stop)

/-- A predicate that is written on its own is read as a disjunction. -/
def Outer (text : C → String) (read : C → RawCondition) (q : Predicate C) (ts : Tokens) : Prop :=
  Spells (q.textAt text false) ts ∧
    ∀ more, EndsPredicate more → ReadsJunction .or (ts ++ more) (q.turned false read) more

lemma EndsPredicate.cons {t : TokenKind} (paren : t ≠ .sign .leftParen)
    (keyword : ∀ k, t ≠ .keyword k) : EndsPredicate (t :: more) :=
  ⟨forall_mem_head? paren, fun _ => forall_mem_head? (keyword _)⟩

/-- A predicate in parentheses. -/
lemma Outer.nested (h : Outer text read q ts)
    (htext : q.textAt text true = "(" ++ q.textAt text false ++ ")") :
    Nested text read q (.sign .leftParen :: (ts ++ [.sign .rightParen])) := by
  refine ⟨htext ▸ h.1.enclosed, fun more _ => ?_⟩
  have hjunction := h.2 (.sign .rightParen :: more) (.cons (by simp) (by simp))
  rw [List.cons_append, List.append_assoc]
  exact readsItem_enclosed hjunction

/-- An item of a conjunction is a predicate on its own. -/
lemma readsJunction_of_item (flat : p.Flat fun _ => True) (h : ReadsItem .and ts p more)
    (stop : EndsPredicate more) : ReadsJunction .or ts p more := by
  have hand := readsJunction_cons h (readsMore_nil (stop.items .and))
  rw [Predicate.join_singleton flat] at hand
  have hor := readsJunction_cons (readsItem_or hand) (readsMore_nil (stop.items .or))
  rwa [Predicate.join_singleton flat] at hor

/-- The junction of turned predicates that are apart is the turned junction. -/
lemma join_turned_of_apart (many : 2 ≤ qs.length) (apart : ∀ q ∈ qs, Predicate.Apart j q) :
    Predicate.join j (qs.map (Predicate.turned false read)) =
      (Predicate.junction j qs).turned false read := by
  have hjoin : Predicate.join (j.turned false) (qs.map (Predicate.turned false read)) =
      (Predicate.join j qs).turned false read := Predicate.join_turned j qs
  rw [Predicate.join_of_apart apart, Predicate.joined_eq_junction (by omega)] at hjoin
  exact hjoin

/-- **Predicates** are read back, inside a junction and on their own. -/
lemma exists_predicate (h : q.Flat (Rereads text read)) :
    (∃ ts, Nested text read q ts) ∧ ∃ ts, Outer text read q ts := by
  induction h with
  | @cond c h =>
    obtain ⟨ts, hspells, hread⟩ := h
    have hitem : ∀ more, EndsLiteral more → ReadsItem .and (ts ++ more) (.cond (read c)) more :=
      fun more stop => readsItem_condition (hread more stop)
    refine ⟨⟨ts, hspells, hitem⟩, ⟨ts, hspells, fun more stop => ?_⟩⟩
    exact readsJunction_of_item (.cond trivial) (hitem more stop.literal) stop
  | @and qs many apart all ih =>
    have flat : (Predicate.junction .and qs).Flat (Rereads text read) := .and many apart all
    obtain ⟨ts, hspells, hread⟩ := exists_items .and (Predicate.ne_nil_of_many many)
      fun q hq => ⟨all q hq, (ih q hq).1⟩
    have houter : Outer text read (.and qs) ts := by
      refine ⟨hspells, fun more stop => ?_⟩
      have hand := readsJunction_of_readsMore
        (by simpa using Predicate.ne_nil_of_many many) (hread more stop)
      rw [join_turned_of_apart (j := .and) many apart] at hand
      have hor := readsJunction_cons (readsItem_or hand) (readsMore_nil (stop.items .or))
      rwa [Predicate.join_singleton flat.turned] at hor
    exact ⟨⟨_, houter.nested rfl⟩, ⟨ts, houter⟩⟩
  | @or qs many apart all ih =>
    obtain ⟨ts, hspells, hread⟩ := exists_items .or (Predicate.ne_nil_of_many many)
      fun q hq => ⟨all q hq, (ih q hq).1⟩
    have houter : Outer text read (.or qs) ts := by
      refine ⟨hspells, fun more stop => ?_⟩
      have hor := readsJunction_of_readsMore
        (by simpa using Predicate.ne_nil_of_many many) (hread more stop)
      rwa [join_turned_of_apart (j := .or) many apart] at hor
    exact ⟨⟨_, houter.nested rfl⟩, ⟨ts, houter⟩⟩

end Written

/-! ### Sort clauses -/

section Sorted

variable {P : Type} {path : P → String}

/-- A sort clause as it is read. -/
def readOrder (path : P → String) (o : Order P) : Order String :=
  ⟨path o.property, o.direction⟩

lemma spells_direction (d : Direction) : Spells d.text [.name d.text] := by
  cases d <;> exact .word rfl rfl rfl rfl

/-- **Sort clauses** are read back. -/
lemma exists_order {o : Order P} (h : IsPath (path o.property)) :
    ∃ ts, Spells (o.text path) ts ∧ ∀ more, order (ts ++ more) = .ok (readOrder path o, more) := by
  obtain ⟨property, direction⟩ := o
  obtain ⟨ts, hspells, hpath⟩ := retrieves_path h
  refine ⟨ts ++ [.name direction.text], hspells.joined (spells_direction direction), fun more => ?_⟩
  have hstop : EndsPath (.name direction.text :: more) := forall_mem_head? (by simp)
  have hread := hpath _ hstop
  rw [List.append_assoc, List.singleton_append, order, hread]
  cases direction <;> rfl

lemma orders_last {o : Order String} (h : order ts = .ok (o, more))
    (stop : ∀ rest, more ≠ .sign .comma :: rest) : orders ts = .ok ([o], more) := by
  rw [orders]
  split
  · simp_all
  · rename_i o' rest ho
    rw [h] at ho
    exact absurd (Prod.mk.inj (Except.ok.inj ho)).2 (stop rest)
  · simp_all

lemma orders_cons {o : Order String} {os : List (Order String)}
    (h : order ts = .ok (o, .sign .comma :: rest)) (hrest : orders rest = .ok (os, more)) :
    orders ts = .ok (o :: os, more) := by
  rw [orders]
  split <;> simp_all [Except.map]

/-- Lists of sort clauses are read back at the end of a query. -/
lemma exists_orders {os : List (Order P)} (hne : os ≠ [])
    (h : ∀ o ∈ os, IsPath (path o.property)) :
    ∃ ts, Spells (String.intercalate ", " (os.map (Order.text path))) ts ∧
      orders (ts ++ [.endOfInput]) = .ok (os.map (readOrder path), [.endOfInput]) := by
  induction os with
  | nil => exact absurd rfl hne
  | cons o os ih =>
    obtain ⟨ts, hspells, hread⟩ := exists_order (h o (by simp))
    cases os with
    | nil => exact ⟨ts, hspells, orders_last (hread _) (by simp)⟩
    | cons o' os =>
      obtain ⟨ts', hspells', hread'⟩ := ih (by simp) fun o ho => h o (by simp [ho])
      refine ⟨ts ++ .sign .comma :: ts', ?_, ?_⟩
      · have htext : String.intercalate ", " ((o :: o' :: os).map (Order.text path)) =
            o.text path ++ ", " ++ String.intercalate ", " ((o' :: os).map (Order.text path)) :=
          String.intercalate_cons_cons
        rw [htext]
        exact hspells.separated hspells'
      · rw [List.append_assoc]
        exact orders_cons (hread _) hread'

end Sorted

/-! ### Queries -/

/-- A predicate comes next, and no sort clauses or the end. -/
def StartsPredicate (ts : Tokens) : Prop :=
  ¬ (ts.peek = .endOfInput ∨ ts.startsOrders = true)

lemma exists_name_of_startsWith {word : String} (h : ts.startsWith word = true) :
    ∃ n rest, ts = .name n :: rest := by
  unfold startsWith at h
  split at h
  · exact ⟨_, _, rfl⟩
  · cases h

lemma exists_names_of_startsOrders (h : ts.startsOrders = true) : ∃ a b rest,
    ts = .name a :: .name b :: rest ∧ sameWord a "order" = true ∧ sameWord b "by" = true := by
  rw [startsOrders, Bool.and_eq_true] at h
  obtain ⟨horder, hby⟩ := h
  obtain ⟨a, ts, rfl⟩ := exists_name_of_startsWith horder
  obtain ⟨b, ts, rfl⟩ := exists_name_of_startsWith hby
  exact ⟨a, b, ts, rfl, horder, hby⟩

/-- An operator comes after the first path of a condition, and not the word after `order`. -/
lemma startsPredicate_of_condition {c : RawCondition} (h : condition ts = .ok (c, rest)) :
    StartsPredicate ts := by
  rintro (hend | horders)
  · cases ts with
    | nil => cases h
    | cons t ts =>
      obtain rfl : t = .endOfInput := hend
      cases h
  · obtain ⟨a, b, ts, rfl, -⟩ := exists_names_of_startsOrders horders
    cases h

lemma startsPredicate_of_item (h : ReadsItem .and ts p rest) : StartsPredicate ts := by
  rcases h.enclosed_or_condition with ⟨ts', rfl, -⟩ | ⟨c, hcondition, -⟩
  · simp [StartsPredicate, peek, startsOrders, startsWith]
  · exact startsPredicate_of_condition hcondition

lemma startsPredicate (h : ReadsJunction .or ts p rest) : StartsPredicate ts := by
  obtain ⟨_, _, _, hitem, -⟩ := h.exists_items
  obtain ⟨_, _, _, hitem', -⟩ := hitem.junction.exists_items
  exact startsPredicate_of_item hitem'

lemma predicate_some (h : ReadsJunction .or ts p rest) : predicate ts = .ok (some p, rest) := by
  have hstarts := startsPredicate h
  obtain ⟨hlt, h⟩ := h
  rw [predicate, if_neg hstarts, h]

/-- The sort clauses at the end of a query, with the words in front of them if there are some. -/
def Ends (ts : Tokens) (os : List (Order String)) : Prop :=
  EndsPredicate ts ∧ ¬ StartsPredicate ts ∧ sortClauses ts = .ok (os, [.endOfInput])

lemma query_none {os : List (Order String)} (h : Ends ts os) : query ts = .ok ⟨none, os⟩ := by
  obtain ⟨-, hstarts, hclauses⟩ := h
  rw [query, predicate, if_pos (not_not.mp hstarts)]
  simp [hclauses, peek]

lemma query_some {os : List (Order String)} (h : ReadsJunction .or ts p rest)
    (hrest : Ends rest os) : query ts = .ok ⟨some p, os⟩ := by
  obtain ⟨-, -, hclauses⟩ := hrest
  rw [query, predicate_some h]
  simp [hclauses, peek]

lemma ends_nil : Ends [.endOfInput] [] := by
  exact ⟨.cons (by simp) (by simp), not_not.mpr (.inl rfl), rfl⟩

lemma exists_ends {P : Type} {path : P → String} {os : List (Order P)} (hne : os ≠ [])
    (h : ∀ o ∈ os, IsPath (path o.property)) :
    ∃ ts, Spells ("order by " ++ String.intercalate ", " (os.map (Order.text path))) ts ∧
      Ends (ts ++ [.endOfInput]) (os.map (readOrder path)) := by
  obtain ⟨ts, hspells, hread⟩ := exists_orders hne h
  have horder : Spells "order" [.name "order"] := .word rfl rfl rfl rfl
  have hby : Spells "by" [.name "by"] := .word rfl rfl rfl rfl
  refine ⟨.name "order" :: .name "by" :: ts, ?_, .cons (by simp) (by simp), ?_, ?_⟩
  · have hjoined := (horder.joined hby).joined hspells
    have htext : "order" ++ " " ++ "by" ++ " " = "order by " := by decide
    rwa [htext] at hjoined
  · exact not_not.mpr (.inr rfl)
  · have hstarts : startsOrders (.name "order" :: .name "by" :: ts ++ [.endOfInput]) = true := rfl
    rw [sortClauses, if_pos hstarts]
    exact hread

end Tokens

open Tokens

namespace RawQuery

lemma tokenize_of_spells {text : String} {ts : Tokens} (h : Spells text ts) :
    ∃ tokens, tokenize text = .ok tokens ∧ tokens.map Token.kind = ts ++ [.endOfInput] := by
  have hlexes := h [] [.endOfInput] (by simp [Boundary]) .nil
  rw [List.append_nil] at hlexes
  exact hlexes .start

/-- The tokens of a text as a query reads them. -/
lemma parse_of_spells {text : String} {ts : Tokens} {q : RawQuery} (h : Spells text ts)
    (hquery : query (ts ++ [.endOfInput]) = .ok q) : parse text = .ok q := by
  obtain ⟨tokens, htokens, hkinds⟩ := tokenize_of_spells h
  rw [parse, htokens]
  simp only [hkinds, hquery]

lemma query_of_spells {text : String} {ts : Tokens} {q : RawQuery} (h : Spells text ts)
    (hparse : parse text = .ok q) : query (ts ++ [.endOfInput]) = .ok q := by
  obtain ⟨tokens, htokens, hkinds⟩ := tokenize_of_spells h
  rw [parse, htokens] at hparse
  simp only [hkinds] at hparse
  split at hparse
  · cases hparse
  · rename_i q' hquery
    rw [hquery, Except.ok.inj hparse]

/-- **Queries** are read back from their text if their conditions and paths are. -/
theorem parse_queryText {C P : Type} {conditionText : C → String} {read : C → RawCondition}
    {path : P → String} {q : Query C P}
    (predicate : ∀ p ∈ q.predicate, p.Flat (Rereads conditionText read))
    (orders : ∀ o ∈ q.orders, IsPath (path o.property)) :
    parse (Query.text conditionText path q) =
      .ok ⟨q.predicate.map (Predicate.turned false read), q.orders.map (readOrder path)⟩ := by
  obtain ⟨predicate?, sorts⟩ := q
  have hempty : Spells "" [] := fun _ _ _ h => h
  by_cases hnone : sorts = []
  · subst hnone
    cases predicate? with
    | none => exact parse_of_spells hempty (query_none ends_nil)
    | some p =>
      obtain ⟨-, ts, hspells, hread⟩ := exists_predicate (predicate p rfl)
      exact parse_of_spells hspells (query_some (hread _ ends_nil.1) ends_nil)
  · obtain ⟨ts, hspells, hends⟩ := exists_ends hnone orders
    have hfilled : sorts.isEmpty = false := List.isEmpty_eq_false_iff.mpr hnone
    cases predicate? with
    | none =>
      have htext : Query.text conditionText path ⟨none, sorts⟩ =
          "order by " ++ String.intercalate ", " (sorts.map (Order.text path)) := by
        simp [Query.text, hfilled]
      rw [htext]
      exact parse_of_spells hspells (query_none hends)
    | some p =>
      obtain ⟨-, ts', hspells', hread⟩ := exists_predicate (predicate p rfl)
      have htext : Query.text conditionText path ⟨some p, sorts⟩ = p.text conditionText ++ " " ++
          ("order by " ++ String.intercalate ", " (sorts.map (Order.text path))) := by
        rw [Query.text, hfilled, ← String.append_assoc]
        rfl
      have hquery := query_some (hread _ hends.1) hends
      rw [htext]
      refine parse_of_spells (hspells'.joined hspells) ?_
      rwa [List.append_assoc]

/-- **Well-formed queries** are read back from their text. -/
theorem WellFormed.parse_text {q : RawQuery} (h : q.WellFormed) : parse q.text = .ok q := by
  have hread : ∀ p ∈ q.predicate, p.Flat (Rereads RawCondition.text id) :=
    fun p hp => (h.predicate p hp).imp fun _ _ hc => retrieves_condition hc
  obtain ⟨predicate?, orders⟩ := q
  have hmap : predicate?.map (Predicate.turned false id) = predicate? := by
    rw [funext Predicate.turned_id]
    exact Option.map_id'
  have horders : orders.map (readOrder id) = orders := List.map_id' orders
  rw [text, parse_queryText hread h.orders, hmap, horders]

end RawQuery

end EntityQuery
