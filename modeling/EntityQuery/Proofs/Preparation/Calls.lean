import EntityQuery.Proofs.Preparation.Behind
import EntityQuery.Proofs.Preparation.Typed
import EntityQuery.Proofs.RawQuery.ReadAs
import EntityQuery.Proofs.Time.ReadBack

/-!
# Calls and the literals they stand for

A call of a function may be written as a literal: the name of the user, the instant, or the start of
its day. Both are converted to the same value, except that a clock function has none for a type other
than dates and date-times; in particular it has none for a collection of them, whose elements the
literal is converted to. So a condition with a call is prepared as the one with the literal, or it is
not prepared at all.
-/

namespace EntityQuery

variable {r : Registry} {context : QueryContext} {entity property s : String} {f : Function}
  {op : Operator} {type : PropertyType}

/-- The text of the literal that a function stands for. There is none for a user who is not known. -/
def QueryContext.spelling? (context : QueryContext) : Function → Option String
  | .currentUser => context.principal?
  | .now => some context.now.text
  | .today => some (DateTime.startOf context.now.date).text

/-- The types that a function has values of: those of the clock are dates and date-times, and the
name of the user is converted to any type. -/
def Function.Suits (f : Function) (type : PropertyType) : Prop :=
  f = .currentUser ∨ type = .date ∨ type = .dateTime

/-! ### Values -/

namespace Registry

variable {v : Value}

lemma convert_dateTime_text (site : OperandSite) (t : DateTime) :
    r.convert site .dateTime (.text t.text) = .ok (.dateTime t) :=
  convert_of_scalar? (by simp [Literal.scalar?, DateTime.ofText?_text])

/-- The text of an instant is converted to its day. -/
lemma convert_date_text (site : OperandSite) (t : DateTime) :
    r.convert site .date (.text t.text) = .ok (.date t.date) :=
  convert_of_scalar? (by simp [Literal.scalar?, Date.ofText?_text_dateTime])

/-- The value of a call is that of the literal it stands for, for the types that suit it. -/
lemma functionValue_eq_ok (spelled : context.spelling? f = some s) (site site' : OperandSite) :
    r.functionValue context site type f = .ok v ↔
      r.convert site' type (.text s) = .ok v ∧ f.Suits type := by
  cases f with
  | currentUser =>
    have huser : context.principal? = some s := spelled
    have hvalue : r.functionValue context site type .currentUser =
        r.convert site type (.text s) := by
      simp [functionValue, huser]
    rw [hvalue]
    exact ⟨fun h => ⟨convert_site h site', .inl rfl⟩, fun h => convert_site h.1 site⟩
  | now | today =>
    obtain rfl := Option.some.inj spelled
    cases type <;>
      simp [functionValue, Function.Suits, convert_date_text, convert_dateTime_text,
        DateTime.startOf]

/-- A call is converted as the literal it stands for, for the types that suit it. -/
lemma coerce_call (spelled : context.spelling? f = some s) (property : String) :
    r.coerce context property type (.function f) = .ok v ↔
      r.coerce context property type (.string s) = .ok v ∧ f.Suits type :=
  functionValue_eq_ok spelled _ _

lemma coerceAll_call (spelled : context.spelling? f = some s) (property : String)
    (before after : List Operand) {vs : List Value} :
    r.coerceAll context property type (before ++ .function f :: after) = .ok vs ↔
      r.coerceAll context property type (before ++ .string s :: after) = .ok vs ∧
        f.Suits type := by
  induction before generalizing vs with
  | nil =>
    simp only [List.nil_append, coerceAll_cons_eq_ok, coerce_call spelled]
    tauto
  | cons o before ih =>
    simp only [List.cons_append, coerceAll_cons_eq_ok, ih]
    tauto

end Registry

/-! ### Places -/

namespace Operand

/-- A place for a single value in an operand: on its own, or in a list. -/
inductive Place where
  | alone
  | among (before after : List Operand)

namespace Place

/-- The operand with a value at the place. -/
def put : Place → Operand → Operand
  | alone, x => x
  | among before after, x => .list (before ++ x :: after)

/-- What stands beside the place. -/
def others : Place → List Operand
  | alone => []
  | among before after => before ++ after

lemma isWritten_put {place : Place} {x : Operand} (literals : ∀ o ∈ place.others, o.IsLiteral)
    (hx : x.IsLiteral) : (place.put x).IsWritten := by
  cases place with
  | alone => exact hx.isWritten
  | among before after =>
    refine ⟨by simp, fun o ho => ?_⟩
    simp only [others, List.mem_append, List.mem_cons] at literals ho
    rcases ho with ho | rfl | ho
    · exact literals o (.inl ho)
    · exact hx
    · exact literals o (.inr ho)

/-- A call stands for its literal at any place of an operand. -/
lemma operandsOf_put (place : Place) {path : PropertyPath} {vs : List Value}
    (spelled : context.spelling? f = some s) :
    r.operandsOf context path ⟨property, op, some (place.put (.function f))⟩ = .ok vs ↔
      r.operandsOf context path ⟨property, op, some (place.put (.string s))⟩ = .ok vs ∧
        f.Suits path.type := by
  cases hunary : op.isUnary with
  | true => simp [Registry.operandsOf, hunary]
  | false =>
    cases place with
    | alone =>
      have hsingle : ∀ v, (Except.map (fun v => [v]) v : Except PrepareError (List Value)) = .ok vs ↔
          ∃ w, v = .ok w ∧ [w] = vs := fun v => by cases v <;> simp [Except.map]
      simp only [put, Registry.operandsOf_single hunary (x := .function f) (by simp),
        Registry.operandsOf_single hunary (x := .string s) (by simp), hsingle,
        Registry.coerce_call spelled]
      tauto
    | among before after =>
      cases haccepts : op.acceptsList with
      | true =>
        simp only [put, Registry.operandsOf_list haccepts]
        exact Registry.coerceAll_call spelled _ before after
      | false => simp [put, Registry.operandsOf, hunary, haccepts]

end Place

end Operand

/-- The place where an operator reads what is written at a place. -/
def Operator.placeAs? (op : Operator) (place : Operand.Place) : Option Operand.Place :=
  if op.isUnary then none
  else
    match place with
    | .alone => some (if op.takesList then .among [] [] else .alone)
    | .among before after => if op.acceptsList then some (.among before after) else none

lemma Operator.readAs?_put (op : Operator) (place : Operand.Place) {x : Operand}
    (hx : x.IsLiteral) : op.readAs? (place.put x) = (op.placeAs? place).map fun p => p.put x := by
  cases hunary : op.isUnary with
  | true => simp [readAs?, placeAs?, hunary]
  | false =>
    cases place with
    | alone =>
      have hread : op.readAs? x = some (if op.takesList then .list [x] else x) := by
        cases hx <;> simp [readAs?, hunary]
      cases hlist : op.takesList <;> simp [placeAs?, hunary, hlist, hread, Operand.Place.put]
    | among before after =>
      cases haccepts : op.acceptsList <;>
        simp [readAs?, placeAs?, hunary, haccepts, Operand.Place.put]

/-! ### Conditions -/

variable (place : Operand.Place) {p : PreparedQuery}

/-- A condition with a call is prepared as the one with the literal, on the paths that suit it. -/
lemma RawQuery.prepare_call (spelled : context.spelling? f = some s) :
    RawQuery.prepare r context entity
        (.of (.cond ⟨property, op, some (place.put (.function f))⟩)) = .ok p ↔
      RawQuery.prepare r context entity
        (.of (.cond ⟨property, op, some (place.put (.string s))⟩)) = .ok p ∧
      ∀ q, r.resolve entity property = .ok q → f.Suits q.path.type := by
  simp only [prepare_cond_eq_ok]
  constructor
  · rintro ⟨e, path, vs, t, he, hpath, hvs, hsettle, rfl⟩
    obtain ⟨hvs, hsuits⟩ := (place.operandsOf_put spelled).mp hvs
    refine ⟨⟨e, path, vs, t, he, hpath, hvs, hsettle, rfl⟩, fun q hq => ?_⟩
    obtain ⟨q', hq', rfl⟩ := Registry.exists_resolved_of_pathOf hpath
    rw [Registry.entity?_name he, hq] at hq'
    obtain rfl := Except.ok.inj hq'
    exact hsuits
  · rintro ⟨⟨e, path, vs, t, he, hpath, hvs, hsettle, rfl⟩, hsuits⟩
    obtain ⟨q, hq, rfl⟩ := Registry.exists_resolved_of_pathOf hpath
    rw [Registry.entity?_name he] at hq
    exact ⟨e, _, vs, t, he, hpath, (place.operandsOf_put spelled).mpr ⟨hvs, hsuits q hq⟩, hsettle,
      rfl⟩

/-- **Calls and literals.** Let a function stand for a text, and let it be called in a condition, at
any place of its operand and with any operator. The condition is prepared just as the one with the
text as a literal at that place, if the property is of a type that suits the function; on a property
of another type, a call of a clock function is never prepared. -/
theorem prepareText_call_iff (spelled : context.spelling? f = some s) (hproperty : IsPath property)
    (literals : ∀ o ∈ place.others, o.IsLiteral) :
    r.prepareText context entity
        (RawCondition.text ⟨property, op, some (place.put (.function f))⟩) = .ok p ↔
      r.prepareText context entity
        (RawCondition.text ⟨property, op, some (place.put (.string s))⟩) = .ok p ∧
      ∀ q, r.resolve entity property = .ok q → f.Suits q.path.type := by
  have hparse : ∀ {x : Operand} {q : RawQuery}, x.IsLiteral →
      (RawQuery.parse (RawCondition.text ⟨property, op, some (place.put x)⟩) = .ok q ↔
        ∃ read, op.placeAs? place = some read ∧
          q = .of (.cond ⟨property, op, some (read.put x)⟩)) := by
    intro x q hx
    rw [RawQuery.parse_conditionText hproperty (Operand.Place.isWritten_put literals hx),
      op.readAs?_put place hx]
    simp
  simp only [Registry.prepareText_eq_ok, hparse (.function f), hparse (.string s)]
  constructor
  · rintro ⟨_, ⟨read, hread, rfl⟩, hprepare⟩
    obtain ⟨hprepare, hsuits⟩ := (RawQuery.prepare_call _ spelled).mp hprepare
    exact ⟨⟨_, ⟨read, hread, rfl⟩, hprepare⟩, hsuits⟩
  · rintro ⟨⟨_, ⟨read, hread, rfl⟩, hprepare⟩, hsuits⟩
    exact ⟨_, ⟨read, hread, rfl⟩, (RawQuery.prepare_call _ spelled).mpr ⟨hprepare, hsuits⟩⟩

namespace Plans

/-- Plans, which take some days and are due on one. -/
def registry : Registry :=
  ⟨[⟨"Plan", "id", [⟨"id", .text, false, none⟩, ⟨"due", .date, true, none⟩,
      ⟨"days", .collection .date, true, none⟩]⟩]⟩

/-- Nobody asks, at the beginning of the year zero. -/
def yearZero : QueryContext :=
  ⟨.startOf default, none⟩

/-- The literal that `today()` stands for. -/
def today : String :=
  "0000-01-01 00:00"

lemma spelling?_today : yearZero.spelling? .today = some today := by
  decide +kernel

lemma coerce_today (property : String) :
    registry.coerce yearZero property .date (.string today) = .ok (.date default) := by
  have hday : Date.ofText? today = some default := by decide +kernel
  exact Registry.convert_of_scalar? (by simp [Literal.scalar?, hday])

lemma prepareText_days : registry.prepareText yearZero "Plan"
    (RawCondition.text ⟨"days", .contains, some (.string today)⟩) =
      .ok (.of (.cond ⟨⟨[], ⟨"days", "Plan", .collection .date, true, false⟩⟩, .contains,
        [.date default]⟩)) := by
  have hcoerce : registry.coerce yearZero "days" (.collection .date) (.string today) =
      .ok (.date default) := by
    rw [← coerce_today "days"]
    exact Registry.convert_collection _
  refine Registry.prepareText_eq_ok.mpr ⟨_, (RawQuery.parse_conditionText (.of_isName (by decide))
    (Operand.IsLiteral.string _).isWritten).mpr ⟨_, rfl, rfl⟩, ?_⟩
  exact RawQuery.prepare_cond_eq_ok.mpr ⟨_, _, _, _, rfl, rfl, congrArg (Except.map _) hcoerce,
    rfl, rfl⟩

lemma prepareText_due : registry.prepareText yearZero "Plan"
    (RawCondition.text ⟨"due", .eq, some (.string today)⟩) =
      .ok (.of (.cond ⟨⟨[], ⟨"due", "Plan", .date, true, false⟩⟩, .eq, [.date default]⟩)) := by
  refine Registry.prepareText_eq_ok.mpr ⟨_, (RawQuery.parse_conditionText (.of_isName (by decide))
    (Operand.IsLiteral.string _).isWritten).mpr ⟨_, rfl, rfl⟩, ?_⟩
  exact RawQuery.prepare_cond_eq_ok.mpr ⟨_, _, _, _, rfl, rfl,
    congrArg (Except.map _) (coerce_today "due"), rfl, rfl⟩

end Plans

open Plans in
/-- The day that a plan is due on may be compared with today. That it takes place today is only said
by the literal. -/
theorem prepareText_call_iff_plans :
    (∃ p, registry.prepareText yearZero "Plan" "due = today()" = .ok p ∧
        registry.prepareText yearZero "Plan" "due = '0000-01-01 00:00'" = .ok p) ∧
      (∃ p, registry.prepareText yearZero "Plan" "days contains '0000-01-01 00:00'" = .ok p) ∧
      ∀ p, registry.prepareText yearZero "Plan" "days contains today()" ≠ .ok p := by
  have hdays : RawCondition.text ⟨"days", .contains, some (.string today)⟩ =
      "days contains '0000-01-01 00:00'" := by decide +kernel
  have hdaysCall : RawCondition.text ⟨"days", .contains, some (.function .today)⟩ =
      "days contains today()" := by decide +kernel
  have hdue : RawCondition.text ⟨"due", .eq, some (.string today)⟩ =
      "due = '0000-01-01 00:00'" := by decide +kernel
  have hdueCall : RawCondition.text ⟨"due", .eq, some (.function .today)⟩ = "due = today()" := by
    decide +kernel
  refine ⟨⟨_, ?_, hdue ▸ prepareText_due⟩, ⟨_, hdays ▸ prepareText_days⟩, fun p hp => ?_⟩
  · rw [← hdueCall]
    refine (prepareText_call_iff .alone spelling?_today (.of_isName (by decide))
      (by simp [Operand.Place.others])).mpr ⟨prepareText_due, fun q hq => ?_⟩
    cases hq
    exact .inr (.inl rfl)
  · rw [← hdaysCall] at hp
    obtain ⟨-, hsuits⟩ := (prepareText_call_iff .alone spelling?_today
      (.of_isName (by decide)) (by simp [Operand.Place.others])).mp hp
    rcases hsuits _ rfl with h | h | h <;> cases h

end EntityQuery
