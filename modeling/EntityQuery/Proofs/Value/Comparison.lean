import EntityQuery.Proofs.Execution.Ordered

/-!
# Comparisons are coherent

Of two values of one scalar type exactly one holds: the first is less, both are the same, or the
first is greater. So the matchers of comparisons fit together, and sorting, with null before all
values, is by an order up to ties (`TransCmp`: total, transitive, and the same seen from either
side), where those tie that are the same. An integer may be compared with floating point numbers
where it is a double itself; their places on the number line decide.
-/

namespace EntityQuery

open Std (LawfulEqCmp OrientedCmp ReflCmp TransCmp)

/-! ### Scalars -/

/-- A value of a scalar type, neither null nor NaN. An integer that is a double counts as a floating
point number too. -/
inductive Value.Scalar : PropertyType → Value → Prop where
  | text {s : String} : Scalar .text (.text s)
  | int {i : Int64} : Scalar .int (.int i)
  | float {f : Double} (number : f ≠ .nan) : Scalar .float (.float f)
  | whole {i : Int64} (exact : Double.Representable (i.toInt.natAbs * Double.one)) :
      Scalar .float (.int i)
  | bool {b : Bool} : Scalar .bool (.bool b)
  | date {d : Date} : Scalar .date (.date d)
  | dateTime {t : DateTime} : Scalar .dateTime (.dateTime t)
  | enum {name s : String} {constants : List String} : Scalar (.enum name constants) (.enum s)

/-- A scalar, or a reference that carries one as its id. -/
def Value.Carries (type : PropertyType) (v : Value) : Prop :=
  v.identity.Scalar type

/-- A value to sort by: one that carries a scalar, or null. -/
def Value.CarriesOrNull (type : PropertyType) (v : Value) : Prop :=
  v.identity = .null ∨ v.Carries type

/-- Exactly one holds of two values: the first is less, both are the same, or the first is
greater. -/
inductive Value.Trichotomy (v w : Value) : Prop where
  | less (order : v.compare? w = some .lt) (different : v.sameAs w = false)
  | same (order : v.compare? w = some .eq) (same : v.sameAs w = true)
  | greater (order : v.compare? w = some .gt) (different : v.sameAs w = false)

/-! ### Equality and order -/

/-- Everything ties. -/
lemma transCmp_const {α : Type} : TransCmp fun _ _ : α => Ordering.eq where
  eq_swap := rfl
  isLE_trans _ _ := rfl

instance : LawfulEqCmp Date.compare where
  compare_self := ReflCmp.compare_self
  eq_of_compare {a b} h := by
    simp only [Date.compare, Ordering.then_eq_eq, LawfulEqCmp.compare_eq_iff_eq] at h
    cases a
    cases b
    simpa using h

instance : LawfulEqCmp TimeOfDay.compare where
  compare_self := ReflCmp.compare_self
  eq_of_compare {a b} h := by
    simp only [TimeOfDay.compare, Ordering.then_eq_eq, LawfulEqCmp.compare_eq_iff_eq] at h
    cases a
    cases b
    simpa using h

instance : LawfulEqCmp DateTime.compare where
  compare_self := ReflCmp.compare_self
  eq_of_compare {a b} h := by
    simp only [DateTime.compare, Ordering.then_eq_eq, LawfulEqCmp.compare_eq_iff_eq] at h
    cases a
    cases b
    simpa using h

lemma beq_eq_compare {α : Type} [BEq α] [LawfulBEq α] (cmp : α → α → Ordering) [LawfulEqCmp cmp]
    (a b : α) : (a == b) = (cmp a b == .eq) := by
  rw [Bool.eq_iff_iff, beq_iff_eq, beq_iff_eq, LawfulEqCmp.compare_eq_iff_eq]

namespace Double

variable {i : Int}

lemma one_pos : 0 < one := by
  unfold one
  generalize 1074 = k
  exact Nat.two_pow_pos k

lemma ofInt_ne_nan (i : Int) : ofInt i ≠ .nan := by
  unfold ofInt round
  split <;> simp

/-- An integer that is a double has its place on the number line. -/
lemma place?_ofInt (h : Representable (i.natAbs * one)) : (ofInt i).place? = some (i * one) := by
  have hnearest := nearest_of_representable h Nat.one_pos
  rw [Nat.mul_one] at hnearest
  rw [ofInt, round_eq_finite _ h hnearest, place?, Nat.cast_mul]
  by_cases hneg : i < 0
  · rw [decide_eq_true hneg, if_pos rfl, Int.ofNat_natAbs_of_nonpos hneg.le, Int.neg_mul,
      Int.neg_neg]
  · rw [decide_eq_false hneg, if_neg Bool.false_ne_true, Int.natAbs_of_nonneg (not_lt.mp hneg)]

lemma exists_place? {f : Double} (h : f ≠ .nan) : ∃ x, f.place? = some x := by
  cases f with
  | nan => exact absurd rfl h
  | _ => exact ⟨_, rfl⟩

lemma compare?_of_place? {f g : Double} {x y : Int} (hf : f.place? = some x)
    (hg : g.place? = some y) : f.compare? g = some (compare x y) := by
  rw [compare?, hf, hg]

/-- Two numbers that are not NaN compare, and they tie just if they are equal, either way round. -/
lemma exists_compare?_and_beq {f g : Double} (hf : f ≠ .nan) (hg : g ≠ .nan) :
    ∃ o, f.compare? g = some o ∧ (f == g) = (o == .eq) ∧ (g == f) = (o == .eq) := by
  obtain ⟨o, ho⟩ := exists_compare? hf hg
  refine ⟨o, ho, ?_, ?_⟩
  · change (f.compare? g == some .eq) = _
    rw [ho]
    rfl
  · change (g.compare? f == some .eq) = _
    rw [compare?_swap f g, ho]
    cases o <;> rfl

end Double

/-- Two integers compare as their places on the number line. -/
lemma compare_int_eq (i j : Int64) :
    compare i j = compare (i.toInt * Double.one) (j.toInt * Double.one) := by
  have hone : (0 : Int) < Double.one := Int.natCast_pos.mpr Double.one_pos
  change compareOfLessAndEq i j = compareOfLessAndEq _ _
  simp only [compareOfLessAndEq, Int64.lt_iff_toInt_lt, ← Int64.toInt_inj,
    Int.mul_lt_mul_right hone, Int.mul_eq_mul_right_iff hone.ne']

namespace Value

variable {type : PropertyType} {v w : Value} {vs : List Value}

/-- Two scalars of one type compare, and they tie just if they are the same. -/
lemma Scalar.exists_compare? (hv : v.Scalar type) (hw : w.Scalar type) :
    ∃ o, v.compare? w = some o ∧ v.sameAs w = (o == .eq) := by
  cases hv with
  | text =>
    cases hw with
    | text => exact ⟨_, rfl, beq_eq_compare (α := String) compare _ _⟩
  | int =>
    cases hw with
    | int => exact ⟨_, rfl, beq_eq_compare (α := Int64) compare _ _⟩
  | bool =>
    cases hw with
    | bool => exact ⟨_, rfl, beq_eq_compare (α := Bool) compare _ _⟩
  | date =>
    cases hw with
    | date => exact ⟨_, rfl, beq_eq_compare Date.compare _ _⟩
  | dateTime =>
    cases hw with
    | dateTime => exact ⟨_, rfl, beq_eq_compare DateTime.compare _ _⟩
  | enum =>
    cases hw with
    | enum => exact ⟨_, rfl, beq_eq_compare (α := String) compare _ _⟩
  | float number =>
    cases hw with
    | float number' =>
      obtain ⟨o, ho, hbeq, -⟩ := Double.exists_compare?_and_beq number number'
      exact ⟨o, ho, hbeq⟩
    | @whole j =>
      obtain ⟨o, ho, -, hbeq⟩ :=
        Double.exists_compare?_and_beq number (Double.ofInt_ne_nan j.toInt)
      exact ⟨o, ho, hbeq⟩
  | @whole i =>
    cases hw with
    | float number' =>
      obtain ⟨o, ho, hbeq, -⟩ :=
        Double.exists_compare?_and_beq (Double.ofInt_ne_nan i.toInt) number'
      exact ⟨o, ho, hbeq⟩
    | whole => exact ⟨_, rfl, beq_eq_compare (α := Int64) compare _ _⟩

lemma Carries.exists_compare? (hv : v.Carries type) (hw : w.Carries type) :
    ∃ o, v.compare? w = some o ∧ v.sameAs w = (o == .eq) := by
  obtain ⟨o, ho, hsame⟩ := Scalar.exists_compare? hv hw
  rw [identity_compare?] at ho
  rw [sameAs, identity_identity, identity_identity] at hsame
  exact ⟨o, ho, hsame⟩

lemma Carries.identity_ne_null (hv : v.Carries type) : v.identity ≠ .null := by
  intro hnull
  rw [Carries, hnull] at hv
  cases hv

/-- A value of a declared type that is no association carries a scalar of this type, if any. -/
lemma Fits.carries {r : Registry} {s : PropertyType} (hv : v.Fits r type) (hs : v.Carries s)
    (plain : ∀ name, type ≠ .entity name) : v.Carries type := by
  cases hv with
  | null => exact absurd rfl hs.identity_ne_null
  | text => exact .text
  | int => exact .int
  | float =>
    cases hs with
    | float number => exact .float number
  | bool => exact .bool
  | date => exact .date
  | dateTime => exact .dateTime
  | enum => exact .enum
  | ref => exact absurd rfl (plain _)
  | list => cases hs

/-- Values of one declared type that carry scalars carry scalars of one type. -/
lemma exists_carries_of_fits (r : Registry) (declared : PropertyType) :
    ∃ type, ∀ (v : Value) (s : PropertyType), v.Fits r declared → v.Carries s → v.Carries type := by
  by_cases hsome : ∃ (v₀ : Value) (s : PropertyType), v₀.Fits r declared ∧ v₀.Carries s
  · obtain ⟨v₀, s, hv₀, hs⟩ := hsome
    -- the type is that of the id at the end of the ids that one value carries
    induction hv₀ with
    | null => exact absurd rfl hs.identity_ne_null
    | ref idType present known ih =>
      obtain ⟨type, htype⟩ := ih hs
      refine ⟨type, fun v s hv hs => ?_⟩
      cases hv with
      | null => exact absurd rfl hs.identity_ne_null
      | @ref _ _ id idType' present' known' =>
        obtain rfl := Option.some.inj (idType.symm.trans idType')
        have hid : id.Carries s := hs
        have hcarries := htype id s known' hid
        exact hcarries
    | _ => exact ⟨_, fun v s hv hs => hv.carries hs fun name => by simp⟩
  · exact ⟨.text, fun v s hv hs => absurd ⟨v, s, hv, hs⟩ hsome⟩

/-- **Trichotomy**: one of two values of a scalar type is less, or both are the same. -/
lemma Carries.trichotomy (hv : v.Carries type) (hw : w.Carries type) : v.Trichotomy w := by
  obtain ⟨o, ho, hsame⟩ := hv.exists_compare? hw
  cases o with
  | lt => exact .less ho hsame
  | eq => exact .same ho hsame
  | gt => exact .greater ho hsame

/-! ### Sorting -/

/-- The double that a number is compared as. -/
def double : Value → Double
  | float f => f
  | int i => .ofInt i.toInt
  | _ => .nan

/-- The place of a number on the number line. -/
def position (v : Value) : Int :=
  v.double.place?.getD 0

lemma Scalar.exists_place? (hv : v.Scalar .float) : ∃ x, v.double.place? = some x := by
  cases hv with
  | float number => exact Double.exists_place? number
  | whole exact => exact ⟨_, Double.place?_ofInt exact⟩

/-- Numbers compare as doubles; two integers do because they are doubles. -/
lemma Scalar.compare?_eq_double (hv : v.Scalar .float) (hw : w.Scalar .float) :
    v.compare? w = v.double.compare? w.double := by
  cases hv with
  | float => cases hw <;> rfl
  | @whole i exact =>
    cases hw with
    | float => rfl
    | @whole j exact' =>
      exact (congrArg some (compare_int_eq i j)).trans
        (Double.compare?_of_place? (Double.place?_ofInt exact) (Double.place?_ofInt exact')).symm

/-- Numbers compare as their places do. -/
lemma Scalar.compare?_eq_position (hv : v.Scalar .float) (hw : w.Scalar .float) :
    v.compare? w = some (compare v.position w.position) := by
  obtain ⟨x, hx⟩ := hv.exists_place?
  obtain ⟨y, hy⟩ := hw.exists_place?
  rw [hv.compare?_eq_double hw, Double.compare?_of_place? hx hy, position, position, hx, hy,
    Option.getD_some, Option.getD_some]

/-- Scalars of one type are of one variant, unless integers are among floating point numbers. -/
lemma Scalar.typeName_eq (hv : v.Scalar type) (hw : w.Scalar type) (h : type ≠ .float) :
    v.typeName = w.typeName := by
  cases hv <;> cases hw <;> first | rfl | exact absurd rfl h

lemma identity_sortOrder (v w : Value) : v.identity.sortOrder w.identity = v.sortOrder w := by
  unfold sortOrder
  rw [identity_identity, identity_identity]

/-- Values to sort by are ordered as some linear order says. -/
lemma exists_order_of_carriesOrNull (h : ∀ v ∈ vs, v.CarriesOrNull type) :
    ∃ order, TransCmp order ∧ ∀ v ∈ vs, ∀ w ∈ vs, v.sortOrder w = order v w := by
  by_cases hfloat : type = .float
  · subst hfloat
    refine exists_order (compare : Int → Int → Ordering) position fun v hv w hw hnv hnw _ => ?_
    rw [← identity_compare?]
    exact ((h v hv).resolve_left hnv).compare?_eq_position ((h w hw).resolve_left hnw)
  · have halike : ∀ v ∈ vs.map identity, ∀ w ∈ vs.map identity, v.Alike w := by
      simp only [List.forall_mem_map, Alike, identity_identity]
      intro v hv w hw
      rcases h v hv with hnull | hv
      · exact .inl hnull
      rcases h w hw with hnull | hw
      · exact .inr (.inl hnull)
      · exact .inr (.inr (hv.typeName_eq hw hfloat))
    have hcomparable : ∀ v ∈ vs.map identity, ∀ w ∈ vs.map identity, v ≠ w → v.Comparable w := by
      simp only [List.forall_mem_map]
      intro v hv w hw _
      rcases h v hv with hnull | hv
      · exact .inl hnull
      rcases h w hw with hnull | hw
      · exact .inr (.inl hnull)
      · obtain ⟨o, ho, -⟩ := Scalar.exists_compare? hv hw
        exact .inr (.inr (Option.isSome_iff_exists.mpr ⟨o, ho⟩))
    obtain ⟨order, horder, hagree⟩ := exists_order_of_alike halike hcomparable
    refine ⟨fun v w => order v.identity w.identity, transCmp_on order identity, ?_⟩
    intro v hv w hw
    rw [← identity_sortOrder]
    exact hagree _ (List.mem_map_of_mem hv) _ (List.mem_map_of_mem hw)

/-- Sorting is by an order up to ties. -/
lemma transCmp_sortOrder (type : PropertyType) :
    TransCmp fun v w : { v : Value // v.CarriesOrNull type } => v.val.sortOrder w.val where
  eq_swap {v w} := w.val.sortOrder_swap v.val
  isLE_trans {u v w} huv hvw := by
    have hkeys : ∀ x ∈ [u.val, v.val, w.val], x.CarriesOrNull type := by
      simp [u.property, v.property, w.property]
    obtain ⟨order, horder, hagree⟩ := exists_order_of_carriesOrNull hkeys
    rw [hagree _ (by simp) _ (by simp)] at huv hvw ⊢
    exact TransCmp.isLE_trans huv hvw

/-- Where neither value is null, they tie just if they are the same. -/
lemma Carries.sortOrder_eq_iff (hv : v.Carries type) (hw : w.Carries type) :
    v.sortOrder w = .eq ↔ v.sameAs w = true := by
  obtain ⟨o, ho, hsame⟩ := hv.exists_compare? hw
  rw [sortOrder_eq_compare? hv.identity_ne_null hw.identity_ne_null, ho, Option.getD_some, hsame,
    beq_iff_eq]

/-- Null is sorted before every other value. -/
lemma Carries.null_sortOrder (hv : v.Carries type) : null.sortOrder v = .lt := by
  rw [sortOrder_of_null (.inl rfl), Condition.isNull_eq_false hv.identity_ne_null]
  rfl

end Value

/-- Values are ordered in either direction. -/
lemma Direction.transCmp_order (d : Direction) (type : PropertyType) :
    TransCmp fun v w : { v : Value // v.CarriesOrNull type } => d.order v.val w.val := by
  have := Value.transCmp_sortOrder type
  cases d with
  | ascending => exact this
  | descending =>
    exact inferInstanceAs (TransCmp fun v w : { v : Value // v.CarriesOrNull type } =>
      w.val.sortOrder v.val)

/-! ### Sort keys -/

/-- A sort key of which each value carries a scalar of its type or is null. -/
def SortKey (types : List PropertyType) : Type :=
  { key : List Value // List.Forall₂ Value.CarriesOrNull types key }

namespace SortKey

variable {type : PropertyType} {types : List PropertyType}

/-- The first value. -/
def head : SortKey (type :: types) → { v : Value // v.CarriesOrNull type }
  | ⟨v :: _, h⟩ => ⟨v, (List.forall₂_cons.mp h).1⟩

/-- The values after the first one. -/
def tail : SortKey (type :: types) → SortKey types
  | ⟨_ :: vs, h⟩ => ⟨vs, (List.forall₂_cons.mp h).2⟩

lemma compareKeys_cons (d : Direction) (directions : List Direction)
    (a b : SortKey (type :: types)) :
    Collection.compareKeys (d :: directions) a.val b.val =
      (d.order a.head.val b.head.val).then
        (Collection.compareKeys directions a.tail.val b.tail.val) := by
  obtain ⟨_, ⟨⟩⟩ := a
  obtain ⟨_, ⟨⟩⟩ := b
  rfl

/-- Sort keys are compared value by value, each in its direction, by an order up to ties. -/
lemma transCmp_compareKeys (types : List PropertyType) (directions : List Direction) :
    TransCmp fun a b : SortKey types => Collection.compareKeys directions a.val b.val := by
  induction types generalizing directions with
  | nil =>
    have hnil : ∀ a b : SortKey [], Collection.compareKeys directions a.val b.val = .eq := by
      rintro ⟨_, ⟨⟩⟩ ⟨_, ⟨⟩⟩
      cases directions <;> rfl
    simp only [hnil]
    exact transCmp_const
  | cons type types ih =>
    cases directions with
    | nil => exact transCmp_const
    | cons d directions =>
      simp only [compareKeys_cons]
      have := d.transCmp_order type
      have := transCmp_on (fun v w : { v : Value // v.CarriesOrNull type } => d.order v.val w.val)
        (head : SortKey (type :: types) → _)
      have := ih directions
      have := transCmp_on
        (fun a b : SortKey types => Collection.compareKeys directions a.val b.val)
        (tail : SortKey (type :: types) → _)
      exact inferInstanceAs (TransCmp (compareLex
        (fun a b : SortKey (type :: types) => d.order a.head.val b.head.val)
        fun a b => Collection.compareKeys directions a.tail.val b.tail.val))

end SortKey

/-! ### Matchers -/

/-- The strategy of an operator that compares with one value. -/
def Operator.comparison (operator : Operator) : Strategy :=
  if operator = .eq then .equality false else .ordering operator

/-- The matcher of a comparison with one operand. -/
def Matcher.comparing (operator : Operator) (operand : Value) : Matcher :=
  ⟨operator.comparison, [operand], none⟩

/-- The operators that compare with one value, apart from `!=`. -/
def Operator.comparisons : List Operator :=
  [.eq, .lt, .le, .gt, .ge]

/-- At a value, the matchers of comparisons with one operand fit together. -/
structure Matcher.FitTogether (operand v : Value) : Prop where
  ge : (comparing .ge operand).accepts v =
    ((comparing .gt operand).accepts v || (comparing .eq operand).accepts v)
  le : (comparing .le operand).accepts v =
    ((comparing .lt operand).accepts v || (comparing .eq operand).accepts v)
  gt : (comparing .gt operand).accepts v = !(comparing .le operand).accepts v

/-- A comparison has one strategy, whatever kind of property it is for. -/
lemma Strategy.eq_comparison {operator : Operator} {kind : PropertyKind} {s : Strategy}
    (hoperator : operator ∈ Operator.comparisons) (hs : Strategy.of? operator kind = some s) :
    s = operator.comparison := by
  simp only [Operator.comparisons, List.mem_cons, List.not_mem_nil, or_false] at hoperator
  rcases hoperator with rfl | rfl | rfl | rfl | rfl <;>
    · simp only [Strategy.of?] at hs
      split at hs
      · exact (Option.some.inj hs).symm
      · cases hs

namespace Matcher

variable {type : PropertyType} {v operand : Value}

/-- The matcher of a comparison can be made of every operand. -/
lemma make_comparison (operator : Operator) (operand : Value) :
    make operator.comparison [operand] = .ok (comparing operator operand) := by
  unfold comparing Operator.comparison
  split <;> rfl

lemma fitTogether (hv : v.Carries type) (hoperand : operand.Carries type) :
    FitTogether operand v := by
  have hpresent : v.isNull = false :=
    Condition.isNull_eq_false fun hnull => hv.identity_ne_null (by rw [hnull]; rfl)
  obtain ⟨o, ho, hsame⟩ := hv.exists_compare? hoperand
  have heq : (comparing .eq operand).accepts v = (o == .eq) := by
    change (!v.isNull && v.sameAs operand != false) = _
    rw [hpresent, hsame]
    cases o <;> rfl
  have hordering : ∀ operator, operator ≠ .eq →
      (comparing operator operand).accepts v = holds operator o := by
    intro operator hne
    simp [comparing, Operator.comparison, hne, accepts, Matcher.operand, ho]
  refine ⟨?_, ?_, ?_⟩
  · rw [hordering .ge (by decide), hordering .gt (by decide), heq]
    cases o <;> rfl
  · rw [hordering .le (by decide), hordering .lt (by decide), heq]
    cases o <;> rfl
  · rw [hordering .gt (by decide), hordering .le (by decide)]
    cases o <;> rfl

end Matcher

/-- **Comparisons are coherent** on values that carry scalars of one type, as those of a declared
type do, and so is sorting. One of two values is less or both are the same, and the matchers of
comparisons fit together. With null, which comes first, the order for sorting is an order up to
ties, and other values tie just if they are the same; so sort keys are compared by an order up to
ties, too, whatever the directions are. -/
theorem comparisons_coherent :
    (∀ (r : Registry) (declared : PropertyType), ∃ type, ∀ (v : Value) (s : PropertyType),
      v.Fits r declared → v.Carries s → v.Carries type) ∧
    (∀ (type : PropertyType) (v w : Value), v.Carries type → w.Carries type →
      v.Trichotomy w ∧ Matcher.FitTogether w v) ∧
    (∀ operator ∈ Operator.comparisons,
      (∀ (kind : PropertyKind) (s : Strategy), Strategy.of? operator kind = some s →
        s = operator.comparison) ∧
      ∀ operand : Value,
        Matcher.make operator.comparison [operand] = .ok (.comparing operator operand)) ∧
    (∀ type : PropertyType,
      TransCmp (fun v w : { v : Value // v.CarriesOrNull type } => v.val.sortOrder w.val) ∧
      (∀ v : Value, v.Carries type → Value.null.sortOrder v = .lt) ∧
      ∀ v w : Value, v.Carries type → w.Carries type →
        (v.sortOrder w = .eq ↔ v.sameAs w = true)) ∧
    ∀ (types : List PropertyType) (directions : List Direction),
      TransCmp fun a b : SortKey types => Collection.compareKeys directions a.val b.val := by
  refine ⟨Value.exists_carries_of_fits,
    fun type v w hv hw => ⟨hv.trichotomy hw, Matcher.fitTogether hv hw⟩,
    fun operator hoperator => ⟨fun kind s hs => Strategy.eq_comparison hoperator hs,
      Matcher.make_comparison operator⟩,
    fun type => ⟨Value.transCmp_sortOrder type, fun v hv => hv.null_sortOrder,
      fun v w hv hw => hv.sortOrder_eq_iff hw⟩,
    SortKey.transCmp_compareKeys⟩

/-- An integer, a number between integers and the number of a room compare as numbers. -/
theorem comparisons_coherent_rooms :
    let rooms : Registry := ⟨[⟨"Room", "number", [⟨"number", .int, false, none⟩]⟩]⟩
    let two : Value := .int 2
    let half : Value := .float (.ofDecimal false 25 (-1))
    let room : Value := .ref "Room" (.int 3)
    room.Fits rooms (.entity "Room") ∧ two.Carries .float ∧ half.Carries .float ∧
      room.Carries .float ∧ (∃ type, room.Carries type) ∧ two.compare? half = some .lt ∧
      half.compare? room = some .lt ∧ two.Trichotomy half ∧ Matcher.FitTogether half two ∧
      Matcher.FitTogether half room ∧ Value.null.sortOrder room = .lt ∧
      (room.sortOrder half = .eq ↔ room.sameAs half = true) ∧ Operator.ge ∈ Operator.comparisons ∧
      Strategy.of? .ge .number = some (.ordering .ge) ∧ .ordering .ge = Operator.ge.comparison ∧
      Matcher.make Operator.ge.comparison [half] = .ok (.comparing .ge half) := by
  intro rooms two half room
  have hfits : room.Fits rooms (.entity "Room") := .ref rfl rfl .int
  have htwo : two.Carries .float := .whole (by decide +kernel)
  have hhalf : half.Carries .float := .float (by decide +kernel)
  have hroom : room.Carries .float := .whole (by decide +kernel)
  have hge : Strategy.of? .ge .number = some (.ordering .ge) := rfl
  have hlisted : Operator.ge ∈ Operator.comparisons := by decide
  obtain ⟨hdeclared, hpairs, hmade, hsorting, -⟩ := comparisons_coherent
  obtain ⟨type, hcarries⟩ := hdeclared rooms (.entity "Room")
  obtain ⟨hstrategy, hmatcher⟩ := hmade .ge hlisted
  obtain ⟨-, hnull, hties⟩ := hsorting .float
  exact ⟨hfits, htwo, hhalf, hroom, ⟨type, hcarries room .float hfits hroom⟩, by decide +kernel,
    by decide +kernel, (hpairs _ _ _ htwo hhalf).1, (hpairs _ _ _ htwo hhalf).2,
    (hpairs _ _ _ hroom hhalf).2, hnull room hroom, hties room half hroom hhalf, hlisted, hge,
    hstrategy .number _ hge, hmatcher half⟩

end EntityQuery
