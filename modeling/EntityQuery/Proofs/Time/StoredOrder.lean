import EntityQuery.Proofs.Criteria.Leaf
import EntityQuery.Proofs.Execution.Sorted
import EntityQuery.Proofs.Time.ReadBack

/-!
# The order of stored dates and date-times

Dates and date-times are stored as text. Below the year the items of their formats have a fixed
width, so with years of four digits two texts are compared item by item, and digits compare as the
numbers they denote. The main statement is that comparing the bytes of two texts is comparing the
dates or the date-times.
-/

namespace EntityQuery

/-! ### Bytes -/

namespace Text

/-- The bytes of a text. -/
def bytes (s : String) : List UInt8 :=
  s.toUTF8.data.toList

/-- The order of two texts, byte by byte. -/
def byteOrder (s s' : String) : Ordering :=
  compare (bytes s) (bytes s')

lemma byteOrder_eq_iff {s s' : String} : byteOrder s s' = .eq ↔ s = s' := by
  rw [byteOrder, Std.LawfulEqOrd.compare_eq_iff_eq]
  refine ⟨fun h => ?_, congrArg bytes⟩
  exact String.toByteArray_inj.mp (ByteArray.ext (Array.toList_inj.mp h))

/-- The bytes of characters. -/
def charBytes (cs : List Char) : List UInt8 :=
  cs.flatMap String.utf8EncodeChar

lemma bytes_ofList (cs : List Char) : bytes (String.ofList cs) = charBytes cs := by
  rw [bytes, String.toUTF8, String.toByteArray_ofList, List.utf8Encode,
    List.toList_data_toByteArray, charBytes]

lemma charBytes_append (cs ds : List Char) :
    charBytes (cs ++ ds) = charBytes cs ++ charBytes ds :=
  List.flatMap_append

/-- The order of lists is decided in their beginnings, if these have one length. -/
lemma compare_append {xs ys : List UInt8} (h : xs.length = ys.length) (xs' ys' : List UInt8) :
    compare (xs ++ xs') (ys ++ ys') = (compare xs ys).then (compare xs' ys') := by
  induction xs generalizing ys with
  | nil =>
    obtain rfl := List.length_eq_zero_iff.mp h.symm
    rfl
  | cons x xs ih =>
    cases ys with
    | nil => cases h
    | cons y ys =>
      rw [List.cons_append, List.cons_append, List.compare_cons_cons, List.compare_cons_cons,
        ih (Nat.succ_inj.mp h), Ordering.then_assoc]

end Text

/-! ### Numbers -/

/-- Numbers compare as their leading parts, and then as the rest. -/
lemma compare_mul_add {k c d : Nat} (hc : c < k) (hd : d < k) (a b : Nat) :
    compare (a * k + c) (b * k + d) = (compare a b).then (compare c d) := by
  rcases Nat.lt_trichotomy a b with h | rfl | h
  · have hmul := Nat.mul_le_mul_right k h
    rw [Nat.succ_mul] at hmul
    rw [Nat.compare_eq_lt.mpr h, Nat.compare_eq_lt.mpr (by omega)]
    rfl
  · rw [Nat.compare_eq_eq.mpr rfl, Nat.compare_eq_ite_lt, Nat.compare_eq_ite_lt]
    simp [Ordering.then]
  · have hmul := Nat.mul_le_mul_right k h
    rw [Nat.succ_mul] at hmul
    rw [Nat.compare_eq_gt.mpr h, Nat.compare_eq_gt.mpr (by omega)]
    rfl

namespace Text

variable {m n width : Nat}

lemma padded_of_lt_ten (width : Nat) (hn : n < 10) :
    padded width n = List.replicate (width - 1) '0' ++ [digitChar n] := by
  rw [padded, numeral, if_pos hn, digitCount, if_pos hn]

/-- A padded numeral without its last digit is that of a tenth. -/
lemma padded_succ (hwidth : 0 < width) (n : Nat) :
    padded (width + 1) n = padded width (n / 10) ++ [digitChar (n % 10)] := by
  by_cases h : n < 10
  · have hdiv : n / 10 = 0 := Nat.div_eq_of_lt h
    have hzeros : List.replicate width '0' = List.replicate (width - 1) '0' ++ ['0'] := by
      rw [← List.replicate_succ', Nat.sub_add_cancel hwidth]
    rw [hdiv, Nat.mod_eq_of_lt h, padded_of_lt_ten _ h, padded_of_lt_ten _ (by decide),
      Nat.add_sub_cancel, hzeros]
    rfl
  · have hnumeral : numeral n = numeral (n / 10) ++ [digitChar (n % 10)] := by
      rw [numeral, if_neg h]
    have hcount : digitCount n = digitCount (n / 10) + 1 := by rw [digitCount, if_neg h]
    rw [padded, hnumeral, hcount, Nat.add_sub_add_right, ← List.append_assoc, padded]

lemma length_charBytes_padded (hwidth : 0 < width) (hn : n < Nat.pow 10 width) :
    (charBytes (padded width n)).length = width := by
  have hbyte : ∀ c ∈ padded width n, (String.utf8EncodeChar c).length = 1 := by
    intro c hc
    have hdigit := toNat_of_isDigit (isDigit_of_mem_padded hc)
    rw [String.length_utf8EncodeChar, Char.utf8Size_eq_one_iff]
    change c.toNat ≤ 127
    omega
  rw [charBytes, List.length_flatMap, List.map_congr_left hbyte]
  simp [length_padded hwidth hn]

lemma compare_digitChar {d e : Nat} (hd : d < 10) (he : e < 10) :
    compare (charBytes [digitChar d]) (charBytes [digitChar e]) = compare d e := by
  have hall : ∀ d < 10, ∀ e < 10,
      compare (charBytes [digitChar d]) (charBytes [digitChar e]) = compare d e := by decide
  exact hall d hd e he

/-- **Padded numerals** of one width compare as their numbers. -/
lemma compare_padded (hwidth : 0 < width) (hm : m < Nat.pow 10 width) (hn : n < Nat.pow 10 width) :
    compare (charBytes (padded width m)) (charBytes (padded width n)) = compare m n := by
  induction width, hwidth using Nat.le_induction generalizing m n with
  | base =>
    rw [padded_of_lt_ten 1 hm, padded_of_lt_ten 1 hn]
    exact compare_digitChar hm hn
  | succ width hwidth ih =>
    have htenth : ∀ n, n < Nat.pow 10 (width + 1) → n / 10 < Nat.pow 10 width :=
      fun n h => Nat.div_lt_of_lt_mul (by rw [Nat.mul_comm]; exact h)
    have hlast := fun n => Nat.mod_lt n (by decide : 0 < 10)
    rw [padded_succ hwidth, padded_succ hwidth, charBytes_append, charBytes_append,
      compare_append, ih (htenth m hm) (htenth n hn), compare_digitChar (hlast m) (hlast n),
      ← compare_mul_add (hlast m) (hlast n), Nat.div_add_mod', Nat.div_add_mod']
    rw [length_charBytes_padded hwidth (htenth m hm), length_charBytes_padded hwidth (htenth n hn)]

end Text

/-! ### Items -/

/-- A year of four digits, written without a sign. -/
def Date.HasPlainYear (d : Date) : Prop :=
  0 ≤ d.year ∧ d.year ≤ 9999

instance (d : Date) : Decidable d.HasPlainYear :=
  inferInstanceAs (Decidable (_ ∧ _))

/-- Two texts of one width, whose bytes compare in an order. -/
structure Text.Ordered (cs ds : List Char) (order : Ordering) : Prop where
  width : (charBytes cs).length = (charBytes ds).length
  compares : compare (charBytes cs) (charBytes ds) = order

lemma Text.ordered_self (cs : List Char) : Ordered cs cs .eq :=
  ⟨rfl, Std.ReflCmp.compare_self⟩

lemma Text.ordered_padded {width m n : Nat} (hwidth : 0 < width) (hm : m < Nat.pow 10 width)
    (hn : n < Nat.pow 10 width) : Ordered (padded width m) (padded width n) (compare m n) where
  width := by rw [length_charBytes_padded hwidth hm, length_charBytes_padded hwidth hn]
  compares := compare_padded hwidth hm hn

/-- Where two texts start alike, what follows decides. -/
lemma Text.Ordered.append {cs ds cs' ds' : List Char} {order order' : Ordering}
    (first : Ordered cs ds order) (rest : Ordered cs' ds' order') :
    Ordered (cs ++ cs') (ds ++ ds') (order.then order') where
  width := by
    rw [charBytes_append, charBytes_append, List.length_append, List.length_append, first.width,
      rest.width]
  compares := by
    rw [charBytes_append, charBytes_append, compare_append first.width, first.compares,
      rest.compares]

lemma ordered_yearText {year year' : Int} (h : 0 ≤ year ∧ year ≤ 9999)
    (h' : 0 ≤ year' ∧ year' ≤ 9999) :
    Text.Ordered (yearText year) (yearText year') (compare year year') := by
  obtain ⟨m, rfl⟩ := Int.eq_ofNat_of_zero_le h.1
  obtain ⟨n, rfl⟩ := Int.eq_ofNat_of_zero_le h'.1
  have hcompare : compare (m : Int) n = compare m n := by
    simp only [compare, compareOfLessAndEq, Int.ofNat_lt, Int.ofNat_inj]
  have hm : m < Nat.pow 10 4 := by change m < 10000; omega
  have hn : n < Nat.pow 10 4 := by change n < 10000; omega
  rw [yearText, yearText, if_pos h, if_pos h', hcompare]
  exact Text.ordered_padded (by decide) hm hn

namespace TimeItem

/-- How an item orders two date-times. -/
def order (t t' : DateTime) : TimeItem → Ordering
  | year => compare t.date.year t'.date.year
  | month => compare t.date.month t'.date.month
  | day => compare t.date.day t'.date.day
  | hour => compare t.time.hour t'.time.hour
  | minute => compare t.time.minute t'.time.minute
  | second => compare t.time.shownSecond t'.time.shownSecond
  | fraction | nanosecond => compare t.time.fraction t'.time.fraction
  | space | mark _ => .eq

variable {t t' : DateTime}

/-- An item of a fixed width is written in its order. -/
lemma ordered_written (h : t.date.HasPlainYear) (h' : t'.date.HasPlainYear) {item : TimeItem}
    (fixed : item ≠ fraction) : Text.Ordered (item.written t) (item.written t') (item.order t t') := by
  have htwo {m n : Nat} (hm : m < 100) (hn : n < 100) :
      Text.Ordered (Text.padded 2 m) (Text.padded 2 n) (compare m n) :=
    Text.ordered_padded (by decide) hm hn
  have hdate := t.date.fields_lt
  have hdate' := t'.date.fields_lt
  have htime := t.time.valid
  have htime' := t'.time.valid
  cases item with
  | year => exact ordered_yearText h h'
  | month => exact htwo hdate.1 hdate'.1
  | day => exact htwo hdate.2 hdate'.2
  | hour => exact htwo (by omega) (by omega)
  | minute => exact htwo (by omega) (by omega)
  | second => exact htwo t.time.shownSecond_lt t'.time.shownSecond_lt
  | fraction => exact absurd rfl fixed
  | nanosecond =>
    exact (Text.ordered_self ['.']).append
      (Text.ordered_padded (by decide) t.time.fraction_lt t'.time.fraction_lt)
  | space => exact Text.ordered_self _
  | mark c => exact Text.ordered_self _

end TimeItem

/-! ### Formats -/

namespace TimeFormat

variable {t t' : DateTime}

/-- How a format orders two date-times: item by item. -/
def order (t t' : DateTime) : List TimeItem → Ordering
  | [] => .eq
  | item :: format => (item.order t t').then (order t t' format)

/-- **Formats** without an item of varying width are written in their order. -/
lemma ordered_written (h : t.date.HasPlainYear) (h' : t'.date.HasPlainYear) {format : List TimeItem}
    (fixed : .fraction ∉ format) :
    Text.Ordered (written format t) (written format t') (order t t' format) := by
  induction format with
  | nil => exact Text.ordered_self []
  | cons item format ih =>
    have hitem := List.ne_of_not_mem_cons fixed
    exact (TimeItem.ordered_written h h' hitem.symm).append (ih (List.not_mem_of_not_mem_cons fixed))

lemma byteOrder_written (h : t.date.HasPlainYear) (h' : t'.date.HasPlainYear)
    {format : List TimeItem} (fixed : .fraction ∉ format) :
    Text.byteOrder (String.ofList (written format t)) (String.ofList (written format t')) =
      order t t' format := by
  rw [Text.byteOrder, Text.bytes_ofList, Text.bytes_ofList, (ordered_written h h' fixed).compares]

end TimeFormat

/-- The second and the fraction that a clock shows count the nanoseconds of a minute. -/
lemma TimeOfDay.shown_eq (t : TimeOfDay) :
    t.shownSecond * 1000000000 + t.fraction = t.second * 1000000000 + t.nanosecond := by
  unfold shownSecond fraction
  omega

/-- A leap second is shown as the second 60, and compares as the last second with more nanoseconds
than any other: its place is the same. -/
lemma TimeOfDay.compare_shown (a b : TimeOfDay) :
    (compare a.shownSecond b.shownSecond).then (compare a.fraction b.fraction) =
      (compare a.second b.second).then (compare a.nanosecond b.nanosecond) := by
  have ha := a.valid
  have hb := b.valid
  rw [← compare_mul_add a.fraction_lt b.fraction_lt, a.shown_eq, b.shown_eq]
  rcases Nat.lt_trichotomy a.second b.second with h | h | h
  · rw [Nat.compare_eq_lt.mpr h, Nat.compare_eq_lt.mpr (by omega)]
    rfl
  · rw [h, Nat.compare_eq_eq.mpr rfl, Nat.compare_eq_ite_lt, Nat.compare_eq_ite_lt]
    simp [Ordering.then]
  · rw [Nat.compare_eq_gt.mpr h, Nat.compare_eq_gt.mpr (by omega)]
    rfl

lemma DateTime.order_format (a b : DateTime) :
    TimeFormat.order a b nanosecondFormat = a.compare b := by
  simp only [nanosecondFormat, secondFormat, minuteFormat, Date.format, List.cons_append,
    List.nil_append, TimeFormat.order, TimeItem.order, Ordering.eq_then, Ordering.then_eq]
  rw [TimeOfDay.compare_shown, DateTime.compare, Date.compare, TimeOfDay.compare,
    Ordering.then_assoc, Ordering.then_assoc]

lemma Date.order_format (a b : Date) :
    TimeFormat.order (.startOf a) (.startOf b) format = a.compare b := by
  simp only [format, TimeFormat.order, TimeItem.order, Ordering.eq_then, Ordering.then_eq]
  rfl

/-! ### Stored texts -/

lemma DateTime.byteOrder_text {a b : DateTime} (ha : a.date.HasPlainYear)
    (hb : b.date.HasPlainYear) :
    Text.byteOrder a.nanosecondText b.nanosecondText = a.compare b := by
  rw [nanosecondText, nanosecondText, TimeFormat.byteOrder_written ha hb (by decide), order_format]

lemma Date.byteOrder_text {a b : Date} (ha : a.HasPlainYear) (hb : b.HasPlainYear) :
    Text.byteOrder a.text b.text = a.compare b := by
  rw [text, text, TimeFormat.byteOrder_written ha hb (by decide), order_format]

/-- Of any years, date-times with the same text are the same. -/
lemma DateTime.nanosecondText_injective : Function.Injective nanosecondText := by
  intro a b h
  have hchars := congrArg String.toList h
  rw [nanosecondText, nanosecondText, String.toList_ofList, String.toList_ofList] at hchars
  have hread := read?_nanosecond a
  rw [hchars, read?_nanosecond b] at hread
  exact (Option.some.inj hread).symm

lemma Date.text_injective : Function.Injective text := by
  intro a b h
  have hread := a.ofText?_text
  rw [h, b.ofText?_text] at hread
  exact (Option.some.inj hread).symm

/-! ### Comparisons and sort keys -/

/-- The orders of two values of which a comparison is true. -/
def Comparison.admits (c : Comparison) (order : Ordering) : Bool :=
  match c with
  | eq => order == .eq
  | ne => order != .eq
  | gt => order == .gt
  | ge => order != .lt
  | lt => order == .lt
  | le => order != .gt

/-- A database compares texts byte by byte. -/
def Database.ComparesBytes (db : Database) : Prop :=
  ∀ c s s', db.compares c (.text s) (.text s') = c.admits (Text.byteOrder s s')

/-- The order of sort columns that hold texts: null comes first, and texts go byte by byte. -/
def SqlValue.textOrder : SqlValue → SqlValue → Ordering
  | text s, text s' => Text.byteOrder s s'
  | null, text _ => .lt
  | text _, null => .gt
  | _, _ => .eq

/-- Two values are stored as texts that a database treats as the values are treated in memory. -/
structure Value.StoredInOrder (v w : Value) : Prop where
  /-- Byte by byte, the texts compare as the values. -/
  texts : ∃ s s', SqlValue.ofValue v = .text s ∧ SqlValue.ofValue w = .text s' ∧
    v.compare? w = some (Text.byteOrder s s')
  /-- Every comparison is true of the texts if it is true of the values. -/
  comparisons : ∀ db : Database, db.ComparesBytes → db.Agrees v w
  /-- As sort keys, with null where there is no value, the texts are in the order of the values. -/
  sortKeys : ∀ x ∈ [.null, v], ∀ y ∈ [.null, w],
    (SqlValue.ofValue x).textOrder (.ofValue y) = x.sortOrder y

namespace Value

variable {v w : Value} {s s' : String}

lemma identity_ne_null (h : SqlValue.ofValue v = .text s) : v.identity ≠ .null := by
  intro hnull
  simp [SqlValue.ofValue, hnull] at h

/-- The order of the texts is all that a database needs. -/
lemma StoredInOrder.of_texts (hv : SqlValue.ofValue v = .text s) (hw : SqlValue.ofValue w = .text s')
    (ordered : v.compare? w = some (Text.byteOrder s s')) (same : v.sameAs w = true ↔ s = s') :
    v.StoredInOrder w where
  texts := ⟨s, s', hv, hw, ordered⟩
  comparisons db bytewise c := by
    have hsame : v.sameAs w = (Text.byteOrder s s' == .eq) := by
      rw [Bool.eq_iff_iff, same, beq_iff_eq, Text.byteOrder_eq_iff]
    have hholds : c.holds v w = c.admits (Text.byteOrder s s') := by
      cases c <;> simp [Comparison.holds, Comparison.admits, hsame, ordered, bne]
    rw [Database.compare, hv, hw, bytewise, hholds, if_neg (by simp)]
  sortKeys x hx y hy := by
    have hvn := identity_ne_null hv
    have hwn := identity_ne_null hw
    have hnull : SqlValue.ofValue .null = .null := rfl
    have hsort : v.sortOrder w = Text.byteOrder s s' := by
      rw [sortOrder_eq_compare? hvn hwn, ordered, Option.getD_some]
    rcases List.mem_pair.mp hx with rfl | rfl <;> rcases List.mem_pair.mp hy with rfl | rfl
    · rfl
    · rw [hw, hnull, sortOrder_of_null (.inl rfl), Condition.isNull_eq_false hwn]
      rfl
    · rw [hv, hnull, sortOrder_of_null (.inr rfl), Condition.isNull_eq_false hvn]
      rfl
    · rw [hv, hw, hsort]
      rfl

end Value

lemma DateTime.sameAs_iff {a b : DateTime} :
    (Value.dateTime a).sameAs (.dateTime b) = true ↔ a.nanosecondText = b.nanosecondText := by
  rw [nanosecondText_injective.eq_iff]
  exact beq_iff_eq (a := a)

lemma Date.sameAs_iff {a b : Date} :
    (Value.date a).sameAs (.date b) = true ↔ a.text = b.text := by
  rw [text_injective.eq_iff]
  exact beq_iff_eq (a := a)

end EntityQuery
