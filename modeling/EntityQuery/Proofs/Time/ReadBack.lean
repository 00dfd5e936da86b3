import EntityQuery.Proofs.Text.Letter
import EntityQuery.Proofs.Text.Numeral
import EntityQuery.Time.Written

/-!
# Dates and date-times are read back

A written number of a fixed width is taken off the front of a text as a whole, whether the reader
would go on or not. Item by item, the text of a format is read as the date-time it was written for,
and no format before it reads it as another one.
-/

namespace EntityQuery

namespace Text

variable {c : Char} {cs : List Char}

lemma dropSpace_of_head (h : ∀ c ∈ cs.head?, isSpace c = false) : dropSpace cs = cs := by
  cases cs with
  | nil => rfl
  | cons c cs => rw [dropSpace, List.dropWhile_cons, h c rfl, if_neg Bool.false_ne_true]

/-- A text without white space at its ends is trimmed. -/
lemma trimmed_of_ends (first : ∀ c ∈ cs.head?, isSpace c = false)
    (last : ∀ c ∈ cs.getLast?, isSpace c = false) : trimmed cs = cs := by
  have hlast : ∀ c ∈ cs.reverse.head?, isSpace c = false := by
    rw [List.head?_reverse]
    exact last
  rw [trimmed, dropSpace_of_head first, dropSpace_of_head hlast, List.reverse_reverse]

lemma dropSpace_append_of_space {front : List Char} (h : ∀ c ∈ front, isSpace c = true) :
    dropSpace (front ++ cs) = dropSpace cs :=
  List.dropWhile_append_of_pos h

/-- White space around a text does not change the trimmed text. -/
lemma trimmed_surrounded {front back : List Char} (hfront : ∀ c ∈ front, isSpace c = true)
    (hback : ∀ c ∈ back, isSpace c = true) : trimmed (front ++ cs ++ back) = trimmed cs := by
  have hreverse : ∀ c ∈ back.reverse, isSpace c = true := fun c hc => hback c (List.mem_reverse.mp hc)
  rw [trimmed, trimmed, List.append_assoc, dropSpace_append_of_space hfront]
  by_cases hspace : dropSpace cs = []
  · have hall : dropSpace (cs ++ back) = [] := by
      have hdrop : dropSpace (back ++ []) = [] := dropSpace_append_of_space hback
      rw [List.append_nil] at hdrop
      rw [dropSpace, List.dropWhile_append, if_pos (by simpa [dropSpace] using hspace)]
      exact hdrop
    rw [hall, hspace]
  · have hkept : dropSpace (cs ++ back) = dropSpace cs ++ back := by
      rw [dropSpace, List.dropWhile_append, if_neg (by simpa [dropSpace] using hspace)]
      rfl
    rw [hkept, List.reverse_append, dropSpace_append_of_space hreverse]

lemma isSpace_of_mem_head?_padded {width n : Nat} {rest : List Char} :
    ∀ c ∈ (padded width n ++ rest).head?, isSpace c = false := by
  intro c hc
  rw [List.head?_append, List.head?_eq_some_head (padded_ne_nil width n), Option.some_or] at hc
  obtain rfl := Option.some.inj hc
  exact isSpace_of_isDigit (isDigit_of_mem_padded (List.head_mem _))

lemma isSpace_of_mem_getLast?_padded {width n : Nat} {front : List Char} :
    ∀ c ∈ (front ++ padded width n).getLast?, isSpace c = false := by
  intro c hc
  rw [List.getLast?_append, List.getLast?_eq_some_getLast (padded_ne_nil width n),
    Option.some_or] at hc
  obtain rfl := Option.some.inj hc
  exact isSpace_of_isDigit (isDigit_of_mem_padded (List.getLast_mem _))

end Text

/-! ### Parts -/

namespace Date

lemma fields_lt (d : Date) : d.month < 100 ∧ d.day < 100 := by
  obtain ⟨year, month, day, -, hday, hdays⟩ := d
  have hmonth : month ≤ 12 ∧ daysIn year month ≤ 31 := by
    unfold daysIn at hdays ⊢
    split at hdays
    case h_4 => omega
    all_goals
      refine ⟨by omega, ?_⟩
      try simp only [Nat.le_refl, Nat.reduceLeDiff]
    split <;> decide
  change month < 100 ∧ day < 100
  omega

lemma ofParts?_parts (d : Date) : ofParts? d.year d.month d.day = some d :=
  dif_pos d.valid

end Date

namespace TimeOfDay

lemma shownSecond_lt (t : TimeOfDay) : t.shownSecond < 100 := by
  have hvalid := t.valid
  unfold shownSecond
  omega

lemma fraction_lt (t : TimeOfDay) : t.fraction < 1000000000 :=
  Nat.mod_lt _ (by decide)

lemma ofParts?_shown (t : TimeOfDay) :
    ofParts? t.hour t.minute t.shownSecond t.fraction = some t := by
  obtain ⟨hour, minute, second, nanosecond, hhour, hminute, hsecond, hnano, hleap⟩ := t
  by_cases h : 1000000000 ≤ nanosecond
  · obtain rfl := hleap h
    have hdiv : nanosecond / 1000000000 = 1 := by omega
    have hmod : 1000000000 + nanosecond % 1000000000 = nanosecond := by omega
    simp [ofParts?, shownSecond, fraction, hdiv, hmod]
    omega
  · have hdiv : nanosecond / 1000000000 = 0 := by omega
    have hmod : nanosecond % 1000000000 = nanosecond := by omega
    have hne : second ≠ 60 := by omega
    simp [ofParts?, shownSecond, fraction, hdiv, hmod, hne]
    omega

end TimeOfDay

namespace Time

variable {n width : Nat} {digits rest : List Char}

/-! ### Numbers -/

/-- Digits are taken up to the width, or up to what is no digit. -/
lemma readDigits?_append (rest : List Char) (some : digits ≠ []) (all : ∀ c ∈ digits, c.isDigit = true)
    (fits : digits.length ≤ width)
    (stop : digits.length = width ∨ ∀ c ∈ rest.head?, c.isDigit = false) :
    readDigits? width (digits ++ rest) = .some (Text.digitsValue digits, rest) := by
  have htake : ((digits ++ rest).take width).takeWhile Char.isDigit = digits := by
    rw [List.take_append, List.take_of_length_le fits, List.takeWhile_append_of_pos all]
    rcases stop with hwidth | hrest
    · simp [hwidth]
    · cases rest with
      | nil => simp
      | cons c rest =>
        have hc : c.isDigit = false := hrest c rfl
        cases hwidth : width - digits.length <;> simp [hc]
  simp [readDigits?, htake, some]

/-- Two digits are a number below a hundred. -/
lemma readField?_padded (hn : n < 100) (rest : List Char) :
    readField? (Text.padded 2 n ++ rest) = some (n, rest) := by
  have hlength : (Text.padded 2 n).length = 2 := Text.length_padded (by decide) hn
  rw [readField?, Text.dropSpace_of_head Text.isSpace_of_mem_head?_padded,
    readDigits?_append rest (Text.padded_ne_nil 2 n) (fun c hc => Text.isDigit_of_mem_padded hc)
      (Nat.le_of_eq hlength) (.inl hlength), Text.digitsValue_padded]

lemma isSpace_of_mem_head?_yearText (year : Int) :
    ∀ c ∈ (yearText year ++ rest).head?, Text.isSpace c = false := by
  unfold yearText
  split
  · exact Text.isSpace_of_mem_head?_padded
  · split <;> simp <;> decide

/-- A year takes as many digits as there are if it has a sign. -/
lemma readYear?_yearText (year : Int) (stop : ∀ c ∈ rest.head?, c.isDigit = false) :
    readYear? (yearText year ++ rest) = some (year, rest) := by
  have hall : ∀ c ∈ Text.padded 4 year.natAbs, c.isDigit = true :=
    fun c hc => Text.isDigit_of_mem_padded hc
  have hsome := Text.padded_ne_nil 4 year.natAbs
  have hsigned : readDigits? (Text.padded 4 year.natAbs ++ rest).length
      (Text.padded 4 year.natAbs ++ rest) = some (year.natAbs, rest) := by
    rw [readDigits?_append rest hsome hall (by simp) (.inr stop), Text.digitsValue_padded]
  unfold readYear?
  rw [Text.dropSpace_of_head (isSpace_of_mem_head?_yearText year), yearText]
  by_cases hshort : 0 ≤ year ∧ year ≤ 9999
  · have hlength : (Text.padded 4 year.natAbs).length = 4 :=
      Text.length_padded (by decide) (by change _ < 10000; omega)
    have hread := readDigits?_append rest hsome hall (Nat.le_of_eq hlength) (.inl hlength)
    rw [Text.digitsValue_padded] at hread
    obtain ⟨d, ds, hcons⟩ := List.exists_cons_of_ne_nil hsome
    have hd : d.isDigit = true := hall d (by simp [hcons])
    rw [if_pos hshort]
    rw [hcons, List.cons_append] at hread ⊢
    split
    · rename_i heq
      rw [(List.cons.inj heq).1] at hd
      cases hd
    · rename_i heq
      rw [(List.cons.inj heq).1] at hd
      cases hd
    · rw [hread]
      simp
      omega
  · rw [if_neg hshort]
    by_cases hnegative : year < 0
    · rw [if_pos hnegative, List.cons_append]
      simp only [hsigned, Option.map_some]
      congr 2
      omega
    · rw [if_neg hnegative, List.cons_append]
      simp only [hsigned, Option.map_some]
      congr 2
      omega

/-- The digits of a fraction stand for its nanoseconds. -/
lemma readFraction?_padded (width : Nat) {n : Nat} (hwidth : 0 < width) (hle : width ≤ 9)
    (hn : n < Nat.pow 10 width) (stop : ∀ c ∈ rest.head?, c.isDigit = false) :
    readFraction? (Text.padded width n ++ rest) = some (n * Nat.pow 10 (9 - width), rest) := by
  have hlength := Text.length_padded hwidth hn
  have hall : ∀ c ∈ Text.padded width n, c.isDigit = true :=
    fun c hc => Text.isDigit_of_mem_padded hc
  have hrest (k : Nat) : (rest.take k).takeWhile Char.isDigit = [] := by
    cases rest with
    | nil => simp
    | cons c rest => cases k <;> simp [stop c rfl]
  have hdrop : rest.dropWhile Char.isDigit = rest := by
    cases rest with
    | nil => rfl
    | cons c rest => rw [List.dropWhile_cons, stop c rfl, if_neg Bool.false_ne_true]
  have htake : ((Text.padded width n ++ rest).take 9).takeWhile Char.isDigit =
      Text.padded width n := by
    rw [List.take_append, List.take_of_length_le (by omega), List.takeWhile_append_of_pos hall,
      hrest, List.append_nil]
  rw [readFraction?]
  simp only [htake, if_neg (Text.padded_ne_nil width n), hlength, Text.digitsValue_padded,
    List.dropWhile_append_of_pos hall, hdrop]

end Time

/-! ### Items -/

namespace TimeItem

variable {t : DateTime} {rest : List Char}

/-- What an item says of a date-time. -/
def record (t : DateTime) (f : TimeFields) : TimeItem → TimeFields
  | year => { f with year := some t.date.year }
  | month => { f with month := some t.date.month }
  | day => { f with day := some t.date.day }
  | hour => { f with hour := some t.time.hour }
  | minute => { f with minute := some t.time.minute }
  | second => { f with second := some t.time.shownSecond }
  | fraction => if t.time.fraction = 0 then f else { f with fraction := some t.time.fraction }
  | nanosecond => { f with fraction := some t.time.fraction }
  | space | mark _ => f

/-- Whether what follows an item cannot be taken for a part of it. -/
def EndsBefore (rest : List Char) : TimeItem → Prop
  | year => ∀ c ∈ rest.head?, c.isDigit = false
  | fraction | nanosecond => ∀ c ∈ rest.head?, c.isDigit = false ∧ c ≠ '.'
  | space => ∀ c ∈ rest.head?, Text.isSpace c = false
  | _ => True

/-- A fraction is read as its nanoseconds; where it is left out, nothing is read. -/
lemma read?_fractionChars (f : TimeFields) (stop : EndsBefore rest fraction) :
    fraction.read? f (t.time.fractionChars ++ rest) = some (fraction.record t f, rest) := by
  have hlt := t.time.fraction_lt
  have hdigit : ∀ c ∈ rest.head?, c.isDigit = false := fun c hc => (stop c hc).1
  simp only [record, TimeOfDay.fractionChars]
  generalize t.time.fraction = n at hlt ⊢
  by_cases hzero : n = 0
  · rw [if_pos hzero, if_pos hzero, List.nil_append]
    cases rest with
    | nil => rfl
    | cons c rest =>
      have hpoint : c ≠ '.' := (stop c rfl).2
      simp [read?, hpoint]
  rw [if_neg hzero, if_neg hzero]
  by_cases hmilli : n % 1000000 = 0
  · have hread := Time.readFraction?_padded 3 (n := n / 1000000) (by decide) (by decide)
      (by change _ < 1000; omega) hdigit
    have hmul : n / 1000000 * Nat.pow 10 (9 - 3) = n := by change _ * 1000000 = _; omega
    rw [if_pos hmilli, List.cons_append, read?, hread, hmul]
    rfl
  rw [if_neg hmilli]
  by_cases hmicro : n % 1000 = 0
  · have hread := Time.readFraction?_padded 6 (n := n / 1000) (by decide) (by decide)
      (by change _ < 1000000; omega) hdigit
    have hmul : n / 1000 * Nat.pow 10 (9 - 6) = n := by change _ * 1000 = _; omega
    rw [if_pos hmicro, List.cons_append, read?, hread, hmul]
    rfl
  · have hread := Time.readFraction?_padded 9 (by decide) (by decide) hlt hdigit
    have hmul : n * Nat.pow 10 (9 - 9) = n := Nat.mul_one n
    rw [if_neg hmicro, List.cons_append, read?, hread, hmul]
    rfl

/-- An item is read off the front of a text as what it was written for. -/
lemma read?_written (f : TimeFields) (item : TimeItem) (stop : item.EndsBefore rest) :
    item.read? f (item.written t ++ rest) = some (item.record t f, rest) := by
  obtain ⟨hmonth, hday⟩ := t.date.fields_lt
  have htime := t.time.valid
  cases item with
  | year => simp [read?, written, record, Time.readYear?_yearText _ stop]
  | month => simp [read?, written, record, Time.readField?_padded hmonth]
  | day => simp [read?, written, record, Time.readField?_padded hday]
  | hour =>
    have hhour : t.time.hour < 100 := by omega
    simp [read?, written, record, Time.readField?_padded hhour]
  | minute =>
    have hminute : t.time.minute < 100 := by omega
    simp [read?, written, record, Time.readField?_padded hminute]
  | second => simp [read?, written, record, Time.readField?_padded t.time.shownSecond_lt]
  | fraction => exact read?_fractionChars f stop
  | nanosecond =>
    have hread := Time.readFraction?_padded 9 (by decide) (by decide) t.time.fraction_lt
      fun c hc => (stop c hc).1
    simp [read?, written, record, hread]
  | space =>
    have hblank : Text.isSpace ' ' = true := rfl
    have hdrop : Text.dropSpace (' ' :: rest) = rest := by
      rw [Text.dropSpace, List.dropWhile_cons, if_pos hblank]
      exact Text.dropSpace_of_head stop
    simp [read?, written, record, hdrop]
  | mark c => simp [read?, written, record]

end TimeItem

/-! ### Formats -/

namespace TimeFormat

variable {t : DateTime} {rest : List Char} {format more : List TimeItem}

/-- What a format says of a date-time. -/
def recorded (format : List TimeItem) (t : DateTime) : TimeFields :=
  format.foldl (TimeItem.record t) .empty

/-- Whether no item of a format can be taken for longer than it is, with a text behind the format. -/
def EndsBefore (t : DateTime) (rest : List Char) : List TimeItem → Prop
  | [] => True
  | item :: format => item.EndsBefore (written format t ++ rest) ∧ EndsBefore t rest format

lemma written_append (format more : List TimeItem) (t : DateTime) :
    written (format ++ more) t = written format t ++ written more t :=
  List.flatMap_append

lemma endsBefore_append (first : EndsBefore t (written more t ++ rest) format)
    (behind : EndsBefore t rest more) : EndsBefore t rest (format ++ more) := by
  induction format with
  | nil => exact behind
  | cons item format ih =>
    refine ⟨?_, ih first.2⟩
    change item.EndsBefore (written (format ++ more) t ++ rest)
    rw [written_append, List.append_assoc]
    exact first.1

/-- **Formats** are read item by item as what they were written for. -/
lemma readItems?_written (f : TimeFields) (stop : EndsBefore t rest format) :
    readItems? f (written format t ++ rest) format =
      some (format.foldl (TimeItem.record t) f, rest) := by
  induction format generalizing f with
  | nil => rfl
  | cons item format ih =>
    have hwritten : written (item :: format) t ++ rest =
        item.written t ++ (written format t ++ rest) := List.append_assoc ..
    rw [readItems?, hwritten, TimeItem.read?_written f item stop.1, Option.bind_some]
    exact ih _ stop.2

/-- A format that goes on is read as its beginning and then the rest. -/
lemma readItems?_append (f : TimeFields) (cs : List Char) (format more : List TimeItem) :
    readItems? f cs (format ++ more) =
      (readItems? f cs format).bind fun (f, cs) => readItems? f cs more := by
  induction format generalizing f cs with
  | nil => rfl
  | cons item format ih =>
    rw [List.cons_append, readItems?, readItems?, Option.bind_assoc]
    exact Option.bind_congr fun x _ => ih x.1 x.2

lemma read?_written (stop : EndsBefore t [] format) :
    read? format (written format t) = some (recorded format t) := by
  have hread := readItems?_written .empty stop
  rw [List.append_nil] at hread
  rw [read?, hread]
  rfl

/-- A text that goes on behind a format is none of it. -/
lemma read?_eq_none (stop : EndsBefore t rest format) (more : rest ≠ []) :
    read? format (written format t ++ rest) = none := by
  obtain ⟨c, cs, rfl⟩ := List.exists_cons_of_ne_nil more
  rw [read?, readItems?_written .empty stop]

/-! ### The formats of dates and date-times -/

lemma endsBefore_date (t : DateTime) (rest : List Char) : EndsBefore t rest Date.format := by
  simp [Date.format, EndsBefore, TimeItem.EndsBefore, written, TimeItem.written]

lemma endsBefore_minute (t : DateTime) (rest : List Char) :
    EndsBefore t rest DateTime.minuteFormat := by
  refine endsBefore_append (endsBefore_date t _) ?_
  refine ⟨?_, by simp [EndsBefore, TimeItem.EndsBefore]⟩
  have hwritten : written [.hour, .mark ':', .minute] t ++ rest =
      Text.padded 2 t.time.hour ++ (written [.mark ':', .minute] t ++ rest) :=
    List.append_assoc ..
  rw [hwritten]
  exact Text.isSpace_of_mem_head?_padded

lemma endsBefore_second (t : DateTime) (rest : List Char) :
    EndsBefore t rest DateTime.secondFormat :=
  endsBefore_append (endsBefore_minute t _) (by simp [EndsBefore, TimeItem.EndsBefore])

lemma endsBefore_fraction (t : DateTime) : EndsBefore t [] DateTime.fractionFormat :=
  endsBefore_append (endsBefore_second t _)
    (by simp [EndsBefore, TimeItem.EndsBefore, written])

lemma endsBefore_nanosecond (t : DateTime) : EndsBefore t [] DateTime.nanosecondFormat :=
  endsBefore_append (endsBefore_second t _)
    (by simp [EndsBefore, TimeItem.EndsBefore, written])

/-! ### No white space at the ends -/

lemma written_concat (format : List TimeItem) (item : TimeItem) (t : DateTime) :
    written (format ++ [item]) t = written format t ++ item.written t := by
  rw [written_append, written, written, List.flatMap_singleton]

/-- The text of the format ends with a number. -/
def EndsInNumber (format : List TimeItem) (t : DateTime) : Prop :=
  ∃ front width n, written format t = front ++ Text.padded width n

/-- A text that begins with a year and ends with a number is trimmed. -/
lemma trimmed_written (first : format.head? = some .year) (last : EndsInNumber format t) :
    Text.trimmed (written format t) = written format t := by
  obtain ⟨front, width, n, hlast⟩ := last
  refine Text.trimmed_of_ends ?_ ?_
  · obtain ⟨more, rfl⟩ := List.head?_eq_some_iff.mp first
    exact Time.isSpace_of_mem_head?_yearText t.date.year
  · rw [hlast]
    exact Text.isSpace_of_mem_getLast?_padded

lemma endsInNumber_date (t : DateTime) : EndsInNumber Date.format t :=
  ⟨_, 2, t.date.day, written_concat [.year, .mark '-', .month, .mark '-'] .day t⟩

lemma endsInNumber_minute (t : DateTime) : EndsInNumber DateTime.minuteFormat t := by
  have hminute := written_concat (Date.format ++ [.space, .hour, .mark ':']) .minute t
  exact ⟨_, 2, t.time.minute, hminute⟩

/-- Without a fraction, the second is the last number. -/
lemma endsInNumber_fraction (t : DateTime) : EndsInNumber DateTime.fractionFormat t := by
  have hsecond := written_concat (DateTime.minuteFormat ++ [.mark ':']) .second t
  have hfraction := written_concat DateTime.secondFormat .fraction t
  obtain hnone | ⟨width, n, hsome⟩ : t.time.fractionChars = [] ∨
      ∃ width n, t.time.fractionChars = ['.'] ++ Text.padded width n := by
    unfold TimeOfDay.fractionChars
    simp only []
    split
    · exact .inl rfl
    · split
      · exact .inr ⟨3, _, rfl⟩
      · split
        · exact .inr ⟨6, _, rfl⟩
        · exact .inr ⟨9, _, rfl⟩
  · rw [TimeItem.written, hnone, List.append_nil] at hfraction
    exact ⟨_, 2, t.time.shownSecond, hfraction.trans hsecond⟩
  · rw [TimeItem.written, hsome, ← List.append_assoc] at hfraction
    exact ⟨_, width, n, hfraction⟩

end TimeFormat

/-! ### Whole texts -/

namespace DateTime

variable {t : DateTime}

open TimeFormat

lemma read?_minute (t : DateTime) (whole : t.time.second = 0 ∧ t.time.nanosecond = 0) :
    read? minuteFormat (written minuteFormat t) = some t := by
  have hrecorded : recorded minuteFormat t = ⟨some t.date.year, some t.date.month,
      some t.date.day, some t.time.hour, some t.time.minute, none, none⟩ := rfl
  have htime : TimeOfDay.ofParts? t.time.hour t.time.minute 0 0 = some t.time := by
    have hshown := t.time.ofParts?_shown
    rwa [TimeOfDay.shownSecond, TimeOfDay.fraction, whole.1, whole.2] at hshown
  rw [read?, TimeFormat.read?_written (endsBefore_minute t []), hrecorded]
  simp [TimeFields.date?, TimeFields.time?, t.date.ofParts?_parts, htime]

/-- A fraction that is left out is none. -/
lemma read?_fraction (t : DateTime) :
    read? fractionFormat (written fractionFormat t) = some t := by
  have hrecorded : recorded fractionFormat t = ⟨some t.date.year, some t.date.month,
      some t.date.day, some t.time.hour, some t.time.minute, some t.time.shownSecond,
      if t.time.fraction = 0 then none else some t.time.fraction⟩ := by
    change TimeItem.record t (recorded secondFormat t) .fraction = _
    rw [TimeItem.record]
    split <;> rfl
  have hfraction : (if t.time.fraction = 0 then none else some t.time.fraction).getD 0 =
      t.time.fraction := by
    split
    · rename_i h
      exact h.symm
    · rfl
  rw [read?, TimeFormat.read?_written (endsBefore_fraction t), hrecorded]
  simp [TimeFields.date?, TimeFields.time?, t.date.ofParts?_parts, hfraction,
    t.time.ofParts?_shown]

lemma read?_nanosecond (t : DateTime) :
    read? nanosecondFormat (written nanosecondFormat t) = some t := by
  have hrecorded : recorded nanosecondFormat t = ⟨some t.date.year, some t.date.month,
      some t.date.day, some t.time.hour, some t.time.minute, some t.time.shownSecond,
      some t.time.fraction⟩ := rfl
  rw [read?, TimeFormat.read?_written (endsBefore_nanosecond t), hrecorded]
  simp [TimeFields.date?, TimeFields.time?, t.date.ofParts?_parts, t.time.ofParts?_shown]

/-- The second behind a minute is none of the minute's format. -/
lemma read?_minute_fraction (t : DateTime) :
    read? minuteFormat (written fractionFormat t) = none := by
  have hwritten : written fractionFormat t =
      written minuteFormat t ++ ':' :: written [.second, .fraction] t :=
    written_append minuteFormat [.mark ':', .second, .fraction] t
  rw [read?, hwritten, TimeFormat.read?_eq_none (endsBefore_minute t _) (List.cons_ne_nil _ _)]
  rfl

/-- A date alone lacks the hour of a format that goes on. -/
lemma read?_date {more : List TimeItem} (t : DateTime) :
    read? (Date.format ++ .space :: .hour :: more) (written Date.format t) = none := by
  have hread := readItems?_written .empty (endsBefore_date t [])
  rw [List.append_nil] at hread
  rw [read?, TimeFormat.read?, readItems?_append, hread]
  rfl

/-- A date-time is written to the minute if it is a whole one, and otherwise to the second and its
fraction. -/
lemma text_cases (t : DateTime) :
    (t.time.second = 0 ∧ t.time.nanosecond = 0) ∧ t.text.toList = written minuteFormat t ∨
      t.text.toList = written fractionFormat t := by
  unfold text format
  split
  · exact .inl ⟨⟨‹_›, ‹_›⟩, String.toList_ofList⟩
  · rename_i hnanosecond _
    -- a whole second is written in either format alike
    have hfraction : t.time.fractionChars = [] := by
      rw [TimeOfDay.fractionChars, TimeOfDay.fraction, hnanosecond]
      rfl
    refine .inr ?_
    rw [String.toList_ofList, fractionFormat, written_concat, TimeItem.written, hfraction,
      List.append_nil]
  · exact .inr String.toList_ofList

lemma trimmed_text (t : DateTime) : Text.trimmed t.text.toList = t.text.toList := by
  rcases t.text_cases with ⟨-, htext⟩ | htext
  · rw [htext, trimmed_written rfl (endsInNumber_minute t)]
  · rw [htext, trimmed_written rfl (endsInNumber_fraction t)]

/-- **Date-times** are read back from their texts. -/
theorem ofText?_text (t : DateTime) : ofText? t.text = some t := by
  simp only [ofText?, t.trimmed_text]
  rcases t.text_cases with ⟨hwhole, htext⟩ | htext
  · rw [htext, read?_minute t hwhole]
    rfl
  · rw [htext, read?_minute_fraction, read?_fraction]
    rfl

end DateTime

namespace Date

open TimeFormat

lemma toList_text (d : Date) : d.text.toList = written format (.startOf d) :=
  String.toList_ofList

lemma trimmed_text (d : Date) : Text.trimmed d.text.toList = d.text.toList := by
  rw [toList_text, trimmed_written rfl (endsInNumber_date _)]

lemma read?_text (d : Date) : read? d.text.toList = some d := by
  have hrecorded : recorded format (.startOf d) =
      ⟨some d.year, some d.month, some d.day, none, none, none, none⟩ := rfl
  rw [read?, toList_text, TimeFormat.read?_written (endsBefore_date _ []), hrecorded]
  simp [TimeFields.date?, d.ofParts?_parts]

/-- **Dates** are read back from their texts. -/
theorem ofText?_text (d : Date) : ofText? d.text = some d := by
  simp only [ofText?, d.trimmed_text, d.read?_text]
  rfl

/-- The time of day behind a date is none of the date's format. -/
lemma read?_dateTime (t : DateTime) : read? t.text.toList = none := by
  obtain ⟨more, hwritten⟩ : ∃ more, t.text.toList = written format t ++ ' ' :: more := by
    rcases t.text_cases with ⟨-, htext⟩ | htext
    · exact ⟨_, htext.trans (written_append format [.space, .hour, .mark ':', .minute] t)⟩
    · exact ⟨_, htext.trans (written_append format
        [.space, .hour, .mark ':', .minute, .mark ':', .second, .fraction] t)⟩
  rw [read?, hwritten, TimeFormat.read?_eq_none (endsBefore_date t _) (List.cons_ne_nil _ _)]
  rfl

end Date

/-! ### The other kind -/

/-- The text of a date is read as the start of its day. -/
lemma DateTime.ofText?_text_date (d : Date) : ofText? d.text = some (.startOf d) := by
  have hminute : read? minuteFormat d.text.toList = none := by
    rw [d.toList_text]
    exact read?_date _
  have hfraction : read? fractionFormat d.text.toList = none := by
    rw [d.toList_text]
    exact read?_date _
  simp only [ofText?, d.trimmed_text, hminute, hfraction, d.read?_text]
  rfl

/-- The text of a date-time is read as the date, for the time of day behind it is dropped. -/
lemma Date.ofText?_text_dateTime (t : DateTime) : ofText? t.text = some t.date := by
  have hread := t.ofText?_text
  simp only [ofText?, t.trimmed_text, read?_dateTime, String.ofList_toList, hread]
  rfl

end EntityQuery
