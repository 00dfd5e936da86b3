/-!
Dates of the Gregorian calendar, extended to all years between -262143 and 262142, and times of day
to the nanosecond.
-/

namespace EntityQuery

/-- Years divisible by four, except centuries that four hundred does not divide. -/
def isLeapYear (year : Int) : Bool :=
  year % 4 == 0 && (year % 100 != 0 || year % 400 == 0)

/-- The number of days in a month; no month has the number of a day outside 1 to 12. -/
def daysIn (year : Int) : Nat → Nat
  | 1 | 3 | 5 | 7 | 8 | 10 | 12 => 31
  | 4 | 6 | 9 | 11 => 30
  | 2 => if isLeapYear year then 29 else 28
  | _ => 0

/-- A calendar date. -/
structure Date where
  year : Int
  month : Nat
  day : Nat
  valid : (-262143 ≤ year ∧ year ≤ 262142) ∧ 1 ≤ day ∧ day ≤ daysIn year month
  deriving DecidableEq

namespace Date

/-- The date with these parts, if the calendar has it. -/
def ofParts? (year : Int) (month day : Nat) : Option Date :=
  if h : (-262143 ≤ year ∧ year ≤ 262142) ∧ 1 ≤ day ∧ day ≤ daysIn year month then
    some ⟨year, month, day, h⟩
  else none

/-- Chronological order. -/
protected def compare (a b : Date) : Ordering :=
  (Ord.compare a.year b.year).then ((Ord.compare a.month b.month).then (Ord.compare a.day b.day))

/-- The first of January of the year zero. -/
instance : Inhabited Date := ⟨⟨0, 1, 1, by decide⟩⟩

end Date

/-- A time of day. A leap second is the second 59 with a thousand million nanoseconds more. -/
structure TimeOfDay where
  hour : Nat
  minute : Nat
  second : Nat
  nanosecond : Nat
  valid : hour < 24 ∧ minute < 60 ∧ second < 60 ∧ nanosecond < 2000000000
    ∧ (1000000000 ≤ nanosecond → second = 59)
  deriving DecidableEq

namespace TimeOfDay

/-- The start of the day. -/
def midnight : TimeOfDay :=
  ⟨0, 0, 0, 0, by decide⟩

/-- The time with these parts; second 60 is a leap second. -/
def ofParts? (hour minute second fraction : Nat) : Option TimeOfDay :=
  let (s, n) := if second = 60 then (59, 1000000000 + fraction) else (second, fraction)
  if h : hour < 24 ∧ minute < 60 ∧ s < 60 ∧ n < 2000000000 ∧ (1000000000 ≤ n → s = 59) then
    some ⟨hour, minute, s, n, h⟩
  else none

/-- The number of the second as a clock shows it, 60 in a leap second. -/
def shownSecond (t : TimeOfDay) : Nat :=
  t.second + t.nanosecond / 1000000000

/-- The nanoseconds since the second that a clock shows. -/
def fraction (t : TimeOfDay) : Nat :=
  t.nanosecond % 1000000000

/-- Chronological order within a day. -/
protected def compare (a b : TimeOfDay) : Ordering :=
  (Ord.compare a.hour b.hour).then ((Ord.compare a.minute b.minute).then
    ((Ord.compare a.second b.second).then (Ord.compare a.nanosecond b.nanosecond)))

end TimeOfDay

/-- A date and a time of day, without a zone. -/
structure DateTime where
  date : Date
  time : TimeOfDay
  deriving DecidableEq

namespace DateTime

/-- The start of a day. -/
def startOf (date : Date) : DateTime :=
  ⟨date, .midnight⟩

/-- Chronological order. -/
protected def compare (a b : DateTime) : Ordering :=
  (a.date.compare b.date).then (a.time.compare b.time)

end DateTime

end EntityQuery
