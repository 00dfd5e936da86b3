import EntityQuery.Text.Numeral
import EntityQuery.Text.Space
import EntityQuery.Time.Date

/-!
Formats of dates and date-times: lists of items, each of which is written and read on its own.

Numbers are written with zeros in front, and read with fewer digits and after blanks too. Reading
collects the fields that a format has, and makes a date or a time of day of them at its end.
-/

namespace EntityQuery

/-- An item of a format. -/
inductive TimeItem where
  | year
  | month
  | day
  | hour
  | minute
  | second
  /-- A point and as many digits of the second's fraction as are needed: three, six or nine, or
  nothing for a whole second. -/
  | fraction
  /-- A point and nine digits of the second's fraction. -/
  | nanosecond
  | space
  | mark (c : Char)
  deriving DecidableEq

/-- Four digits; a sign before a year that is negative or has more. -/
def yearText (year : Int) : List Char :=
  if 0 ≤ year ∧ year ≤ 9999 then Text.padded 4 year.natAbs
  else (if year < 0 then '-' else '+') :: Text.padded 4 year.natAbs

/-- Nothing for a whole second, otherwise a point and three, six or nine digits. -/
def TimeOfDay.fractionChars (t : TimeOfDay) : List Char :=
  let n := t.fraction
  if n = 0 then []
  else if n % 1000000 = 0 then '.' :: Text.padded 3 (n / 1000000)
  else if n % 1000 = 0 then '.' :: Text.padded 6 (n / 1000)
  else '.' :: Text.padded 9 n

/-! ### Writing -/

/-- The text of an item. -/
def TimeItem.written (t : DateTime) : TimeItem → List Char
  | year => yearText t.date.year
  | month => Text.padded 2 t.date.month
  | day => Text.padded 2 t.date.day
  | hour => Text.padded 2 t.time.hour
  | minute => Text.padded 2 t.time.minute
  | second => Text.padded 2 t.time.shownSecond
  | fraction => t.time.fractionChars
  | nanosecond => '.' :: Text.padded 9 t.time.fraction
  | space => [' ']
  | mark c => [c]

/-- The text of a format. -/
def TimeFormat.written (format : List TimeItem) (t : DateTime) : List Char :=
  format.flatMap (TimeItem.written t)

/-! ### Reading -/

/-- What has been read of a date and a time of day. -/
structure TimeFields where
  year : Option Int
  month : Option Nat
  day : Option Nat
  hour : Option Nat
  minute : Option Nat
  second : Option Nat
  fraction : Option Nat
  deriving DecidableEq

namespace TimeFields

/-- Nothing has been read. -/
def empty : TimeFields :=
  ⟨none, none, none, none, none, none, none⟩

/-- The date, if all of it has been read and the calendar has it. -/
def date? (f : TimeFields) : Option Date := do
  Date.ofParts? (← f.year) (← f.month) (← f.day)

/-- The time of day, if at least its minute has been read. -/
def time? (f : TimeFields) : Option TimeOfDay := do
  TimeOfDay.ofParts? (← f.hour) (← f.minute) (f.second.getD 0) (f.fraction.getD 0)

end TimeFields

namespace Time

/-- Reads a number of one digit or more, taking at most `width` digits. -/
def readDigits? (width : Nat) (cs : List Char) : Option (Nat × List Char) :=
  let digits := (cs.take width).takeWhile Char.isDigit
  if digits = [] then none else some (Text.digitsValue digits, cs.drop digits.length)

/-- Reads a number of one or two digits after any white space. -/
def readField? (cs : List Char) : Option (Nat × List Char) :=
  readDigits? 2 (Text.dropSpace cs)

/-- Reads a year after any white space: up to four digits, or a sign and any number of them. -/
def readYear? (cs : List Char) : Option (Int × List Char) :=
  match Text.dropSpace cs with
  | '-' :: rest => (readDigits? rest.length rest).map fun (n, rest) => (-n, rest)
  | '+' :: rest => (readDigits? rest.length rest).map fun (n, rest) => (n, rest)
  | rest => (readDigits? 4 rest).map fun (n, rest) => (n, rest)

/-- Reads the digits after the point of a second as nanoseconds; digits after the ninth are
dropped. -/
def readFraction? (cs : List Char) : Option (Nat × List Char) :=
  let digits := (cs.take 9).takeWhile Char.isDigit
  if digits = [] then none
  else some (Text.digitsValue digits * Nat.pow 10 (9 - digits.length), cs.dropWhile Char.isDigit)

end Time

/-- Reads an item off the front of a text. -/
def TimeItem.read? (f : TimeFields) (cs : List Char) : TimeItem → Option (TimeFields × List Char)
  | year => (Time.readYear? cs).map fun (n, rest) => ({ f with year := some n }, rest)
  | month => (Time.readField? cs).map fun (n, rest) => ({ f with month := some n }, rest)
  | day => (Time.readField? cs).map fun (n, rest) => ({ f with day := some n }, rest)
  | hour => (Time.readField? cs).map fun (n, rest) => ({ f with hour := some n }, rest)
  | minute => (Time.readField? cs).map fun (n, rest) => ({ f with minute := some n }, rest)
  | second => (Time.readField? cs).map fun (n, rest) => ({ f with second := some n }, rest)
  | fraction | nanosecond =>
    match cs with
    | '.' :: cs => (Time.readFraction? cs).map fun (n, rest) => ({ f with fraction := some n }, rest)
    | cs => some (f, cs)
  | space => some (f, Text.dropSpace cs)
  | mark c =>
    match cs with
    | [] => none
    | d :: cs => if d = c then some (f, cs) else none

namespace TimeFormat

/-- Reads the items of a format one after the other. -/
def readItems? (f : TimeFields) (cs : List Char) : List TimeItem → Option (TimeFields × List Char)
  | [] => some (f, cs)
  | item :: format => (item.read? f cs).bind fun (f, cs) => readItems? f cs format

/-- Reads a whole text in a format. -/
def read? (format : List TimeItem) (cs : List Char) : Option TimeFields :=
  match readItems? .empty cs format with
  | some (f, []) => some f
  | _ => none

end TimeFormat

end EntityQuery
