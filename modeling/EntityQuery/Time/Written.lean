import EntityQuery.Time.Format

/-!
Dates and date-times as text.

A date is written `yyyy-MM-dd`; a year outside 0 to 9999 carries its sign. A time follows after a
blank, with seconds and with three, six or nine digits of their fraction only as far as needed.
Reading tries one format after the other.
-/

namespace EntityQuery

namespace Date

/-- `yyyy-MM-dd`. -/
def format : List TimeItem :=
  [.year, .mark '-', .month, .mark '-', .day]

/-- The date as `yyyy-MM-dd`. -/
def text (d : Date) : String :=
  String.ofList (TimeFormat.written format (.startOf d))

end Date

namespace DateTime

/-- `yyyy-MM-dd HH:mm`. -/
def minuteFormat : List TimeItem :=
  Date.format ++ [.space, .hour, .mark ':', .minute]

/-- `yyyy-MM-dd HH:mm:ss`. -/
def secondFormat : List TimeItem :=
  minuteFormat ++ [.mark ':', .second]

/-- `yyyy-MM-dd HH:mm:ss` with the fraction of the second, if it has one. -/
def fractionFormat : List TimeItem :=
  secondFormat ++ [.fraction]

/-- `yyyy-MM-dd HH:mm:ss.nnnnnnnnn`. -/
def nanosecondFormat : List TimeItem :=
  secondFormat ++ [.nanosecond]

/-- The format that a date-time needs: a whole minute is written without its second, and a whole
second without its fraction. -/
def format (t : DateTime) : List TimeItem :=
  match t.time.second, t.time.nanosecond with
  | 0, 0 => minuteFormat
  | _, 0 => secondFormat
  | _, _ => fractionFormat

/-- The shortest form. -/
def text (t : DateTime) : String :=
  String.ofList (TimeFormat.written t.format t)

/-- The instant with the second and as much of its fraction as is needed. -/
def secondText (t : DateTime) : String :=
  String.ofList (TimeFormat.written fractionFormat t)

/-- The form of fixed width below the year: second and nine digits of its fraction. -/
def nanosecondText (t : DateTime) : String :=
  String.ofList (TimeFormat.written nanosecondFormat t)

/-- Reads a whole text in a format that has a date and a time of day. -/
def read? (format : List TimeItem) (cs : List Char) : Option DateTime := do
  let fields ← TimeFormat.read? format cs
  return ⟨← fields.date?, ← fields.time?⟩

end DateTime

/-- Reads a whole text as a date alone. -/
def Date.read? (cs : List Char) : Option Date :=
  (TimeFormat.read? Date.format cs).bind TimeFields.date?

/-- Reads a date-time: to the minute, to the second or its fraction, or as a date alone, which means
its start. White space at either end does not matter. -/
def DateTime.ofText? (s : String) : Option DateTime :=
  let cs := Text.trimmed s.toList
  (read? minuteFormat cs <|> read? fractionFormat cs) <|> (Date.read? cs).map .startOf

/-- Reads a date; a time of day after it is dropped. -/
def Date.ofText? (s : String) : Option Date :=
  let cs := Text.trimmed s.toList
  Date.read? cs <|> (DateTime.ofText? (String.ofList cs)).map DateTime.date

end EntityQuery
