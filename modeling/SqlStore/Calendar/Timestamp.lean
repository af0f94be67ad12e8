import SqlStore.Text.Scan

/-!
# Dates and times

A timestamp is a date and a time of day. Instants with a time zone are timestamps in universal
time.
-/

namespace SqlStore

/-! ## Dates

A date is a day of the proleptic Gregorian calendar, numbered from 1970-01-01. The years run from
-262143 to 262142. `ofDay?` and `ofCivil?` are the only ways to build one, so every date lies in
that span. -/

/-- The number of days from 0000-03-01 to 1970-01-01. -/
def epochShift : Int := 719468

/-- The day number of a civil date, by the calendar that starts its years in March. -/
def dayNumber (year : Int) (month day : Nat) : Int :=
  let y := if month ≤ 2 then year - 1 else year
  let era := y / 400
  let yearOfEra := y - era * 400
  let shifted : Nat := (month + 9) % 12
  let dayOfYear : Int := (153 * shifted + 2) / 5 + day - 1
  let dayOfEra := yearOfEra * 365 + yearOfEra / 4 - yearOfEra / 100 + dayOfYear
  era * 146097 + dayOfEra - epochShift

/-- Whether a year has a 29th of February. -/
def isLeapYear (year : Int) : Bool :=
  year % 4 == 0 && (year % 100 != 0 || year % 400 == 0)

/-- The number of days of a month. -/
def daysInMonth (year : Int) : Nat → Nat
  | 2 => if isLeapYear year then 29 else 28
  | 4 => 30
  | 6 => 30
  | 9 => 30
  | 11 => 30
  | _ => 31

/-- A day of the calendar. -/
structure Date where
  day : Int
  from_first : dayNumber (-262143) 1 1 ≤ day
  to_last : day ≤ dayNumber 262142 12 31
deriving DecidableEq

/-- A civil year, month and day. -/
structure CivilDate where
  year : Int
  month : Nat
  day : Nat
deriving Repr, DecidableEq

namespace Date

/-- The date of a day number, if the calendar reaches it. -/
def ofDay? (day : Int) : Option Date :=
  if h : dayNumber (-262143) 1 1 ≤ day ∧ day ≤ dayNumber 262142 12 31 then
    some ⟨day, h.1, h.2⟩
  else none

/-- 1970-01-01. -/
def epoch : Date := ⟨0, by decide, by decide⟩

/-- The date of a year, month and day, if there is such a day. -/
def ofCivil? (year : Int) (month day : Nat) : Option Date :=
  if 1 ≤ month && month ≤ 12 && 1 ≤ day && day ≤ daysInMonth year month then
    ofDay? (dayNumber year month day)
  else none

/-- The civil form of a date. -/
def civil (d : Date) : CivilDate :=
  let z := d.day + epochShift
  let era := z / 146097
  let dayOfEra := z - era * 146097
  let yearOfEra := (dayOfEra - dayOfEra / 1460 + dayOfEra / 36524 - dayOfEra / 146096) / 365
  let dayOfYear := dayOfEra - (365 * yearOfEra + yearOfEra / 4 - yearOfEra / 100)
  let shifted := (5 * dayOfYear + 2) / 153
  let day := dayOfYear - (153 * shifted + 2) / 5 + 1
  let month := if shifted < 10 then shifted + 3 else shifted - 9
  let year := yearOfEra + era * 400 + (if month ≤ 2 then 1 else 0)
  ⟨year, month.toNat, day.toNat⟩

/-- The date `days` later. -/
def addDays? (d : Date) (days : Int) : Option Date := ofDay? (d.day + days)

/-- The date `months` later; a day that the new month lacks becomes its last day. -/
def addMonths? (d : Date) (months : Int) : Option Date :=
  if months == 0 then some d
  else
    let c := d.civil
    let total := c.year * 12 + c.month - 1 + months
    let year := total / 12
    let month := (total % 12).toNat + 1
    ofCivil? year month (min c.day (daysInMonth year month))

/-- The text `year-month-day`; years of other than four digits have a sign. -/
def text (d : Date) : String :=
  let c := d.civil
  let year :=
    if 0 ≤ c.year && c.year ≤ 9999 then Text.padded 4 c.year.natAbs
    else (if c.year < 0 then '-' else '+') :: Text.padded 4 c.year.natAbs
  String.ofList (year ++ '-' :: Text.padded 2 c.month ++ '-' :: Text.padded 2 c.day)

end Date

/-! ## Times of day

A time of day is a second of the day and a number of nanoseconds. A leap second keeps the number
of the second before it and has at least a full second of nanoseconds. Spans of time are counted
in nanoseconds. -/

def nanosPerSecond : Nat := 1000000000

/-- A time of day. -/
structure Time where
  second : Nat
  nanos : Nat
  second_lt : second < 86400
  nanos_lt : nanos < 2 * nanosPerSecond
deriving DecidableEq

namespace Time

/-- A time of day of given parts, if they are in range. -/
def ofParts? (second nanos : Nat) : Option Time :=
  if h : second < 86400 ∧ nanos < 2 * nanosPerSecond then some ⟨second, nanos, h.1, h.2⟩ else none

/-- The start of the day. -/
def midnight : Time := ⟨0, 0, by decide, by decide⟩

/-- The time of an hour, a minute and a second with nanoseconds; second 60 is a leap second. -/
def ofClock? (hour minute second nanos : Nat) : Option Time :=
  if hour < 24 && minute < 60 && second ≤ 60 && nanos < nanosPerSecond then
    if second == 60 then ofParts? (hour * 3600 + minute * 60 + 59) (nanos + nanosPerSecond)
    else ofParts? (hour * 3600 + minute * 60 + second) nanos
  else none

/-- Earlier times come first. -/
def compareTime (a b : Time) : Ordering :=
  (compare a.second b.second).then (compare a.nanos b.nanos)

/-- Whether the time lies in a leap second. -/
def isLeap (t : Time) : Bool := t.nanos ≥ nanosPerSecond

/-- The time of day and the number of days passed after a number of nanoseconds from midnight. -/
def wrap (nanos : Int) : Time × Int :=
  let unit : Int := nanosPerSecond
  let second := nanos / unit
  (⟨(second % 86400).toNat, (nanos % unit).toNat,
    by have := Int.emod_lt_of_pos second (by decide : (0 : Int) < 86400)
       have := Int.emod_nonneg second (by decide : (86400 : Int) ≠ 0)
       omega,
    by have := Int.emod_lt_of_pos nanos (by decide : (0 : Int) < (nanosPerSecond : Int))
       have := Int.emod_nonneg nanos (by decide : (nanosPerSecond : Int) ≠ 0)
       simp only [nanosPerSecond, unit] at *
       omega⟩, second / 86400)

/-- The time `span` nanoseconds later, around the clock, and the days passed. Within a leap second
a move by less than a second that does not leave it stays in it; otherwise the leap second counts
as the one before it going on, and as the one after it going back. -/
def addNanos (t : Time) (span : Int) : Time × Int :=
  let unit : Int := nanosPerSecond
  let whole := span.tdiv unit
  let rest := span.tmod unit
  let base : Int := t.second * unit + t.nanos
  if t.isLeap then
    if whole > 0 || (rest > 0 && t.nanos + rest ≥ 2 * unit) then wrap (base - unit + span)
    else if whole < 0 then wrap (base + span)
    else match ofParts? t.second (t.nanos + rest).toNat with
      | some u => (u, 0)
      | none => (t, 0)
  else wrap (base + span)

/-- The nanoseconds from `b` to `a`. A leap second between the two counts. -/
def nanosBetween (a b : Time) : Int :=
  let unit : Int := nanosPerSecond
  let leap : Int :=
    if a.second > b.second then (if b.isLeap then 1 else 0)
    else if a.second < b.second then (if a.isLeap then -1 else 0)
    else 0
  ((a.second : Int) - b.second + leap) * unit + ((a.nanos : Int) - b.nanos)

/-- The decimal places of a fraction of a second: none, three, six or nine. -/
def fractionText (nanos : Nat) : List Char :=
  if nanos == 0 then []
  else if nanos % 1000000 == 0 then '.' :: Text.padded 3 (nanos / 1000000)
  else if nanos % 1000 == 0 then '.' :: Text.padded 6 (nanos / 1000)
  else '.' :: Text.padded 9 nanos

/-- The text `hours:minutes:seconds` with the fraction; a leap second is second 60. -/
def text (t : Time) : String :=
  let second := t.second % 60 + t.nanos / nanosPerSecond
  String.ofList (Text.padded 2 (t.second / 3600) ++ ':' :: Text.padded 2 (t.second / 60 % 60) ++
    ':' :: Text.padded 2 second ++ fractionText (t.nanos % nanosPerSecond))

end Time

/-! ## Timestamps -/

/-- A date and a time of day. -/
structure Timestamp where
  date : Date
  time : Time
deriving DecidableEq

namespace Timestamp

/-- The start of a day. -/
def ofDate (d : Date) : Timestamp := ⟨d, Time.midnight⟩

/-- Earlier timestamps come first. -/
def compareTimestamp (a b : Timestamp) : Ordering :=
  (compare a.date.day b.date.day).then (a.time.compareTime b.time)

/-- The timestamp `span` nanoseconds later. -/
def addNanos? (t : Timestamp) (span : Int) : Option Timestamp :=
  let (time, days) := t.time.addNanos span
  (t.date.addDays? days).map fun date => ⟨date, time⟩

/-- The timestamp `months` later at the same time of day. -/
def addMonths? (t : Timestamp) (months : Int) : Option Timestamp :=
  (t.date.addMonths? months).map fun date => ⟨date, t.time⟩

/-- The timestamp `seconds` earlier; a leap second stays one. -/
def subSeconds? (t : Timestamp) (seconds : Int) : Option Timestamp :=
  let (time, days) := Time.wrap (((t.time.second : Int) - seconds) * nanosPerSecond)
  match Time.ofParts? time.second t.time.nanos, t.date.addDays? days with
  | some time, some date => some ⟨date, time⟩
  | _, _ => none

/-- The nanoseconds from `b` to `a`. -/
def nanosBetween (a b : Timestamp) : Int :=
  (a.date.day - b.date.day) * 86400 * nanosPerSecond + a.time.nanosBetween b.time

/-- The text `date time`. -/
def text (t : Timestamp) : String := t.date.text ++ " " ++ t.time.text

end Timestamp

end SqlStore
