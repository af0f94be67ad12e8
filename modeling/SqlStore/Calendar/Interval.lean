import SqlStore.Word
import SqlStore.Binary.Text
import SqlStore.Calendar.Timestamp

/-!
# Intervals

An interval keeps months, days and microseconds apart, because the length of a month and of a day
depends on where it is laid. Only `totalMicros`, which orders intervals, gives a month 30 days.
Reading goes word by word: an amount with a unit, or a clock form `hours:minutes:seconds`.
-/

namespace SqlStore

def microsPerSecond : Int := 1000000
def microsPerMinute : Int := 60 * microsPerSecond
def microsPerHour : Int := 60 * microsPerMinute
def microsPerDay : Int := 24 * microsPerHour

/-- A span of months, days and microseconds. -/
structure Interval where
  months : Int32
  days : Int32
  micros : Int64
deriving Repr, DecidableEq

/-- What is wrong with the text of an interval. -/
inductive IntervalFault where
  | malformed
  | outOfRange
deriving Repr, DecidableEq

namespace Interval

/-- The empty interval. -/
def zero : Interval := ⟨0, 0, 0⟩

/-- An interval of given fields, if each fits its word. -/
def ofFields? (months days micros : Int) : Option Interval := do
  return ⟨← int32? months, ← int32? days, ← int64? micros⟩

/-- The length with months of 30 days, by which intervals are ordered. -/
def totalMicros (i : Interval) : Int :=
  (i.months.toInt * 30 + i.days.toInt) * microsPerDay + i.micros.toInt

/-- The sum, field by field. -/
def add? (a b : Interval) : Option Interval :=
  ofFields? (a.months.toInt + b.months.toInt) (a.days.toInt + b.days.toInt)
    (a.micros.toInt + b.micros.toInt)

/-- The opposite, field by field. -/
def neg? (a : Interval) : Option Interval :=
  ofFields? (-a.months.toInt) (-a.days.toInt) (-a.micros.toInt)

/-- The multiple, field by field; the factor has to fit 32 bits. -/
def mul? (a : Interval) (n : Int) : Option Interval := do
  let n ← int32? n
  ofFields? (a.months.toInt * n.toInt) (a.days.toInt * n.toInt) (a.micros.toInt * n.toInt)

/-- The integer part of a floating-point number, if it is finite. -/
def whole? (x : Binary64) : Option Int := if x.isFinite then some x.truncate else none

/-- Reads `hours:minutes` or `hours:minutes:seconds` with an optional minus sign, in
microseconds. -/
def readClock (cs : List Char) : Except IntervalFault Int :=
  let (negative, body) := match cs with
    | '-' :: r => (true, r)
    | r => (false, r)
  let word := fun (cs : List Char) => (Text.int? cs).bind fun n => (int64? n).map (·.toInt)
  let micros := fun (hours minutes : Int) (seconds : Binary64) =>
    let fraction := (Binary64.mul seconds (Binary64.ofInt microsPerSecond)).round
    let total := do
      let h ← int64? (hours * microsPerHour)
      let m ← int64? (minutes * microsPerMinute)
      let hm ← int64? (h.toInt + m.toInt)
      let s ← (whole? fraction).bind int64?
      let all ← int64? (hm.toInt + s.toInt)
      int64? (if negative then -all.toInt else all.toInt)
    match total with
    | some n => .ok n.toInt
    | none => .error .outOfRange
  match Text.split ':' body with
  | [h, m] => match word h, word m with
    | some h, some m => micros h m Binary64.zero
    | _, _ => .error .malformed
  | [h, m, s] => match word h, word m, Binary64.parse? (String.ofList s) with
    | some h, some m, some s => micros h m s
    | _, _, _ => .error .malformed
  | _ => .error .malformed

/-- The fields that a unit makes of an amount: months, days and microseconds. -/
def unitFields? (unit : String) (amount : Binary64) : Option (Binary64 × Binary64 × Binary64) :=
  let times := fun (n : Int) => Binary64.mul amount (Binary64.ofInt n)
  let zero := Binary64.zero
  if ["year", "years", "yr", "yrs", "y"].contains unit then some (times 12, zero, zero)
  else if ["month", "months", "mon", "mons"].contains unit then some (amount, zero, zero)
  else if ["week", "weeks", "w"].contains unit then some (zero, times 7, zero)
  else if ["day", "days", "d"].contains unit then some (zero, amount, zero)
  else if ["hour", "hours", "hr", "hrs", "h"].contains unit then
    some (zero, zero, times microsPerHour)
  else if ["minute", "minutes", "min", "mins", "m"].contains unit then
    some (zero, zero, times microsPerMinute)
  else if ["second", "seconds", "sec", "secs", "s"].contains unit then
    some (zero, zero, times microsPerSecond)
  else if ["millisecond", "milliseconds", "ms"].contains unit then
    some (zero, zero, times 1000)
  else if ["microsecond", "microseconds", "us"].contains unit then some (zero, zero, amount)
  else none

/-- An amount of a unit, every field cut to an integer. -/
def ofAmount (amount : Binary64) (unit : String) : Except IntervalFault Interval :=
  match unitFields? unit amount with
  | none => .error .malformed
  | some (months, days, micros) =>
    match (whole? months).bind int32?, (whole? days).bind int32?, (whole? micros).bind int64? with
    | some m, some d, some u => .ok ⟨m, d, u⟩
    | _, _, _ => .error .outOfRange

/-- A unit in lower case without commas at its end. -/
def unitName (word : String) : String :=
  String.ofList ((Text.lower word).toList.reverse.dropWhile (· == ',')).reverse

/-- Reads the words that are left, adding to what the words before them gave. -/
def readWords (sum : Interval) : List String → Except IntervalFault Interval
  | [] => .ok sum
  | word :: rest =>
    if word.contains ':' then
      match readClock word.toList with
      | .error fault => .error fault
      | .ok micros =>
        match (ofFields? 0 0 micros).bind sum.add? with
        | some sum => readWords sum rest
        | none => .error .outOfRange
    else match (Binary64.parse? word).filter (·.isFinite), rest with
      | some amount, unit :: rest =>
        match ofAmount amount (unitName unit) with
        | .error fault => .error fault
        | .ok term => match sum.add? term with
          | some sum => readWords sum rest
          | none => .error .outOfRange
      | _, _ => .error .malformed

/-- Reads an interval of at least one word. -/
def parse (s : String) : Except IntervalFault Interval :=
  match Text.words s with
  | [] => .error .malformed
  | ws => readWords zero ws

/-- An amount with its unit, in the plural unless it is one. -/
def counted (n : Int) (unit : String) : String :=
  Text.showInt n ++ " " ++ unit ++ (if n.natAbs == 1 then "" else "s")

/-- The clock form of a number of microseconds. -/
def clockText (micros : Int) : String :=
  let total := micros.natAbs
  let seconds := total / 1000000
  let fraction := total % 1000000
  let places := if fraction == 0 then [] else
    '.' :: ((Text.padded 6 fraction).reverse.dropWhile (· == '0')).reverse
  String.ofList ((if micros < 0 then ['-'] else []) ++ Text.padded 2 (seconds / 3600) ++
    ':' :: Text.padded 2 (seconds / 60 % 60) ++ ':' :: Text.padded 2 (seconds % 60) ++ places)

/-- The text: years, months and days that are not zero, then the clock form if there is time left
or nothing else. -/
def text (i : Interval) : String :=
  let months := i.months.toInt
  let part := fun (n : Int) (unit : String) => if n == 0 then [] else [counted n unit]
  let calendar := part (months.tdiv 12) "year" ++ part (months.tmod 12) "mon" ++
    part i.days.toInt "day"
  let clock := if i.micros.toInt != 0 || calendar.isEmpty then [clockText i.micros.toInt] else []
  " ".intercalate (calendar ++ clock)

/-- The timestamp an interval later: months first, then days, then the clock part. -/
def addTo? (i : Interval) (t : Timestamp) : Option Timestamp := do
  let t ← t.addMonths? i.months.toInt
  let t ← t.addNanos? (i.days.toInt * 86400 * nanosPerSecond)
  t.addNanos? (i.micros.toInt * 1000)

/-- The interval between two timestamps, in days and clock time. -/
def between? (later earlier : Timestamp) : Option Interval := do
  let micros ← int64? ((later.nanosBetween earlier).tdiv 1000)
  ofFields? 0 (micros.toInt.tdiv microsPerDay) (micros.toInt.tmod microsPerDay)

end Interval

end SqlStore
