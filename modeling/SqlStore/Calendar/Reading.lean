import SqlStore.Power
import SqlStore.Calendar.Timestamp

/-!
# Reading dates and times

A layout is a list of fields and separators. A field skips the blanks in front of it and takes one
or two digits; a year takes up to four, or any number after a sign. Blanks in a layout stand for
any number of blanks. `Fault` says what is wrong with a text that a layout does not fit.

Instants are also read in the form of internet timestamps, whose fields have fixed widths and end
in an offset from universal time.
-/

namespace SqlStore

/-- What is wrong with the text of a date or a time. -/
inductive CalendarFault where
  | outOfRange
  | impossible
  | invalid
  | tooShort
  | tooLong
deriving Repr, DecidableEq

/-- The wording of a fault. -/
def CalendarFault.message : CalendarFault → String
  | outOfRange => "input is out of range"
  | impossible => "no possible date and time matching input"
  | invalid => "input contains invalid characters"
  | tooShort => "premature end of input"
  | tooLong => "trailing input"

namespace Calendar

/-- One piece of a layout. -/
inductive Piece where
  | year
  | month
  | day
  | hour
  | minute
  | second
  | fraction
  | blank
  | mark (c : Char)
  | offset
deriving Repr, DecidableEq

/-- The fields read so far. -/
structure Fields where
  year : Int := 0
  month : Nat := 1
  day : Nat := 1
  hour : Nat := 0
  minute : Nat := 0
  second : Nat := 0
  nanos : Nat := 0
  offset : Int := 0
deriving Repr, DecidableEq

/-- A reader of a prefix of the text. -/
abbrev Reader (α : Type) := List Char → Except CalendarFault (α × List Char)

/-- Reads at least `least` and at most `most` digits; a number beyond 64 bits is out of range. -/
def number (least most : Nat) : Reader Nat := fun cs =>
  let ds := (cs.take most).takeWhile Char.isDigit
  if ds.length < least then
    .error (if cs.length < least then .tooShort else .invalid)
  else
    let n := Text.natOfDigits ds
    if n ≥ pow2 63 then .error .outOfRange else .ok (n, cs.drop ds.length)

/-- Reads one given character. -/
def mark (c : Char) : Reader Unit
  | [] => .error .tooShort
  | d :: cs => if d == c then .ok ((), cs) else .error .invalid

/-- Reads a year: four digits at most, or a sign and any number of digits. -/
def signedYear : Reader Int
  | '-' :: cs => (number 1 cs.length cs).map fun (n, rest) => (-(n : Int), rest)
  | '+' :: cs => (number 1 cs.length cs).map fun (n, rest) => ((n : Int), rest)
  | cs => (number 1 4 cs).map fun (n, rest) => ((n : Int), rest)

/-- Reads the digits of a fraction of a second; digits after the ninth do not count. -/
def nanoseconds : Reader Nat := fun cs =>
  (number 1 9 cs).map fun (n, rest) =>
    let width := cs.length - rest.length
    (n * pow10 (9 - width), rest.dropWhile Char.isDigit)

/-- Reads an offset from universal time, in seconds. `separator` reads what stands between hours
and minutes. -/
def offset (separator : List Char → Except CalendarFault (List Char)) (minutesNeeded : Bool) :
    Reader Int := fun cs =>
  match cs with
  | 'Z' :: rest => .ok (0, rest)
  | 'z' :: rest => .ok (0, rest)
  | [] => .error .tooShort
  | sign :: cs =>
    if !(sign == '+' || sign == '-' || sign == '−') then .error .invalid else do
      let seconds := fun (h m : Nat) =>
        let s : Int := h * 3600 + m * 60
        if sign == '+' then s else -s
      match cs with
      | h₁ :: h₂ :: rest =>
        if !(h₁.isDigit && h₂.isDigit) then throw .invalid
        let hours := Text.natOfDigits [h₁, h₂]
        match ← separator rest with
        | m₁ :: m₂ :: rest =>
          if !(m₁.isDigit && m₂.isDigit) then throw .invalid
          if Text.digitValue m₁ ≥ 6 then throw .outOfRange
          return (seconds hours (Text.natOfDigits [m₁, m₂]), rest)
        | [] => if minutesNeeded then throw .tooShort else return (seconds hours 0, [])
        | [_] => throw .tooShort
      | _ => throw .tooShort

/-- Checks a field against its range. -/
def within (low high : Nat) (n : Nat) : Except CalendarFault Nat :=
  if low ≤ n && n ≤ high then .ok n else .error .outOfRange

/-- Reads one piece of a layout. -/
def Piece.read (p : Piece) (f : Fields) (cs : List Char) :
    Except CalendarFault (Fields × List Char) := do
  match p with
  | .blank => return (f, Text.trimLeft cs)
  | .mark c =>
    let ((), cs) ← Calendar.mark c cs
    return (f, cs)
  | .fraction => match cs with
    | '.' :: cs =>
      let (n, cs) ← nanoseconds cs
      return ({ f with nanos := n }, cs)
    | cs => return (f, cs)
  | .year =>
    let (n, cs) ← signedYear (Text.trimLeft cs)
    if n.natAbs ≥ pow2 31 then throw .outOfRange
    return ({ f with year := n }, cs)
  | .month =>
    let (n, cs) ← number 1 2 (Text.trimLeft cs)
    return ({ f with month := ← within 1 12 n }, cs)
  | .day =>
    let (n, cs) ← number 1 2 (Text.trimLeft cs)
    return ({ f with day := ← within 1 31 n }, cs)
  | .hour =>
    let (n, cs) ← number 1 2 (Text.trimLeft cs)
    return ({ f with hour := ← within 0 23 n }, cs)
  | .minute =>
    let (n, cs) ← number 1 2 (Text.trimLeft cs)
    return ({ f with minute := ← within 0 59 n }, cs)
  | .second =>
    let (n, cs) ← number 1 2 (Text.trimLeft cs)
    return ({ f with second := ← within 0 60 n }, cs)
  | .offset =>
    let apart := fun (r : List Char) => .ok (r.dropWhile fun c => c == ':' || Text.isBlank c)
    let (n, cs) ← Calendar.offset apart false (Text.trimLeft cs)
    return ({ f with offset := n }, cs)

/-- Reads the pieces of a layout one after the other. -/
def readPieces : List Piece → Fields → List Char → Except CalendarFault (Fields × List Char)
  | [], f, cs => .ok (f, cs)
  | p :: ps, f, cs => match p.read f cs with
    | .ok (f, cs) => readPieces ps f cs
    | .error fault => .error fault

/-- Reads a whole text by a layout. -/
def readLayout (layout : List Piece) (s : String) : Except CalendarFault Fields :=
  match readPieces layout {} s.toList with
  | .ok (f, []) => .ok f
  | .ok _ => .error .tooLong
  | .error fault => .error fault

/-- The date of the fields. -/
def Fields.date (f : Fields) : Except CalendarFault Date :=
  match Date.ofCivil? f.year f.month f.day with
  | some d => .ok d
  | none => .error .outOfRange

/-- The time of day of the fields. -/
def Fields.time (f : Fields) : Except CalendarFault Time :=
  match Time.ofClock? f.hour f.minute f.second f.nanos with
  | some t => .ok t
  | none => .error .outOfRange

/-- The timestamp of the fields, as the clock there shows it. -/
def Fields.timestamp (f : Fields) : Except CalendarFault Timestamp := do
  return ⟨← f.date, ← f.time⟩

/-- The instant of the fields, in universal time. -/
def Fields.instant (f : Fields) : Except CalendarFault Timestamp := do
  let t ← f.timestamp
  if f.offset.natAbs ≥ 86400 then throw .outOfRange
  match t.subSeconds? f.offset with
  | some t => return t
  | none => throw .impossible

/-- `year-month-day`. -/
def dateLayout : List Piece := [.year, .mark '-', .month, .mark '-', .day]

/-- `hour:minute`. -/
def minuteLayout : List Piece := [.hour, .mark ':', .minute]

/-- `hour:minute:second` with an optional fraction. -/
def secondLayout : List Piece := minuteLayout ++ [.mark ':', .second, .fraction]

/-- The layouts of timestamps, in the order in which they are tried. -/
def timestampLayouts : List (List Piece) := [
  dateLayout ++ .blank :: secondLayout,
  dateLayout ++ .mark 'T' :: secondLayout,
  dateLayout ++ .blank :: minuteLayout,
  dateLayout ++ .mark 'T' :: minuteLayout]

/-- A timestamp followed by an offset. -/
def zonedLayout : List Piece := dateLayout ++ .blank :: secondLayout ++ [.offset]

/-- Reads the fields of an internet timestamp: fixed widths, a `T` or a space in between, and an
offset of hours and minutes. -/
def readInternet (s : String) : Except CalendarFault Fields := do
  let (year, cs) ← number 4 4 s.toList
  let ((), cs) ← mark '-' cs
  let (month, cs) ← number 2 2 cs
  let month ← within 1 12 month
  let ((), cs) ← mark '-' cs
  let (day, cs) ← number 2 2 cs
  let day ← within 1 31 day
  let cs ← match cs with
    | c :: cs => if c == 'T' || c == 't' || c == ' ' then .ok cs else .error .invalid
    | [] => .error .tooShort
  let (hour, cs) ← number 2 2 cs
  let hour ← within 0 23 hour
  let ((), cs) ← mark ':' cs
  let (minute, cs) ← number 2 2 cs
  let minute ← within 0 59 minute
  let ((), cs) ← mark ':' cs
  let (second, cs) ← number 2 2 cs
  let second ← within 0 60 second
  let (nanos, cs) ← match cs with
    | '.' :: cs => nanoseconds cs
    | cs => .ok (0, cs)
  let colon := fun r => (mark ':' r).map Prod.snd
  let (offset, cs) ← offset colon true cs
  if !cs.isEmpty then throw .tooLong
  return { year, month, day, hour, minute, second, nanos, offset }

end Calendar

/-- Reads a date. -/
def Date.parse (s : String) : Except CalendarFault Date := do
  (← Calendar.readLayout Calendar.dateLayout s).date

/-- Reads a time of day, with or without seconds. -/
def Time.parse? (s : String) : Option Time :=
  let read := fun layout => ((Calendar.readLayout layout s).bind (·.time)).toOption
  (read Calendar.secondLayout).orElse fun _ => read Calendar.minuteLayout

/-- Reads a timestamp: one of the layouts, an internet timestamp whose offset is ignored, or a
date alone. -/
def Timestamp.parse? (s : String) : Option Timestamp :=
  let layouts := Calendar.timestampLayouts.findSome? fun layout =>
    ((Calendar.readLayout layout s).bind (·.timestamp)).toOption
  layouts.orElse fun _ =>
    let internet := (Calendar.readInternet s).bind fun f => do
      let _ ← f.instant
      f.timestamp
    internet.toOption.orElse fun _ => (Date.parse s).toOption.map Timestamp.ofDate

/-- Reads an instant: an offset in the text is applied, and text without one is universal time. -/
def Timestamp.parseInstant? (s : String) : Option Timestamp :=
  ((Calendar.readInternet s).bind (·.instant)).toOption.orElse fun _ =>
    ((Calendar.readLayout Calendar.zonedLayout s).bind (·.instant)).toOption.orElse fun _ =>
      Timestamp.parse? s

end SqlStore
