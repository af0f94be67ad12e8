import SqlStore.Text.Casing
import SqlStore.Value.Basic

/-!
# Conversion between types

`DataType.admits` says whether a value already has the form that a type gives its values, and
`DataType.convert` brings a compatible value into that form: text is read, numbers are rounded to
the declared scale and checked against the range, dates and times gain or lose a part. NULL has
every type.
-/

namespace SqlStore

namespace Numeric

/-- The integer digits of a declared precision, as a limit that the absolute value may not reach. -/
def digitLimit (digits : Nat) : Nat := pow10 (min digits 18) * pow10 (digits - 18)

/-- Rounds or pads to the declared scale; `none` when the integer part has more digits than the
declared precision leaves. -/
def declared (precision scale : Option Nat) (d : Numeric) : Except Error Numeric :=
  let d := match scale with
    | some s => d.withScale s
    | none => d
  match precision with
  | none => .ok d
  | some p =>
    let digits := p - scale.getD 0
    if digits < 28 && digitLimit digits * pow10 d.scale ≤ d.mantissa then
      .error (.rule ("numeric field overflow: " ++ d.text ++ " does not fit numeric(" ++
        Text.showInt p ++ "," ++ Text.showInt (scale.getD 0) ++ ")"))
    else .ok d

end Numeric

namespace Value

/-- A floating-point number as an exact decimal. -/
def numericOfFloat (x : Binary64) : Except Error Numeric :=
  match Numeric.ofBinary64? x with
  | some d => .ok d
  | none => .error (.rule ("cannot represent " ++ x.text ++ " as numeric"))

end Value

namespace DataType

/-- Whether a value has the form that the type gives its values. -/
def admits : DataType → Value → Bool
  | _, .null => true
  | smallInt, .smallInt _ => true
  | integer, .integer _ => true
  | bigInt, .bigInt _ => true
  | real, .real _ => true
  | double, .double _ => true
  | boolean, .boolean _ => true
  | date, .date _ => true
  | time, .time _ => true
  | timestamp, .timestamp _ => true
  | timestampTz, .timestampTz _ => true
  | interval, .interval _ => true
  | uuid, .uuid _ => true
  | jsonb, .json _ => true
  | bytea, .bytea _ => true
  | varchar, .text _ => true
  | char, .text _ => true
  | text, .text _ => true
  | numeric p s, .numeric d => match Numeric.declared p s d with
    | .ok fitted => fitted.equal d
    | .error _ => false
  | _, _ => false

/-- The failure of a value that has no form of the type. -/
def unfit (type : DataType) (v : Value) : Error :=
  .rule ("invalid input for type " ++ type.name ++ ": " ++ v.toText ++ " (" ++ v.typeName ++ ")")

/-- The failure of text that the type cannot read. -/
def unreadable (name s : String) : Error :=
  .rule ("invalid input syntax for type " ++ name ++ ": " ++ quoteName s)

/-- The result of a reader, or the failure. -/
def orFail {α : Type} (e : Error) : Option α → Except Error α
  | some a => .ok a
  | none => .error e

/-- The integer of a value, rounded half away from zero. `none` for values that have none. -/
def integerOf (v : Value) : Option (Except Error Int) :=
  let range := Error.rule "integer out of range"
  match v with
  | .numeric d => some (orFail range ((int64? (d.round 0).truncate).map (·.toInt)))
  | .text s =>
    some (orFail (unreadable "integer" s)
      ((Text.int? (Text.trim s).toList).bind fun n => (int64? n).map (·.toInt)))
  | v => match v.int? with
    | some n => some (.ok n)
    | none =>
      if v.isFloat then
        let x := v.toBinary64
        let n := x.roundAway
        let inRange := -9223372036854775808 ≤ n && n ≤ 9223372036854775808
        some (if x.isFinite && inRange then .ok (min n 9223372036854775807) else .error range)
      else none

/-- The integer of a value as a word of the type. -/
def toWord {α : Type} (type : DataType) (word? : Int → Option α) (v : Value) : Except Error α := do
  let n ← ← orFail (unfit type v) (integerOf v)
  orFail (.rule ("value out of range for type " ++ type.name)) (word? n)

/-- The floating-point number of a value. -/
def floatOf (v : Value) : Option Binary64 :=
  match v with
  | .text s => match Text.lower (Text.trim s) with
    | "nan" => some Binary64.nan
    | "infinity" | "inf" => some Binary64.infinity
    | "-infinity" | "-inf" => some Binary64.infinity.neg
    | word => Binary64.parse? word
  | v => v.binary64?

/-- The exact decimal of a value. -/
def decimalOf (type : DataType) (v : Value) : Except Error Numeric :=
  match v with
  | .text s => orFail (unfit type v) (Numeric.parse? (Text.trim s))
  | v => if v.isFloat then Value.numericOfFloat v.toBinary64 else orFail (unfit type v) v.numeric?

/-- Reads a truth value. -/
def readBoolean (s : String) : Option Bool :=
  let word := Text.lower (Text.trim s)
  if ["t", "true", "y", "yes", "on", "1"].contains word then some true
  else if ["f", "false", "n", "no", "off", "0"].contains word then some false
  else none

/-- The document of a value. -/
def documentOf (v : Value) : Except Error Json :=
  let read := fun (s : String) => (Json.parse s).mapError fun e => Error.validation (.json e)
  match v with
  | .json j => .ok j
  | .text s => read s
  | .boolean b => .ok (.bool b)
  | .numeric d => read d.text
  | v =>
    if v.isFloat then
      let x := v.toBinary64
      if x.isFinite then .ok (.number (.float x))
      else .error (.rule "cannot represent NaN/Infinity as jsonb")
    else match v.int? with
      | some n => .ok (.number (.int n))
      | none => .ok (.string v.toText)

/-- The value in the form of the type. -/
def convert (type : DataType) (v : Value) : Except Error Value :=
  if v.isNull then .ok .null else
  match type with
  | smallInt => (toWord type int16? v).map .smallInt
  | integer => (toWord type int32? v).map .integer
  | bigInt => (toWord type int64? v).map .bigInt
  | numeric p s => do return .numeric (← (← decimalOf type v).declared p s)
  | real => do return .real (← orFail (unfit type v) (floatOf v)).narrow
  | double => do return .double (← orFail (unfit type v) (floatOf v))
  | varchar | char | text => .ok (.text v.toText)
  | boolean => match v with
    | .boolean b => .ok (.boolean b)
    | .text s => do return .boolean (← orFail (unfit type v) (readBoolean s))
    | v => .error (unfit type v)
  | date => match v with
    | .date d => .ok (.date d)
    | .timestamp t => .ok (.date t.date)
    | .timestampTz t => .ok (.date t.date)
    | .text s => match Date.parse (Text.trim s) with
      | .ok d => .ok (.date d)
      | .error fault => .error (.validation (.calendar fault))
    | v => .error (unfit type v)
  | time => match v with
    | .time t => .ok (.time t)
    | .timestamp t => .ok (.time t.time)
    | .text s => do
      return .time (← orFail (unreadable "time" s) (Time.parse? (Text.trim s)))
    | v => .error (unfit type v)
  | timestamp => match v with
    | .timestamp t => .ok (.timestamp t)
    | .date d => .ok (.timestamp (.ofDate d))
    | .timestampTz t => .ok (.timestamp t)
    | .text s => do
      return .timestamp (← orFail (unreadable "timestamp" s) (Timestamp.parse? (Text.trim s)))
    | v => .error (unfit type v)
  | timestampTz => match v with
    | .timestampTz t => .ok (.timestampTz t)
    | .timestamp t => .ok (.timestampTz t)
    | .date d => .ok (.timestampTz (.ofDate d))
    | .text s => do
      return .timestampTz (← orFail (unreadable "timestamp with time zone" s)
        (Timestamp.parseInstant? (Text.trim s)))
    | v => .error (unfit type v)
  | interval => match v with
    | .interval i => .ok (.interval i)
    | .text s => match Interval.parse s with
      | .ok i => .ok (.interval i)
      | .error .malformed => .error (unreadable "interval" s)
      | .error .outOfRange => .error (.rule ("interval field value out of range: " ++ quoteName s))
    | v => .error (unfit type v)
  | uuid => match v with
    | .uuid u => .ok (.uuid u)
    | .text s => match Uuid.parse (Text.trim s) with
      | .ok u => .ok (.uuid u)
      | .error fault => .error (.validation (.uuid fault))
    | .bytea bytes => match Uuid.ofBytes bytes with
      | .ok u => .ok (.uuid u)
      | .error fault => .error (.validation (.uuid fault))
    | v => .error (unfit type v)
  | jsonb => (documentOf v).map .json
  | bytea => match v with
    | .bytea bytes => .ok (.bytea bytes)
    | .text s => match s.toList with
      | '\\' :: 'x' :: digits => match Bytes.ofHex (String.ofList digits) with
        | .ok bytes => .ok (.bytea bytes)
        | .error fault => .error (.rule ("invalid hexadecimal data: " ++ fault.message))
      | _ => .ok (.bytea (Bytes.ofString s))
    | .uuid u => .ok (.bytea u.toBytes)
    | v => .error (unfit type v)

end DataType

end SqlStore
