import SqlStore.Calendar.Interval
import SqlStore.DataType
import SqlStore.Error
import SqlStore.Numeric.Conversion

/-!
# Values

A value is NULL or belongs to one data type; all kinds of text share one form. This module gives
the type of a value, its readings as an integer, a decimal and a floating-point number, and its
text.
-/

namespace SqlStore

/-- A value of SQL. -/
inductive Value where
  | null
  | boolean (b : Bool)
  | smallInt (n : Int16)
  | integer (n : Int32)
  | bigInt (n : Int64)
  | numeric (d : Numeric)
  | real (x : Binary32)
  | double (x : Binary64)
  | text (s : String)
  | date (d : Date)
  | time (t : Time)
  | timestamp (t : Timestamp)
  | timestampTz (t : Timestamp)
  | interval (i : Interval)
  | uuid (u : Uuid)
  | json (j : Json)
  | bytea (bytes : List UInt8)

/-- The values of one row, in the order of the columns. -/
abbrev Tuple := List Value

namespace Value

/-- The type of a value; NULL has none. -/
def datatype : Value → Option DataType
  | null => none
  | boolean _ => some .boolean
  | smallInt _ => some .smallInt
  | integer _ => some .integer
  | bigInt _ => some .bigInt
  | numeric _ => some (.numeric none none)
  | real _ => some .real
  | double _ => some .double
  | text _ => some .text
  | date _ => some .date
  | time _ => some .time
  | timestamp _ => some .timestamp
  | timestampTz _ => some .timestampTz
  | interval _ => some .interval
  | uuid _ => some .uuid
  | json _ => some .jsonb
  | bytea _ => some .bytea

/-- Whether the value is NULL. -/
def isNull : Value → Bool
  | null => true
  | _ => false

/-- The value of an integer type. -/
def int? : Value → Option Int
  | smallInt n => some n.toInt
  | integer n => some n.toInt
  | bigInt n => some n.toInt
  | _ => none

/-- The value of an integer type or of an exact decimal. -/
def numeric? : Value → Option Numeric
  | numeric d => some d
  | v => v.int?.bind Numeric.ofInt?

/-- Whether the value is a floating-point number. -/
def isFloat : Value → Bool
  | real _ => true
  | double _ => true
  | _ => false

/-- Whether the value is a number. -/
def isNumber : Value → Bool
  | numeric _ => true
  | v => v.isFloat || v.int?.isSome

/-- Any number as a floating-point number. -/
def binary64? : Value → Option Binary64
  | real x => some x.widen
  | double x => some x
  | numeric d => some d.toBinary64
  | v => v.int?.map Binary64.ofInt

/-- Any number as a floating-point number, other values as none. -/
def toBinary64 (v : Value) : Binary64 := v.binary64?.getD Binary64.nan

/-- The name of the value's type in messages. -/
def typeName (v : Value) : String :=
  match v.datatype with
  | some t => t.name
  | none => "unknown"

/-- The text of a value. -/
def toText : Value → String
  | null => "NULL"
  | boolean true => "true"
  | boolean false => "false"
  | smallInt n => Text.showInt n.toInt
  | integer n => Text.showInt n.toInt
  | bigInt n => Text.showInt n.toInt
  | numeric d => d.text
  | real x => x.text
  | double x => x.text
  | text s => s
  | date d => d.text
  | time t => t.text
  | timestamp t => t.text
  | timestampTz t => t.text ++ "+00"
  | interval i => i.text
  | uuid u => u.text
  | json j => j.text
  | bytea bytes => String.ofList ('\\' :: 'x' :: Bytes.hex bytes)

/-- Equality of values of one kind: numbers by value, documents as documents. -/
def same : Value → Value → Bool
  | null, null => true
  | boolean a, boolean b => a == b
  | smallInt a, smallInt b => a == b
  | integer a, integer b => a == b
  | bigInt a, bigInt b => a == b
  | numeric a, numeric b => a.equal b
  | real a, real b => a.equal b
  | double a, double b => a.equal b
  | text a, text b => a == b
  | date a, date b => a == b
  | time a, time b => a == b
  | timestamp a, timestamp b => a == b
  | timestampTz a, timestampTz b => a == b
  | interval a, interval b => a == b
  | uuid a, uuid b => a == b
  | json a, json b => a.same b
  | bytea a, bytea b => a == b
  | _, _ => false

instance : BEq Value := ⟨same⟩

@[simp] theorem isNull_iff {v : Value} : v.isNull = true ↔ v = null := by
  cases v <;> simp [isNull]

end Value

end SqlStore
