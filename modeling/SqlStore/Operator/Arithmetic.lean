import SqlStore.Value.Conversion
import SqlStore.Word

/-!
# Arithmetic

Integers are computed exactly and have to fit the wider type of the operands. Next to a
floating-point number both sides are one, and a finite computation must not become infinite. Other
numbers are exact decimals. Dates, times and intervals have sums and differences of their own. A
text takes the type of the other side, as an interval first where one can be added.
-/

namespace SqlStore

/-- An operation of arithmetic. -/
inductive Arithmetic where
  | add
  | subtract
  | multiply
  | divide
  | remainder
deriving Repr, DecidableEq

namespace Arithmetic

/-- The sign of an operation. -/
def symbol : Arithmetic → String
  | add => "+"
  | subtract => "-"
  | multiply => "*"
  | divide => "/"
  | remainder => "%"

/-- Whether the operation divides. -/
def divides : Arithmetic → Bool
  | divide => true
  | remainder => true
  | _ => false

end Arithmetic

/-- The failure of an operator between operands of these types. -/
def noOperator (symbol : String) (a b : Value) : Error :=
  .execution ("operator does not exist: " ++ a.typeName ++ " " ++ symbol ++ " " ++ b.typeName)

/-- The failure of a result that the type cannot hold. -/
def outOfRange (type : DataType) : Error := .execution (type.name ++ " out of range")

def divisionByZero : Error := .execution "division by zero"

def numericOverflow : Error := .execution "numeric field overflow"

namespace Arithmetic

/-! ## Numbers -/

/-- The wider of the types of two integers. -/
def widerType : Value → Value → DataType
  | .bigInt _, _ => .bigInt
  | _, .bigInt _ => .bigInt
  | .integer _, _ => .integer
  | _, .integer _ => .integer
  | _, _ => .smallInt

/-- The integer as a value of an integer type, if the type holds it. -/
def wordOf? (type : DataType) (n : Int) : Option Value :=
  match type with
  | .smallInt => (int16? n).map .smallInt
  | .integer => (int32? n).map .integer
  | _ => (int64? n).map .bigInt

/-- The exact result on integers. Quotients are cut toward zero; a remainder needs a quotient of 64
bits. -/
def exactResult? (op : Arithmetic) (a b : Int) : Option Int :=
  match op with
  | add => some (a + b)
  | subtract => some (a - b)
  | multiply => some (a * b)
  | divide => some (a.tdiv b)
  | remainder => (int64? (a.tdiv b)).map fun _ => a.tmod b

/-- The result on two integers, in the wider type of the operands. -/
def onIntegers (op : Arithmetic) (x y : Value) (a b : Int) : Except Error Value :=
  if op.divides && b == 0 then .error divisionByZero
  else DataType.orFail (outOfRange (widerType x y))
    ((op.exactResult? a b).bind (wordOf? (widerType x y)))

/-- The operation on floating-point numbers. -/
def onBinary64 : Arithmetic → Binary64 → Binary64 → Binary64
  | add => Binary64.add
  | subtract => Binary64.sub
  | multiply => Binary64.mul
  | divide => Binary64.div
  | remainder => Binary64.rem

/-- The result next to a floating-point number; two single-precision numbers give one. -/
def onFloats (op : Arithmetic) (x y : Value) : Except Error Value :=
  let a := x.toBinary64
  let b := y.toBinary64
  if op.divides && b.isZero then .error divisionByZero
  else
    let r := op.onBinary64 a b
    if r.isInfinite && a.isFinite && b.isFinite then
      .error (.execution "value out of range: overflow")
    else match x, y with
      | .real _, .real _ => .ok (.real r.narrow)
      | _, _ => .ok (.double r)

/-- The operation on exact decimals. -/
def onDecimals? : Arithmetic → Numeric → Numeric → Option Numeric
  | add => Numeric.add?
  | subtract => Numeric.sub?
  | multiply => Numeric.mul?
  | divide => Numeric.div?
  | remainder => Numeric.rem?

/-- The result on two numbers. -/
def onNumbers (op : Arithmetic) (x y : Value) : Except Error Value :=
  match x.int?, y.int? with
  | some a, some b => op.onIntegers x y a b
  | _, _ =>
    if x.isFloat || y.isFloat then op.onFloats x y
    else match x.numeric?, y.numeric? with
      | some a, some b =>
        if op.divides && b.isZero then .error divisionByZero
        else (DataType.orFail numericOverflow (op.onDecimals? a b)).map .numeric
      | _, _ => .error (noOperator op.symbol x y)

/-! ## Dates, times and intervals -/

/-- The date some days later. -/
def shiftDate (d : Date) (days : Int) : Except Error Value :=
  (DataType.orFail (.execution "date out of range") (d.addDays? days)).map .date

/-- The interval to add: for a difference the opposite one. -/
def directed (op : Arithmetic) (i : Interval) : Except Error Interval :=
  if op == subtract then DataType.orFail (outOfRange .interval) i.neg? else .ok i

/-- The timestamp an interval later. -/
def shiftTimestamp (t : Timestamp) (i : Interval) : Except Error Timestamp :=
  DataType.orFail (.execution "timestamp out of range") (i.addTo? t)

/-- An interval that fits its fields. -/
def intervalOr (i : Option Interval) : Except Error Value :=
  (DataType.orFail (.execution "interval out of range") i).map .interval

/-- The result on dates, times and intervals. -/
def onSpans (op : Arithmetic) (x y : Value) : Except Error Value :=
  match op, x, y with
  | subtract, .date a, .date b => .ok (.integer (Int32.ofInt (a.day - b.day)))
  | add, .date d, .time t => .ok (.timestamp ⟨d, t⟩)
  | add, .time t, .date d => .ok (.timestamp ⟨d, t⟩)
  | add, .date d, .interval i => (shiftTimestamp (.ofDate d) i).map .timestamp
  | add, .timestamp t, .interval i => (shiftTimestamp t i).map .timestamp
  | add, .timestampTz t, .interval i => (shiftTimestamp t i).map .timestampTz
  | subtract, .date d, .interval i => do
    return .timestamp (← shiftTimestamp (.ofDate d) (← directed op i))
  | subtract, .timestamp t, .interval i => do
    return .timestamp (← shiftTimestamp t (← directed op i))
  | subtract, .timestampTz t, .interval i => do
    return .timestampTz (← shiftTimestamp t (← directed op i))
  | add, .interval i, .date d => (shiftTimestamp (.ofDate d) i).map .timestamp
  | add, .interval i, .timestamp t => (shiftTimestamp t i).map .timestamp
  | add, .interval i, .timestampTz t => (shiftTimestamp t i).map .timestampTz
  | subtract, .timestamp a, .timestamp b => intervalOr (Interval.between? a b)
  | subtract, .timestampTz a, .timestampTz b => intervalOr (Interval.between? a b)
  | subtract, .time a, .time b =>
    intervalOr (Interval.ofFields? 0 0 ((a.nanosBetween b).tdiv 1000))
  | add, .time t, .interval i => .ok (.time (t.addNanos (i.micros.toInt * 1000)).1)
  | subtract, .time t, .interval i => do
    return .time (t.addNanos ((← directed op i).micros.toInt * 1000)).1
  | add, .interval a, .interval b => intervalOr (a.add? b)
  | subtract, .interval a, .interval b => do intervalOr (a.add? (← directed op b))
  | add, .date d, n => match n.int? with
    | some n => shiftDate d n
    | none => .error (noOperator op.symbol x y)
  | subtract, .date d, n => match n.int? with
    | some n => shiftDate d (-n)
    | none => .error (noOperator op.symbol x y)
  | add, n, .date d => match n.int? with
    | some n => shiftDate d n
    | none => .error (noOperator op.symbol x y)
  | multiply, .interval i, n => match n.int? with
    | some n => intervalOr (i.mul? n)
    | none => .error (noOperator op.symbol x y)
  | multiply, n, .interval i => match n.int? with
    | some n => intervalOr (i.mul? n)
    | none => .error (noOperator op.symbol x y)
  | _, _, _ => .error (noOperator op.symbol x y)

/-! ## Text operands -/

/-- Whether an interval can be added to the value. -/
def isMoment : Value → Bool
  | .date _ => true
  | .time _ => true
  | .timestamp _ => true
  | .timestampTz _ => true
  | _ => false

/-- A text as an operand next to a value of a known type. -/
def readOperand (op : Arithmetic) (s : String) (other : Value) : Except Error Value :=
  let plain := match other.datatype with
    | some type => type.convert (.text s)
    | none => .ok (.text s)
  if isMoment other && (op == add || op == subtract) then
    match Interval.parse s with
    | .ok i => .ok (.interval i)
    | .error _ => plain
  else plain

/-- The operands, a text among them read as the other side's type. -/
def operands (op : Arithmetic) (x y : Value) : Except Error (Value × Value) :=
  match x, y with
  | .text _, .text _ => .ok (x, y)
  | .text s, _ => return (← op.readOperand s y, y)
  | _, .text s => return (x, ← op.readOperand s x)
  | _, _ => .ok (x, y)

/-- The result on two values that are not NULL. -/
def apply (op : Arithmetic) (x y : Value) : Except Error Value := do
  let (x, y) ← op.operands x y
  if x.isNumber && y.isNumber then op.onNumbers x y else op.onSpans x y

end Arithmetic

end SqlStore
