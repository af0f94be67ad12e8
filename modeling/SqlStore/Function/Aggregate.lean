import SqlStore.Function.Scalar
import SqlStore.StableSort
import SqlStore.Syntax.Expr

/-!
# Aggregate functions

An aggregate reduces the values of a group. NULLs do not count; over no values the result is NULL,
except that a count is zero. The kind of the first value decides how a sum or an average is taken.
-/

namespace SqlStore

namespace AggregateFunction

/-- The failure of a sum over different kinds. -/
def mixed (v : Value) : Error := .execution ("sum cannot mix in a value of type " ++ v.typeName)

/-- Adds values to a total, one after the other. -/
def total {α : Type} (read : Value → Option α) (add : α → α → Except Error α) (start : α)
    (values : List Value) : Except Error α :=
  values.foldlM (fun sum v => do add sum (← DataType.orFail (mixed v) (read v))) start

/-- The sum of integers of at most 32 bits, as 64 bits. -/
def integerSum : List Value → Except Error Int :=
  total Value.int? (fun a b => DataType.orFail (outOfRange .bigInt)
    ((int64? (a + b)).map (·.toInt))) 0

/-- The sum of exact numbers. -/
def decimalSum : List Value → Except Error Numeric :=
  total Value.numeric? (fun a b => DataType.orFail numericOverflow (a.add? b)) Numeric.zero

/-- The sum of numbers in floating point. -/
def floatSum : List Value → Except Error Binary64 :=
  total Value.binary64? (fun a b => .ok (a.add b)) Binary64.zero

/-- The interval of an interval value. -/
def interval? : Value → Option Interval
  | .interval i => some i
  | _ => none

/-- The sum of intervals. -/
def intervalSum : List Value → Except Error Interval :=
  total interval? (fun a b => DataType.orFail (.execution "interval out of range") (a.add? b))
    Interval.zero

/-- The sum of values that are not NULL. Integers of at most 32 bits sum to 64 bits and larger ones
to a decimal. -/
def sumOf (values : List Value) : Except Error Value :=
  match values.head? with
  | none => .ok .null
  | some (.smallInt _) | some (.integer _) => do
    return .bigInt (Int64.ofInt (← integerSum values))
  | some (.bigInt _) | some (.numeric _) => (decimalSum values).map .numeric
  | some (.real _) => do return .real (← floatSum values).narrow
  | some (.double _) => (floatSum values).map .double
  | some (.interval _) => (intervalSum values).map .interval
  | some v => .error (noFunction "sum" [v])

/-- The average of values that are not NULL: a decimal for exact numbers. -/
def averageOf (values : List Value) : Except Error Value :=
  match values.head? with
  | none => .ok .null
  | some v =>
    if v.isFloat then do
      return .double ((← floatSum values).div (Binary64.ofNat values.length))
    else if v.numeric?.isSome then do
      let sum ← decimalSum values
      (DataType.orFail numericOverflow
        ((Numeric.ofInt? values.length).bind sum.div?)).map .numeric
    else .error (noFunction "avg" [v])

/-- The value that stays when each value is kept that compares as wanted with the one before. -/
def extremeOf (wanted : Ordering) : List Value → Except Error Value
  | [] => .ok .null
  | v :: vs => vs.foldlM (fun best w => do
      return if (← w.compare best) == some wanted then w else best) v

/-- Reduces the values of a group. -/
def reduce (f : AggregateFunction) (distinct : Bool) (values : List Value) : Except Error Value :=
  let present := values.filter fun v => !v.isNull
  let present := if distinct then dropRepeats Value.totalCompare (Value.sort present) else present
  match f with
  | count => .ok (.bigInt (Int64.ofInt present.length))
  | sum => sumOf present
  | avg => averageOf present
  | min => extremeOf .lt present
  | max => extremeOf .gt present

end AggregateFunction

end SqlStore
