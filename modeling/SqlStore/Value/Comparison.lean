import SqlStore.StableSort
import SqlStore.Value.Conversion

/-!
# Comparison of values

`Value.compare` is the comparison of SQL: unknown with NULL, across the widths of numbers, with
text read as the type of the other side, and a failure between kinds that have no common order.
`Value.totalCompare` is defined on all pairs: NULL is the largest, and kinds that cannot be
compared have a fixed order. It sorts, groups and removes duplicates.
-/

namespace SqlStore.Value

/-- The order of numbers. Next to a floating-point number both sides are one. -/
def compareNumbers (a b : Value) : Ordering :=
  if a.isFloat || b.isFloat then a.toBinary64.totalCompare b.toBinary64
  else match a.numeric?, b.numeric? with
    | some x, some y => x.compareValue y
    | none, none => .eq
    | none, some _ => .lt
    | some _, none => .gt

/-- The order of two values of comparable kinds, none of them NULL and at most one text; `none`
when the kinds have no common order. -/
def compareKinds : Value → Value → Option Ordering
  | boolean a, boolean b => some (compare a.toNat b.toNat)
  | text a, text b => some (compare a b)
  | date a, date b => some (compare a.day b.day)
  | time a, time b => some (a.compareTime b)
  | timestamp a, timestamp b => some (a.compareTimestamp b)
  | timestampTz a, timestampTz b => some (a.compareTimestamp b)
  | date a, timestamp b => some ((Timestamp.ofDate a).compareTimestamp b)
  | timestamp a, date b => some (a.compareTimestamp (Timestamp.ofDate b))
  | timestamp a, timestampTz b => some (a.compareTimestamp b)
  | timestampTz a, timestamp b => some (a.compareTimestamp b)
  | interval a, interval b => some (compare a.totalMicros b.totalMicros)
  | uuid a, uuid b => some (a.compareUuid b)
  | bytea a, bytea b => some (Bytes.compareBytes a b)
  | json a, json b => some (if a.same b then .eq else compare a.text b.text)
  | a, b =>
    match a.int?, b.int? with
    | some m, some n => some (compare m n)
    | _, _ => if a.isNumber && b.isNumber then some (compareNumbers a b) else none

/-- The failure to compare two kinds. -/
def incomparable (a b : Value) : Error :=
  .execution ("cannot compare " ++ a.typeName ++ " with " ++ b.typeName)

/-- The order of two values that are not NULL, after text was read. -/
def compareRead (a b : Value) : Except Error (Option Ordering) :=
  match compareKinds a b with
  | some o => .ok (some o)
  | none => .error (incomparable a b)

/-- The comparison of SQL: `none` is unknown. -/
def compare (a b : Value) : Except Error (Option Ordering) :=
  if a.isNull || b.isNull then .ok none
  else match a, b, a.datatype, b.datatype with
    | text _, text _, _, _ => compareRead a b
    | text s, b, _, some type => do compareRead (← type.convert (text s)) b
    | a, text s, some type, _ => do compareRead a (← type.convert (text s))
    | a, b, _, _ => compareRead a b

/-- The place of a kind in the fixed order of kinds. -/
def kindRank : Value → Nat
  | boolean _ => 0
  | smallInt _ | integer _ | bigInt _ | numeric _ | real _ | double _ => 1
  | text _ => 2
  | date _ | timestamp _ | timestampTz _ => 3
  | time _ => 4
  | interval _ => 5
  | uuid _ => 6
  | json _ => 7
  | bytea _ => 8
  | null => 9

/-- The order that is defined on all pairs. -/
def totalCompare (a b : Value) : Ordering :=
  if a.isNull then (if b.isNull then .eq else .gt)
  else if b.isNull then .lt
  else match a.compare b with
    | .ok (some o) => o
    | _ => Ord.compare a.kindRank b.kindRank

/-- The order of tuples: by the first pair of values that differ, else the shorter one first. -/
def compareTuples : Tuple → Tuple → Ordering
  | [], [] => .eq
  | [], _ => .lt
  | _, [] => .gt
  | a :: as, b :: bs => (a.totalCompare b).then (compareTuples as bs)

/-- The stable sort by the total order. -/
def sort (values : List Value) : List Value := stableSort totalCompare values

end SqlStore.Value
