import SqlStore.Operator.Arithmetic
import SqlStore.Value.Comparison

/-!
# Scalar functions

The functions that every database has. A function refuses a wrong number of arguments and types it
is not made for with the failure of an unknown function. The functions of the clock come first and
cannot be replaced; the others can.
-/

namespace SqlStore

/-- The failure of a function that there is not for these arguments. -/
def noFunction (name : String) (args : Tuple) : Error :=
  .execution ("function " ++ name ++ "(" ++ ", ".intercalate (args.map Value.typeName) ++
    ") does not exist")

/-- The value of a clock function. -/
def clockValue? (now : Timestamp) : String → Option Value
  | "now" | "current_timestamp" | "transaction_timestamp" => some (.timestampTz now)
  | "localtimestamp" => some (.timestamp now)
  | "current_date" => some (.date now.date)
  | "current_time" | "localtime" => some (.time now.time)
  | _ => none

/-- A built-in function. -/
inductive ScalarFunction where
  | randomUuid
  | timeOrderedUuid
  | lower
  | upper
  | length
  | abs
  | coalesce
  | nullIf
  | concat
  | round
  | jsonTypeOf
deriving Repr, DecidableEq

namespace ScalarFunction

/-- The function of a name in lower case. -/
def ofName? : String → Option ScalarFunction
  | "gen_random_uuid" => some randomUuid
  | "uuid_generate_v4" => some randomUuid
  | "uuid_generate_v7" => some timeOrderedUuid
  | "lower" => some lower
  | "upper" => some upper
  | "length" => some length
  | "abs" => some abs
  | "coalesce" => some coalesce
  | "nullif" => some nullIf
  | "concat" => some concat
  | "round" => some round
  | "jsonb_typeof" => some jsonTypeOf
  | _ => none

/-- The name in failures. -/
def name : ScalarFunction → String
  | randomUuid => "gen_random_uuid"
  | timeOrderedUuid => "uuid_generate_v7"
  | lower => "lower"
  | upper => "upper"
  | length => "length"
  | abs => "abs"
  | coalesce => "coalesce"
  | nullIf => "nullif"
  | concat => "concat"
  | round => "round"
  | jsonTypeOf => "jsonb_typeof"

/-- The failure of unfitting arguments. -/
def refuse {α : Type} (f : ScalarFunction) (args : Tuple) : Except Error α :=
  .error (noFunction f.name args)

/-- The absolute value of a number. -/
def absolute? : Value → Option (Except Error Value)
  | .null => some (.ok .null)
  | .numeric d => some (.ok (.numeric d.abs))
  | .real x => some (.ok (.real x.abs))
  | .double x => some (.ok (.double x.abs))
  | v => v.int?.map fun n =>
    let type := Arithmetic.widerType v v
    DataType.orFail (outOfRange type) (Arithmetic.wordOf? type n.natAbs)

/-- A decimal rounded half away from zero; negative places round in front of the point. -/
def roundDecimal (d : Numeric) (places : Int) : Except Error Numeric :=
  if 0 ≤ places then .ok (d.round places.toNat)
  else if places < -18 then .error numericOverflow
  else DataType.orFail numericOverflow (do
    let factor ← Numeric.ofInt? (pow10 places.natAbs)
    ((← d.div? factor).round 0).mul? factor)

/-- A number rounded half away from zero, in its own type; a floating-point number in double
precision. -/
def rounded (args : Tuple) (v : Value) (places : Int) : Except Error Value :=
  if v.isNull then .ok .null
  else if v.isFloat then
    let factor := (Binary64.ofNat 10).power places
    .ok (.double ((v.toBinary64.mul factor).round.div factor))
  else match v.numeric?, v.datatype with
    | some d, some type => do type.convert (.numeric (← roundDecimal d places))
    | _, _ => round.refuse args

/-- The places that `round` is asked for; `none` for NULL. -/
def roundPlaces (args : Tuple) : Option Value → Except Error (Option Int)
  | none => .ok (some 0)
  | some .null => .ok none
  | some v => match v.int?.bind int32? with
    | some n => .ok (some n.toInt)
    | none => round.refuse args

/-- The result for arguments. `serial` tells identifiers apart. -/
def apply (f : ScalarFunction) (now : Timestamp) (serial : Nat) (args : Tuple) :
    Except Error Value :=
  match f, args with
  | randomUuid, [] => .ok (.uuid (Uuid.version4 serial))
  | timeOrderedUuid, [] =>
    let millis := (now.nanosBetween (.ofDate Date.epoch)) / 1000000
    .ok (.uuid (Uuid.version7 millis.toNat serial))
  | lower, [.null] | upper, [.null] | length, [.null] | jsonTypeOf, [.null] => .ok .null
  | lower, [.text s] => .ok (.text (Text.lower s))
  | upper, [.text s] => .ok (.text (Text.upper s))
  | length, [.text s] =>
    (DataType.orFail (outOfRange .integer) (int32? s.length)).map .integer
  | length, [.bytea bytes] =>
    (DataType.orFail (outOfRange .integer) (int32? bytes.length)).map .integer
  | abs, [v] => match absolute? v with
    | some r => r
    | none => f.refuse args
  | coalesce, _ :: _ => .ok ((args.find? fun v => !v.isNull).getD .null)
  | nullIf, [a, b] => do
    return match ← a.compare b with
      | some .eq => .null
      | _ => a
  | concat, _ :: _ =>
    .ok (.text (String.join ((args.filter fun v => !v.isNull).map Value.toText)))
  | round, v :: rest =>
    if rest.length ≤ 1 then do
      match ← roundPlaces args rest.head? with
      | some places => rounded args v places
      | none => return .null
    else f.refuse args
  | jsonTypeOf, [.json j] => .ok (.text j.kind)
  | _, _ => f.refuse args

end ScalarFunction

end SqlStore
