import SqlStore.Operator.Arithmetic
import SqlStore.Operator.Pattern
import SqlStore.Syntax.Expr
import SqlStore.Value.Comparison

/-!
# Applying operators

Operators on values. NULL on either side gives NULL. Logic has three values: a truth value is true,
false or unknown, and `Truth` gives conjunction and disjunction on them.
-/

namespace SqlStore

/-! ## Truth values -/

/-- A truth value; `none` is unknown. -/
abbrev Truth := Option Bool

namespace Truth

/-- A truth value as a value. -/
def toValue : Truth → Value
  | some b => .boolean b
  | none => .null

/-- Conjunction. -/
def and : Truth → Truth → Truth
  | some false, _ => some false
  | _, some false => some false
  | some true, some true => some true
  | _, _ => none

/-- Disjunction. -/
def or : Truth → Truth → Truth
  | some true, _ => some true
  | _, some true => some true
  | some false, some false => some false
  | _, _ => none

/-- Reads a value as a truth value of a clause. -/
def ofValue (clause : String) (v : Value) : Except Error Truth :=
  let failure := Error.execution ("argument of " ++ clause ++ " must be type boolean, not type " ++
    v.typeName)
  match v with
  | .null => .ok none
  | .boolean b => .ok (some b)
  | .text s =>
    let word := Text.lower (Text.trim s)
    if ["t", "true", "yes", "on", "1"].contains word then .ok (some true)
    else if ["f", "false", "no", "off", "0"].contains word then .ok (some false)
    else .error failure
  | _ => .error failure

end Truth

/-- The negation of a truth value, if asked for; other values stay. -/
def negateIf (negated : Bool) : Value → Value
  | .boolean b => .boolean (b != negated)
  | v => v

/-! ## Operators -/

/-- An operator with one operand. -/
def UnaryOp.apply (op : UnaryOp) (v : Value) : Except Error Value :=
  let missing := fun (symbol : String) =>
    Error.execution ("operator does not exist: " ++ symbol ++ " " ++ v.typeName)
  match op, v with
  | _, .null => .ok .null
  | .not, .boolean b => .ok (.boolean (!b))
  | .not, _ => .error (missing "NOT")
  | .plus, .interval i => .ok (.interval i)
  | .plus, v => if v.isNumber then .ok v else .error (missing "+")
  | .minus, .numeric d => .ok (.numeric d.neg)
  | .minus, .real x => .ok (.real x.neg)
  | .minus, .double x => .ok (.double x.neg)
  | .minus, .interval i => (DataType.orFail (outOfRange .interval) i.neg?).map .interval
  | .minus, v => match v.int? with
    | some n =>
      DataType.orFail (outOfRange (Arithmetic.widerType v v))
        (Arithmetic.wordOf? (Arithmetic.widerType v v) (-n))
    | none => .error (missing "-")

/-- A comparison by a test of the order. -/
def compareWith (test : Ordering → Bool) (a b : Value) : Except Error Value := do
  return Truth.toValue ((← a.compare b).map test)

/-- The document that an operand stands for. -/
def operandDocument (v : Value) : Except Error Json := do
  match ← DataType.jsonb.convert v with
  | .json j => return j
  | w => throw (.internal ("expected jsonb, got " ++ w.typeName))

/-- Joins two values: documents as documents, bytes as bytes, and anything with a text as text. -/
def concatenate (a b : Value) : Except Error Value :=
  match a, b with
  | .json x, _ => do return .json (x.append (← operandDocument b))
  | _, .json y => do return .json ((← operandDocument a).append y)
  | .bytea x, .bytea y => .ok (.bytea (x ++ y))
  | .text _, _ => .ok (.text (a.toText ++ b.toText))
  | _, .text _ => .ok (.text (a.toText ++ b.toText))
  | _, _ => .error (noOperator "||" a b)

/-- The part of a document under a key of an object or at an index of an array, where negative
indices count from the end. -/
def Json.part? (j : Json) (key : Value) : Except Error (Option Json) :=
  match j, key with
  | .object entries, .text k => .ok (entries.lookup k)
  | .array items, key => match key.int? with
    | some i =>
      let index := if i < 0 then items.length + i else i
      .ok (if index < 0 then none else items[index.toNat]?)
    | none => .ok none
  | .object _, _ => .ok none
  | _, .text _ => .ok none
  | _, key => match key.int? with
    | some _ => .ok none
    | none => .error (.execution ("operator does not exist: jsonb -> " ++ key.typeName))

/-- A part of a document as text: a string without its quotes, and NULL for null or nothing. -/
def partText : Option Json → Value
  | none => .null
  | some .null => .null
  | some (.string s) => .text s
  | some j => .text j.text

/-- The failure of AND and OR on values: what stands on their right side may not be evaluated at
all, so they are no operators on values. -/
def evaluatedLazily (name : String) : Error := .internal (name ++ " is evaluated lazily")

/-- The result of an operator on two values that are not NULL. -/
def BinaryOp.onPresent (op : BinaryOp) (a b : Value) : Except Error Value :=
  match op with
  | .equal => compareWith (· == .eq) a b
  | .notEqual => compareWith (· != .eq) a b
  | .less => compareWith (· == .lt) a b
  | .lessEqual => compareWith (· != .gt) a b
  | .greater => compareWith (· == .gt) a b
  | .greaterEqual => compareWith (· != .lt) a b
  | .concat => concatenate a b
  | .contains => do
    let whole ← operandDocument a
    return .boolean (whole.holds (← operandDocument b))
  | .containedBy => do
    let whole ← operandDocument b
    return .boolean (whole.holds (← operandDocument a))
  | .jsonGet => do
    return match ← (← operandDocument a).part? b with
      | some j => .json j
      | none => .null
  | .jsonGetText => do return partText (← (← operandDocument a).part? b)
  | .add => Arithmetic.add.apply a b
  | .subtract => Arithmetic.subtract.apply a b
  | .multiply => Arithmetic.multiply.apply a b
  | .divide => Arithmetic.divide.apply a b
  | .remainder => Arithmetic.remainder.apply a b
  | .and => .error (evaluatedLazily "And")
  | .or => .error (evaluatedLazily "Or")

/-- An operator with two operands. -/
def BinaryOp.apply (op : BinaryOp) (a b : Value) : Except Error Value :=
  if a.isNull || b.isNull then .ok .null else op.onPresent a b

/-- LIKE and ILIKE. -/
def applyLike (v pattern : Value) (ignoreCase : Bool) : Except Error Value :=
  match v, pattern with
  | .null, _ => .ok .null
  | _, .null => .ok .null
  | .text s, .text p => (likeText s p ignoreCase).map .boolean
  | _, _ => .error (noOperator "LIKE" v pattern)

/-- Whether a value lies between two others, both included. -/
def applyBetween (v low high : Value) : Except Error Value := do
  let above := (← v.compare low).map (· != .lt)
  let below := (← v.compare high).map (· != .gt)
  return (Truth.and above below).toValue

/-- Whether a value is among candidates: true at the first match, else unknown if some comparison
was, and false among none at all. -/
def membershipFrom (v : Value) : Truth → List Value → Except Error Truth
  | result, [] => .ok result
  | result, c :: cs => do
    match ← v.compare c with
    | some .eq => return some true
    | some _ => membershipFrom v result cs
    | none => membershipFrom v none cs

/-- The answer before the first candidate is looked at. -/
def membershipStart (v : Value) (none? : Bool) : Truth :=
  if none? || !v.isNull then some false else none

/-- Whether a value is in a list. -/
def membership (v : Value) (candidates : List Value) : Except Error Truth :=
  membershipFrom v (membershipStart v candidates.isEmpty) candidates

end SqlStore
