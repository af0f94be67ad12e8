import SqlStore.Value.Comparison

/-!
# Table definitions

A column has a type, may refuse NULL, may carry a default, and may demand distinct values. A
definition is checked once when its table is made; after that `Column.accept` brings every value
into the form of its column and `TableDefinition.accept` does so for a row.
-/

namespace SqlStore

/-- A column of a table. -/
structure Column where
  name : String
  datatype : DataType
  nullable : Bool
  default : Option Value
  primaryKey : Bool
  unique : Bool
  maxLength : Option Nat
  autoIncrement : Bool

/-- What a table is made of. -/
structure TableDefinition where
  schema : String
  name : String
  columns : List Column

namespace Column

/-- A column without constraints. -/
def plain (name : String) (datatype : DataType) : Column :=
  ⟨name, datatype, true, none, false, false, none, false⟩

/-- Whether the values of the column have to differ. -/
def isUnique (c : Column) : Bool := c.primaryKey || c.unique

/-- Equality of columns, defaults as values. -/
def same (a b : Column) : Bool :=
  a.name == b.name && a.datatype == b.datatype && a.nullable == b.nullable &&
    (match a.default, b.default with
      | some v, some w => v == w
      | none, none => true
      | _, _ => false) &&
    a.primaryKey == b.primaryKey && a.unique == b.unique && a.maxLength == b.maxLength &&
    a.autoIncrement == b.autoIncrement

/-- Checks that the parts of a column agree with each other. -/
def validate (c : Column) : Except Error Unit := do
  if c.primaryKey && c.nullable then
    throw (.execution ("primary key column " ++ c.name ++ " cannot be nullable"))
  match c.default with
  | none => pure ()
  | some v =>
    if !c.datatype.admits v then
      throw (.rule ("default value " ++ v.toText ++ " is not valid for column " ++ c.name ++
        " of type " ++ c.datatype.name))
    if v.isNull && !c.nullable then
      throw (.rule ("default NULL not allowed for NOT NULL column " ++ c.name))
  if c.autoIncrement && !(c.datatype == .smallInt || c.datatype == .integer ||
      c.datatype == .bigInt) then
    throw (.execution ("serial column " ++ c.name ++ " must be an integer type"))

/-- The failure of a text that is too long. -/
def tooLong (c : Column) (max : Nat) : Error :=
  .rule ("value too long for type " ++ c.datatype.name ++ "(" ++ Text.showInt max ++
    ") in column " ++ quoteName c.name)

/-- Fits a text to the bound of the column. Text of type `character` is filled with spaces, and
spaces at its end do not count. -/
def bound (c : Column) (v : Value) : Except Error Value :=
  match v, c.maxLength with
  | .text s, some max =>
    if c.datatype == .char then
      let trimmed := (s.toList.reverse.dropWhile (· == ' ')).reverse
      if trimmed.length > max then .error (c.tooLong max)
      else .ok (.text (String.ofList (trimmed ++ List.replicate (max - trimmed.length) ' ')))
    else if s.length > max then .error (c.tooLong max)
    else .ok v
  | v, _ => .ok v

/-- The value in the form of the column, or the failure. -/
def accept (c : Column) (v : Value) : Except Error Value :=
  if v.isNull then
    if c.nullable then .ok .null
    else .error (.rule ("null value in column " ++ quoteName c.name ++
      " violates not-null constraint"))
  else do c.bound (← (c.datatype.convert v).mapError (Error.inColumn c.name))

end Column

namespace TableDefinition

/-- Equality of definitions. -/
def same (a b : TableDefinition) : Bool :=
  a.schema == b.schema && a.name == b.name && a.columns.length == b.columns.length &&
    (a.columns.zip b.columns).all fun (c, d) => c.same d

/-- Checks the columns in order; `before` holds the names of those already checked. -/
def validateColumns (before : List String) : List Column → Except Error Unit
  | [] => .ok ()
  | c :: cs =>
    if before.contains c.name then
      .error (.execution ("column " ++ c.name ++ " specified more than once"))
    else do
      c.validate
      validateColumns (c.name :: before) cs

/-- Checks a definition: it has columns, their names differ, and at most one is the primary key. -/
def validate (t : TableDefinition) : Except Error Unit := do
  if t.columns.isEmpty then throw (.execution ("table " ++ t.name ++ " has no columns"))
  validateColumns [] t.columns
  if (t.columns.filter (·.primaryKey)).length > 1 then
    throw (.execution ("multiple primary keys for table " ++ t.name ++ " are not allowed"))

/-- The place of a column. -/
def columnIndex (t : TableDefinition) (name : String) : Except Error Nat :=
  match t.columns.findIdx? (·.name == name) with
  | some i => .ok i
  | none =>
    .error (.execution ("column " ++ name ++ " of relation " ++ t.name ++ " does not exist"))

/-- Fits values to columns, one each. -/
def acceptAll : List Column → Tuple → Except Error Tuple
  | c :: cs, v :: vs => do
    let v ← c.accept v
    return v :: (← acceptAll cs vs)
  | _, _ => .ok []

/-- The row in the form of the table, or the first failure. -/
def accept (t : TableDefinition) (row : Tuple) : Except Error Tuple :=
  if row.length != t.columns.length then
    .error (.rule ("row has " ++ Text.showInt row.length ++ " values but table " ++ t.name ++
      " has " ++ Text.showInt t.columns.length ++ " columns"))
  else acceptAll t.columns row

theorem length_acceptAll {cs : List Column} {vs ws : Tuple} (h : acceptAll cs vs = .ok ws)
    (hl : vs.length = cs.length) : ws.length = cs.length := by
  induction cs generalizing vs ws with
  | nil => cases vs <;> simp_all [acceptAll]
  | cons c cs ih =>
    cases vs with
    | nil => simp at hl
    | cons v vs =>
      unfold acceptAll at h
      cases hv : c.accept v with
      | error e => simp [hv, bind, Except.bind] at h
      | ok w =>
        cases hr : acceptAll cs vs with
        | error e => simp [hv, hr, bind, Except.bind] at h
        | ok us =>
          simp [hv, hr, bind, Except.bind, pure, Except.pure] at h
          subst h
          simpa using ih hr (by simpa using hl)

end TableDefinition

/-- A stored row: a number that identifies it in its table, and its values. -/
structure Row where
  id : Nat
  values : Tuple

namespace Row

/-- The value of a column. -/
def value (r : Row) (index : Nat) : Except Error Value :=
  match r.values[index]? with
  | some v => .ok v
  | none =>
    .error (.execution ("column index " ++ Text.showInt index ++
      " out of range for row with " ++ Text.showInt r.values.length ++ " columns"))

/-- The row of the same number with other values. -/
def withValues (r : Row) (values : Tuple) : Row := { r with values }

end Row

end SqlStore
