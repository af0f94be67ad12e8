import SqlStore.Uuid
import SqlStore.Json.Reading
import SqlStore.Calendar.Reading

/-!
# Errors

Every failing call says which of six kinds of failure stopped it. A failed validation keeps its
cause apart from its wording, so that a caller can tell the fault of a document, a date or an
identifier from a broken rule of a column.
-/

namespace SqlStore

/-- Why a value is not acceptable. -/
inductive Invalid where
  | rule (message : String)
  | json (fault : JsonError)
  | calendar (fault : CalendarFault)
  | uuid (fault : UuidFault)
  | column (name : String) (cause : Invalid)
deriving Repr, DecidableEq

/-- The wording of a cause. -/
def Invalid.message : Invalid → String
  | rule message => message
  | json fault => fault.message
  | calendar fault => fault.message
  | uuid fault => fault.message
  | column name cause => "column \"" ++ name ++ "\": " ++ cause.message

/-- The failure of a call. -/
inductive Error where
  /-- Malformed text; the position counts characters. -/
  | parse (message : String) (position : Nat)
  /-- A value breaks a rule of its type or its column. -/
  | validation (cause : Invalid)
  /-- A name is unknown, an operator does not apply, a subquery has the wrong shape. -/
  | execution (message : String)
  /-- A trigger refused a change. -/
  | trigger (message : String)
  /-- A call does not fit the state of the transaction. -/
  | transactionState (message : String)
  /-- A broken invariant. -/
  | internal (message : String)
deriving Repr, DecidableEq

namespace Error

/-- A broken rule as a failed validation. -/
def rule (message : String) : Error := validation (.rule message)

/-- The text of the failure itself. -/
def message : Error → String
  | parse m _ => m
  | validation cause => cause.message
  | execution m => m
  | trigger m => m
  | transactionState m => m
  | internal m => m

/-- The report of a failure: its kind and its text. -/
def report : Error → String
  | parse m position => "parse error at position " ++ Text.showInt position ++ ": " ++ m
  | validation cause => "validation error: " ++ cause.message
  | execution m => "execution error: " ++ m
  | trigger m => "trigger error: " ++ m
  | transactionState m => "transaction state error: " ++ m
  | internal m => "internal error: " ++ m

/-- The failure of a column's value names the column. -/
def inColumn (name : String) : Error → Error
  | validation cause => validation (.column name cause)
  | e => e

/-- The failure of a trigger names the trigger, unless it is a trigger's failure already. -/
def ofTrigger (name : String) : Error → Error
  | trigger m => trigger m
  | e => trigger ("trigger \"" ++ name ++ "\" failed: " ++ e.report)

end Error

/-- Text in double quotes. -/
def quoteName (name : String) : String := "\"" ++ name ++ "\""

end SqlStore
