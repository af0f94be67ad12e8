import SqlStore.Store.Basic

/-!
# Triggers

A trigger is bound to a table, a timing and an operation. It is called when it is registered, when
it fires, when it is removed from its table and when it is released, and answers each call with a
reaction. What it answers may depend on all calls that it got so far, so a trigger is a function
from its calls to a reaction.
-/

namespace SqlStore

/-- Whether a trigger fires in front of a change or behind it. -/
inductive TriggerTiming where
  | before
  | after
deriving Repr, DecidableEq

/-- An operation on a table. -/
inductive TableOperation where
  | insert
  | update
  | delete
  | select
deriving Repr, DecidableEq

/-- What a trigger is bound to, and its name. -/
structure TriggerDefinition where
  schema : String
  name : String
  table : String
  timing : TriggerTiming
  operation : TableOperation
deriving Repr, DecidableEq

/-- What makes triggers fire: an operation on a table, in front of it or behind it. -/
structure Occasion where
  table : TableName
  timing : TriggerTiming
  operation : TableOperation
deriving Repr, DecidableEq

/-- A call of a trigger. -/
inductive TriggerCall where
  /-- The trigger is being registered. -/
  | init
  /-- The trigger fires with the rows before and after the change; `visible` is the number of rows
  in its table at that moment, if there is the table. -/
  | fire (old new : Option Row) (visible : Option Nat)
  /-- The trigger is released. -/
  | close
  /-- The trigger is removed from its table. -/
  | remove

/-- The answer to a call: statements to run in a session of its own, then a failure. -/
structure Reaction where
  sql : Option String
  failure : Option Error

/-- A trigger; `react` maps its calls so far, the present one last, to a reaction. -/
structure Trigger where
  definition : TriggerDefinition
  react : List TriggerCall → Reaction

/-- A registered trigger. The serial number tells apart triggers of one name. -/
structure Registration where
  serial : Nat
  trigger : Trigger

/-- A call as it is recorded. -/
structure TriggerEvent where
  serial : Nat
  name : String
  call : TriggerCall

namespace TriggerDefinition

/-- The table of a trigger. -/
def fullName (d : TriggerDefinition) : TableName := ⟨d.schema, d.table⟩

/-- Whether a trigger fires at an occasion. -/
def fits (d : TriggerDefinition) (o : Occasion) : Bool :=
  d.fullName == o.table && d.timing == o.timing && d.operation == o.operation

/-- Whether the definition is of a trigger of a name on a table. -/
def isNamed (d : TriggerDefinition) (table : TableName) (name : String) : Bool :=
  d.fullName == table && d.name == name

end TriggerDefinition

namespace Registration

/-- The definition of the trigger. -/
def definition (r : Registration) : TriggerDefinition := r.trigger.definition

/-- The calls of one trigger among recorded ones. -/
def calls (r : Registration) (trace : List TriggerEvent) : List TriggerCall :=
  (trace.filter fun e => e.serial == r.serial).map TriggerEvent.call

end Registration

end SqlStore
