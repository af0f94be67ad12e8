import SqlStore.Config
import SqlStore.Function.Scalar
import SqlStore.Store.Snapshot
import SqlStore.Trigger

/-!
# Databases

A database is a store with its triggers, its host functions, its settings and its counters. Every
call of a trigger is recorded in its trace. Calls on a database are `Run Database`: they may fail,
and what they did before they failed stays.
-/

namespace SqlStore

/-- A function that the host adds. -/
abbrev HostFunction := Tuple → Except Error Value

/-- A database. -/
structure Database where
  config : Config
  store : Store
  /-- The registered triggers, the oldest first. -/
  registrations : List Registration
  nextSerial : Nat
  /-- All calls of triggers, the oldest first. -/
  trace : List TriggerEvent
  /-- The number of the next transaction. -/
  nextVersion : Nat
  /-- The host's functions by name in lower case, the newest first. -/
  functions : List (String × HostFunction)
  /-- The time that the clock shows. -/
  clock : Timestamp
  /-- The number of function calls so far, which tells drawn identifiers apart. -/
  drawn : Nat

/-- A call that reads and changes a state and may fail; a failure keeps the changes before it. -/
abbrev Run (σ : Type) := ExceptT Error (StateM σ)

/-- How a database runs the statements of a trigger's reaction. -/
abbrev Hook := String → Run Database Unit

namespace Run

/-- Runs a call on a part of the state. -/
def within {σ τ α : Type} (get : σ → τ) (put : τ → σ → σ) (call : Run τ α) : Run σ α :=
  ExceptT.mk fun s =>
    let (r, t) := call.run.run (get s)
    (r, put t s)

/-- A call that never fails, with its result or failure as a value. -/
def attempt {σ α : Type} (call : Run σ α) : Run σ (Except Error α) :=
  ExceptT.mk fun s =>
    let (r, s) := call.run.run s
    (.ok r, s)

end Run

namespace Database

/-- A database with the default schema of its settings. -/
def open_ (config : Config) (clock : Timestamp) : Database :=
  { config
    store := ⟨[config.defaultSchema], []⟩
    registrations := []
    nextSerial := 0
    trace := []
    nextVersion := 1
    functions := []
    clock
    drawn := 0 }

/-! ## Functions -/

/-- Adds a host function, or replaces the function of that name. -/
def addFunction (db : Database) (name : String) (f : HostFunction) : Database :=
  { db with functions := (Text.lower name, f) :: db.functions }

/-- The result of a function: of the clock, else of the host, else a built-in one. -/
def callFunction (db : Database) (name : String) (args : Tuple) : Except Error Value :=
  match clockValue? db.clock name, db.functions.lookup name, ScalarFunction.ofName? name with
  | some v, _, _ => if args.isEmpty then .ok v else .error (noFunction name args)
  | none, some f, _ => f args
  | none, none, some f => f.apply db.clock db.drawn args
  | none, none, none => .error (noFunction name args)

/-! ## Store -/

/-- Changes the store, or fails and leaves it. -/
def changeStore (f : Store → Except Error Store) : Run Database Unit := do
  let db ← get
  let store ← ofExcept (f db.store)
  set { db with store }

/-- The keys that the last insertion into a table generated. -/
def lastKeys (db : Database) (n : TableName) : Except Error (List Tuple) := do
  return (← db.store.table n).lastKeys

/-! ## Triggers -/

/-- The number of rows in a table, if there is the table. -/
def visibleRows (db : Database) (n : TableName) : Option Nat :=
  (db.store.table? n).map fun t => t.rows.length

/-- Records a call of a trigger and gives its reaction. -/
def callTrigger (r : Registration) (call : TriggerCall) : Run Database Reaction := do
  let db ← get
  let trace := db.trace ++ [⟨r.serial, r.definition.name, call⟩]
  set { db with trace }
  return r.trigger.react (r.calls trace)

/-- Fails with the failure of a reaction, if there is one. -/
def failWith (reaction : Reaction) : Run Database Unit :=
  match reaction.failure with
  | some e => throw e
  | none => return ()

/-- Calls a trigger that runs no statements in this call. -/
def notify (r : Registration) (call : TriggerCall) : Run Database Unit := do
  failWith (← callTrigger r call)

/-- A failure inside a call is a failure of the trigger. -/
def asTrigger {α : Type} (r : Registration) (call : Run Database α) : Run Database α := do
  match ← call.attempt with
  | .ok a => return a
  | .error e => throw (e.ofTrigger r.definition.name)

/-- Fires one trigger: it is called, its statements run, and then it may fail. -/
def fireOne (hook : Hook) (old new : Option Row) (r : Registration) : Run Database Unit :=
  asTrigger r do
    let visible := (← get).visibleRows r.definition.fullName
    let reaction ← callTrigger r (.fire old new visible)
    match reaction.sql with
    | some sql => hook sql
    | none => pure ()
    failWith reaction

/-- Fires the triggers of an occasion in the order of registration, up to the first failure. The
triggers are chosen before the first one fires. -/
def fire (hook : Hook) (o : Occasion) (old new : Option Row) : Run Database Unit := do
  ((← get).registrations.filter fun r => r.definition.fits o).forM (fireOne hook old new)

/-- Registers a trigger. Names are unique on a table. -/
def register (t : Trigger) : Run Database Unit := do
  let db ← get
  let d := t.definition
  if db.registrations.any fun r => r.definition.isNamed d.fullName d.name then
    throw (.execution ("trigger " ++ quoteName d.name ++ " for relation " ++ quoteName d.table ++
      " already exists"))
  let r : Registration := ⟨db.nextSerial, t⟩
  set { db with nextSerial := db.nextSerial + 1 }
  asTrigger r (notify r .init)
  modify fun db => { db with registrations := db.registrations ++ [r] }

/-- Removes a trigger from its table and releases it. It is gone even if it fails. -/
def unregister (table : TableName) (name : String) : Run Database Unit := do
  let db ← get
  match db.registrations.find? fun r => r.definition.isNamed table name with
  | none => throw (.execution ("trigger " ++ quoteName name ++ " for table " ++
      quoteName table.name ++ " does not exist"))
  | some r =>
    set { db with registrations := db.registrations.filter fun q => q.serial != r.serial }
    asTrigger r do
      notify r .remove
      notify r .close

/-- Removes the triggers of a table in the order of registration, up to the first failure. -/
def dropTriggers (table : TableName) : Run Database Unit := do
  ((← get).registrations.filter fun r => r.definition.fullName == table).forM fun r =>
    unregister table r.definition.name

/-- Closes a database: the triggers that are left are released, whether they fail or not. -/
def close : Run Database Unit := do
  let db ← get
  set { db with registrations := [] }
  db.registrations.forM fun r => do
    let _ ← (notify r .close).attempt
    return ()

end Database

end SqlStore
