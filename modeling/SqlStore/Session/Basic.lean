import SqlStore.Session.DataStatement
import SqlStore.Syntax.StatementReading

/-!
# Sessions

A session runs statements one after the other. Outside of a transaction every statement has one of
its own, which is committed if the statement succeeds and rolled back if it fails. Inside one, a
failed statement is undone alone and the transaction goes on. Triggers run their statements in
sessions of their own: `hookAt` ties sessions and triggers together, with a number that bounds how
deep they nest. No trigger fires while it is being fired, so as many levels as there are triggers
are enough.
-/

namespace SqlStore

/-- A session on a database: the explicit transaction that is open, if any. -/
structure Connection where
  database : Database
  transaction : Option Transaction

namespace Connection

/-- A new session on a database. -/
def ofDatabase (db : Database) : Connection := ⟨db, none⟩

/-- A call on the database. -/
def onDatabase {α : Type} (call : Run Database α) : Run Connection α :=
  call.within Connection.database fun database c => { c with database }

/-- A call on a transaction that the session does not keep. -/
def onTransaction {α : Type} (t : Transaction) (call : Action α) : Run Connection α :=
  call.within (fun c => ⟨c.database, t⟩) fun w c => { c with database := w.database }

/-- A call on the transaction of the session. -/
def onOwnTransaction {α : Type} (t : Transaction) (call : Action α) : Run Connection α :=
  call.within (fun c => ⟨c.database, t⟩) fun w _ => ⟨w.database, some w.transaction⟩

/-- Takes the open transaction away from the session. -/
def takeTransaction : Run Connection Transaction := do
  let c ← get
  match c.transaction with
  | some t =>
    set { c with transaction := none }
    return t
  | none => throw (.transactionState "there is no transaction in progress")

/-! ## Statements -/

/-- A statement inside an explicit transaction. -/
def insideTransaction (hook : Hook) (s : Statement) : Action Outcome := do
  Action.beginStatement
  match ← (Action.perform hook s).attempt with
  | .ok outcome => return outcome
  | .error e =>
    Action.abortStatement
    throw e

/-- A statement as a transaction of its own. -/
def ownTransaction (hook : Hook) (s : Statement) : Action Outcome := do
  Action.beginStatement
  match ← (Action.perform hook s).attempt with
  | .ok outcome =>
    Action.commit
    return outcome
  | .error e =>
    Action.abortStatement
    Action.rollback
    throw e

/-- Begins an explicit transaction. -/
def begin_ (isolation : Option Isolation) : Run Connection Outcome := do
  let c ← get
  if c.transaction.isSome then
    throw (.transactionState "there is already a transaction in progress")
  let t ← onDatabase
    (Database.begin_ (isolation.getD c.database.config.defaultIsolation) true)
  modify fun c => { c with transaction := some t }
  return .begun t.version t.isolation

/-- Runs a statement. -/
def executeStatement (hook : Hook) (s : Statement) : Run Connection Outcome := do
  match s with
  | .begin_ isolation => begin_ isolation
  | .commit =>
    let t ← takeTransaction
    onTransaction t Action.commit
    return .committed t.version
  | .rollback =>
    let t ← takeTransaction
    onTransaction t Action.rollback
    return .rolledBack t.version
  | s =>
    let c ← get
    match c.transaction with
    | some t => onOwnTransaction t (insideTransaction hook s)
    | none =>
      let t ← onDatabase (Database.begin_ c.database.config.defaultIsolation false)
      onTransaction t (ownTransaction hook s)

/-- Runs all statements of a text up to the first failure. -/
def executeBatch (hook : Hook) (sql : String) : Run Connection (List Outcome) := do
  (← ofExcept (parseStatements sql)).mapM (executeStatement hook)

/-- Runs all statements of a text; gives what the last one did. -/
def execute (hook : Hook) (sql : String) : Run Connection Outcome := do
  match (← executeBatch hook sql).getLast? with
  | some outcome => return outcome
  | none => throw (.execution "empty query")

/-- Ends a session: an open transaction is rolled back, and a failure of that does not matter. -/
def release : Run Connection Unit := do
  let c ← get
  match c.transaction with
  | some t =>
    set { c with transaction := none }
    let _ ← (onTransaction t Action.rollback).attempt
    return ()
  | none => return ()

/-- Runs a text in a session that ends behind it. -/
def executeOnce (hook : Hook) (sql : String) : Run Database Unit :=
  Run.within ofDatabase (fun c _ => c.database) do
    let r ← (execute hook sql).attempt
    release
    let _ ← ofExcept r
    return ()

/-- Runs the statements of triggers whose firing nests up to a depth. -/
def hookAt : Nat → Hook
  | 0 => fun _ => throw (.internal "triggers nest too deep")
  | depth + 1 => executeOnce (hookAt depth)

end Connection

/-- Runs the statements of triggers of a database. -/
def Database.hook (db : Database) : Hook := Connection.hookAt (db.registrations.length + 1)

namespace Session

/-- Runs a call of a session with the hook of its database. -/
def call {α : Type} (body : Hook → Run Connection α) : Run Connection α := do
  body (← get).database.hook

/-- Runs all statements of a text; gives what the last one did. -/
def execute (sql : String) : Run Connection Outcome := call (Connection.execute · sql)

/-- Runs all statements of a text up to the first failure. -/
def executeBatch (sql : String) : Run Connection (List Outcome) :=
  call (Connection.executeBatch · sql)

/-- Runs a statement. -/
def executeStatement (s : Statement) : Run Connection Outcome :=
  call (Connection.executeStatement · s)

end Session

end SqlStore
