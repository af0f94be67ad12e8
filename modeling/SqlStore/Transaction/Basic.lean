import SqlStore.Database.Basic

/-!
# Transactions

A transaction changes the store in place. It logs the inverse of every row change of the present
statement, and an explicit transaction takes a snapshot of the store in front of its first row
change; rolling back restores it. Changes of schemas and tables are not undone. A transaction that
was committed or rolled back refuses further changes. Calls on a transaction are `Action`s: they
change the database and the transaction, and a failure keeps the changes before it.
-/

namespace SqlStore

/-! ## Undoing changes

The log has the newest change first. A failed statement is undone by applying it from its newest
entry on. An entry whose table is gone fails and ends that; what was undone before it stays undone. -/

/-- The inverse of a change. -/
inductive Undo where
  /-- Takes an inserted row out. -/
  | remove (table : TableName) (id : Nat)
  /-- Puts back the row that was updated or deleted. -/
  | put (table : TableName) (old : Row)
  /-- Puts back the generated keys. -/
  | keys (table : TableName) (last : List Tuple)

namespace Undo

/-- Undoes one change. -/
def apply (s : Store) : Undo → Except Error Store
  | remove table id => s.change table fun t => t.remove id
  | put table old => s.change table fun t => t.put old
  | keys table last => s.change table fun t => { t with lastKeys := last }

/-- Undoes changes until one fails; gives the failure, if any, and the store it came to. -/
def applyAll (s : Store) : List Undo → Option Error × Store
  | [] => (none, s)
  | u :: us => match u.apply s with
    | .ok s => applyAll s us
    | .error e => (some e, s)

end Undo

/-! ## Transactions and calls -/

/-- The life of a transaction. The last two states are final. -/
inductive TransactionState where
  | active
  | committed
  | rolledBack
deriving Repr, DecidableEq

/-- A transaction. -/
structure Transaction where
  version : Nat
  isolation : Isolation
  /-- Whether it was begun by a statement of its own, and not for a single statement. -/
  explicit : Bool
  state : TransactionState
  snapshot : Option Snapshot
  /-- The inverses of the row changes of the present statement, the newest first. -/
  undo : List Undo

/-- A database with the transaction that works on it. -/
structure Work where
  database : Database
  transaction : Transaction

/-- A call on a transaction. -/
abbrev Action := Run Work

/-- Begins a transaction. -/
def Database.begin_ (isolation : Isolation) (explicit : Bool) : Run Database Transaction := do
  let db ← get
  set { db with nextVersion := db.nextVersion + 1 }
  return ⟨db.nextVersion, isolation, explicit, .active, none, []⟩

namespace Action

/-- A call on the database. -/
def onDatabase {α : Type} (call : Run Database α) : Action α :=
  call.within Work.database fun database w => { w with database }

/-- The store. -/
def store : Action Store := return (← get).database.store

/-- Changes the transaction. -/
def modifyTransaction (f : Transaction → Transaction) : Action Unit :=
  modify fun w => { w with transaction := f w.transaction }

/-- Changes the store. -/
def changeStore (f : Store → Except Error Store) : Action Unit :=
  onDatabase (Database.changeStore f)

/-- The failure of a call on a transaction that is over. -/
def finished (version : Nat) (how : String) : Error :=
  .transactionState ("transaction " ++ Text.showInt version ++ " is already " ++ how)

/-- Fails unless the transaction is active. -/
def ensureActive : Action Unit := do
  let t := (← get).transaction
  match t.state with
  | .active => return ()
  | .committed => throw (finished t.version "committed")
  | .rolledBack => throw (finished t.version "rolled back")

/-! ## The life of a transaction -/

/-- Commits: the changes stay. -/
def commit : Action Unit := do
  ensureActive
  modifyTransaction fun t => { t with state := .committed, snapshot := none, undo := [] }

/-- Rolls back to the snapshot, if there is one. -/
def rollback : Action Unit := do
  ensureActive
  let snapshot := (← get).transaction.snapshot
  modifyTransaction fun t => { t with state := .rolledBack, snapshot := none, undo := [] }
  match snapshot with
  | some picture => changeStore fun s => .ok (picture.restore s)
  | none => return ()

/-- Starts a statement: the changes before it can no longer be undone one by one. -/
def beginStatement : Action Unit := do
  ensureActive
  modifyTransaction fun t => { t with undo := [] }

/-- Undoes the row changes of the statement, in whatever state the transaction is. -/
def abortStatement : Action Unit := do
  let w ← get
  let (failure, store) := Undo.applyAll w.database.store w.transaction.undo
  set { w with
    database := { w.database with store }
    transaction := { w.transaction with undo := [] } }
  match failure with
  | some e => throw e
  | none => return ()

/-! ## Schemas and tables -/

/-- Makes a schema. -/
def createSchema (name : String) : Action Unit := do
  ensureActive
  changeStore (·.createSchema name)

/-- Drops a schema. -/
def dropSchema (name : String) : Action Unit := do
  ensureActive
  changeStore (·.dropSchema name)

/-- Whether there is a schema. -/
def hasSchema (name : String) : Action Bool := return (← store).hasSchema name

/-- Makes a table. -/
def createTable (d : TableDefinition) : Action Unit := do
  ensureActive
  changeStore (·.createTable d)

/-- Drops a table and then its triggers. -/
def dropTable (n : TableName) : Action Unit := do
  ensureActive
  changeStore (·.dropTable n)
  onDatabase (Database.dropTriggers n)

/-- The definition of a table, if there is the table. -/
def definition? (n : TableName) : Action (Option TableDefinition) :=
  return ((← store).table? n).map Table.definition

/-! ## Rows -/

/-- Logs the inverse of a change. -/
def log (u : Undo) : Action Unit := modifyTransaction fun t => { t with undo := u :: t.undo }

/-- Gets ready for a row change: an explicit transaction takes its snapshot. -/
def prepareWrite : Action Unit := do
  ensureActive
  let w ← get
  if w.transaction.explicit && w.transaction.snapshot.isNone then
    modifyTransaction fun t => { t with snapshot := some (Snapshot.capture w.database.store) }

/-- The table of a name, or the failure. -/
def table (n : TableName) : Action Table := do ofExcept ((← store).table n)

/-- Replaces a table that is there. -/
def putTable (n : TableName) (t : Table) : Action Unit :=
  changeStore fun s => s.change n fun _ => t

/-- Fires the triggers of a change. -/
def fire (hook : Hook) (n : TableName) (timing : TriggerTiming) (operation : TableOperation)
    (old new : Option Row) : Action Unit :=
  onDatabase (Database.fire hook ⟨n, timing, operation⟩ old new)

/-- All rows of a table in the order of their numbers. -/
def scan (hook : Hook) (n : TableName) : Action (List Row) := do
  ensureActive
  fire hook n .before .select none none
  let rows := (← table n).rows
  fire hook n .after .select none none
  return rows

/-- The next value of a column's sequence. -/
def nextSequence (n : TableName) (column : String) : Action Int := do
  ensureActive
  let (value, t) ← ofExcept ((← table n).nextSequence column)
  putTable n t
  return value

/-- Inserts one row; gives it with its generated key. -/
def insertOne (hook : Hook) (n : TableName) (values : Tuple) : Action (Row × Tuple) := do
  let t ← table n
  let values ← ofExcept (t.definition.accept values)
  let (id, t) := t.allocate
  putTable n t
  let row : Row := ⟨id, values⟩
  fire hook n .before .insert none (some row)
  let t ← table n
  ofExcept (t.checkUnique values none)
  putTable n (t.put row)
  log (.remove n id)
  fire hook n .after .insert none (some row)
  return (row, t.generatedKey row)

/-- Inserts rows one after the other, and records the keys generated. -/
def insert (hook : Hook) (n : TableName) (rows : List Tuple) : Action (List Row) := do
  prepareWrite
  let inserted ← rows.mapM (insertOne hook n)
  let t ← table n
  putTable n { t with lastKeys := inserted.map Prod.snd }
  log (.keys n t.lastKeys)
  return inserted.map Prod.fst

/-- The row of a number, or the failure. -/
def existingRow (t : Table) (n : TableName) (id : Nat) : Except Error Row :=
  match t.row? id with
  | some r => .ok r
  | none => .error (.execution ("row " ++ Text.showInt id ++ " of relation " ++
      quoteName n.name ++ " does not exist"))

/-- Replaces the values of a row. -/
def update (hook : Hook) (n : TableName) (id : Nat) (values : Tuple) : Action Row := do
  prepareWrite
  let t ← table n
  let old ← ofExcept (existingRow t n id)
  let new := old.withValues (← ofExcept (t.definition.accept values))
  fire hook n .before .update (some old) (some new)
  let t ← table n
  ofExcept (t.checkUnique new.values (some id))
  putTable n (t.put new)
  log (.put n old)
  fire hook n .after .update (some old) (some new)
  return new

/-- Removes a row. -/
def delete (hook : Hook) (n : TableName) (id : Nat) : Action Unit := do
  prepareWrite
  let old ← ofExcept (existingRow (← table n) n id)
  fire hook n .before .delete (some old) none
  putTable n ((← table n).remove id)
  log (.put n old)
  fire hook n .after .delete (some old) none

end Action

end SqlStore
