import SqlStore.Proofs.Database.Quiet
import SqlStore.Proofs.Mirror
import SqlStore.Proofs.Query.Supplied
import SqlStore.Proofs.Transaction.Lifecycle

/-!
# Reading a database as it stands

A query of a session fires triggers, records their calls and counts the functions that it calls, but
none of that shows in its rows, except that drawn identifiers depend on the count. `Database.reading`
answers queries from a database that stays as it is, with the count as the only state. While triggers
are quiet, a query inside a transaction answers as the reading does, or fails with the failure of a
trigger.
-/

namespace SqlStore

open Run

/-- The definitions of the tables of a database. -/
def Database.catalog (db : Database) : Catalog := fun n =>
  (db.store.table (n.inSchema db.config.defaultSchema)).map Table.definition

/-- What a database offers to queries while it stays as it is. The state is the number of function
calls so far. -/
def Database.reading (db : Database) : Services (Run Nat) where
  catalog := return db.catalog
  scan schema name := return (← ofExcept (db.store.table ⟨schema, name⟩)).rows
  call name args := do
    let drawn ← get
    set (drawn + 1)
    ofExcept ({ db with drawn }.callFunction name args)

/-- A transaction at work on a database that reads as the given one after a number of function
calls. -/
structure Work.Reads (db : Database) (w : Work) (drawn : Nat) : Prop where
  database : w.database =
    { db with trace := w.database.trace, nextVersion := w.database.nextVersion, drawn }
  quiet : db.Quiet
  active : w.transaction.state = .active

namespace Work.Reads

variable {db : Database} {w : Work} {drawn : Nat}

theorem store_eq (h : w.Reads db drawn) : w.database.store = db.store := by
  rw [h.database]

theorem quiet_work (h : w.Reads db drawn) : w.database.Quiet := by
  rw [h.database]
  exact h.quiet

/-- Recording calls of triggers does not change what is read. -/
theorem record (h : w.Reads db drawn) (trace : List TriggerEvent) :
    Reads db ⟨{ w.database with trace }, w.transaction⟩ drawn := by
  refine ⟨?_, h.quiet, h.active⟩
  have heq := h.database
  rcases w with ⟨⟨⟩, _⟩
  cases heq
  rfl

/-- Calling a function counts it. -/
theorem count (h : w.Reads db drawn) :
    Reads db ⟨{ w.database with drawn := w.database.drawn + 1 }, w.transaction⟩ (drawn + 1) := by
  refine ⟨?_, h.quiet, h.active⟩
  have heq := h.database
  rcases w with ⟨⟨⟩, _⟩
  cases heq
  rfl

/-- Firing triggers records their calls, whether one of them fails or not. -/
theorem exec_fire (h : w.Reads db drawn) (hook : Hook) (n : TableName) (timing : TriggerTiming)
    (operation : TableOperation) (old new : Option Row) :
    ∃ r trace, exec (Action.fire hook n timing operation old new) w =
        (r, ⟨{ w.database with trace }, w.transaction⟩) ∧ ∀ err, r = .error err → err.IsTrigger := by
  obtain ⟨r, trace, hrun, hfailure⟩ :=
    Database.exec_fire h.quiet_work hook ⟨n, timing, operation⟩ old new
  refine ⟨r, trace, ?_, hfailure⟩
  unfold Action.fire Action.onDatabase
  rw [exec_within, hrun]

/-- Triggers that do not fail let a statement go on. -/
theorem exists_of_neverRefuses {n : TableName} {operation : TableOperation} (h : w.Reads db drawn)
    (hnever : db.NeverRefuses n operation) (hook : Hook) (timing : TriggerTiming) (old new : Option Row) :
    ∃ w', exec (Action.fire hook n timing operation old new) w = (.ok ⟨⟩, w') ∧ w'.Reads db drawn := by
  have hregistrations : w.database.registrations = db.registrations := by
    rw [h.database]
  have hnever' : w.database.NeverRefuses n operation := by
    unfold Database.NeverRefuses
    rw [hregistrations]
    exact hnever
  obtain ⟨trace, hfire⟩ := Database.exec_fire_of_neverRefuses h.quiet_work hnever' hook timing old new
  refine ⟨⟨{ w.database with trace }, w.transaction⟩, ?_, h.record trace⟩
  unfold Action.fire Action.onDatabase
  rw [exec_within, hfire]

end Work.Reads

namespace Action

variable {db : Database}

/-- Firing triggers reads as doing nothing. -/
theorem reads_fire (hook : Hook) (n : TableName) (timing : TriggerTiming)
    (operation : TableOperation) (old new : Option Row) :
    Mirrors (Work.Reads db) Error.IsTrigger (fire hook n timing operation old new) (pure ⟨⟩) := by
  intro w drawn hw
  obtain ⟨r, trace, hfire, hfailure⟩ := hw.exec_fire hook n timing operation old new
  rw [hfire]
  cases r with
  | ok u => exact Or.inr ⟨rfl, hw.record trace⟩
  | error err => exact Or.inl ⟨err, rfl, hfailure err rfl⟩

theorem reads_ensureActive : Mirrors (Work.Reads db) Error.IsTrigger ensureActive (pure ⟨⟩) :=
  mirrors_of_exec fun w drawn hw => ⟨.ok ⟨⟩, w, drawn, exec_ensureActive hw.active, rfl, hw⟩

theorem reads_table (n : TableName) :
    Mirrors (Work.Reads db) Error.IsTrigger (table n) (ofExcept (db.store.table n)) := by
  refine mirrors_of_exec fun w drawn hw => ⟨_, _, _, exec_table n w, ?_, hw⟩
  rw [exec_ofExcept, hw.store_eq]

theorem reads_scan (hook : Hook) (n : TableName) :
    Mirrors (Work.Reads db) Error.IsTrigger (scan hook n)
      (do return (← ofExcept (db.store.table n)).rows) := by
  have hfire : ∀ timing, Mirrors (Work.Reads db) Error.IsTrigger
      (fire hook n timing .select none none) (pure ⟨⟩) :=
    fun timing => reads_fire hook n timing .select none none
  have hsteps := reads_ensureActive.bind fun _ => (hfire .before).bind fun _ =>
    (reads_table n).bind fun t => (hfire .after).bind fun _ =>
      mirrors_pure (S := Work.Reads db) (X := Error.IsTrigger) t.rows
  unfold scan
  simpa only [pure_bind] using hsteps

theorem exec_catalog (w : Work) : exec catalog w = (.ok w.database.catalog, w) := rfl

theorem reads_catalog : Mirrors (Work.Reads db) Error.IsTrigger catalog db.reading.catalog := by
  refine mirrors_of_exec fun w drawn hw => ⟨_, w, drawn, exec_catalog w, ?_, hw⟩
  rw [hw.database]
  rfl

theorem exec_callFunction (name : String) (args : Tuple) (w : Work) :
    exec (callFunction name args) w = (w.database.callFunction name args,
      { w with database := { w.database with drawn := w.database.drawn + 1 } }) := by
  unfold callFunction onDatabase
  rw [exec_within, exec_bind_ok (exec_get _), exec_bind_ok (exec_set _ _), exec_ofExcept]

theorem exec_reading_call (name : String) (args : Tuple) (drawn : Nat) :
    exec (db.reading.call name args) drawn =
      ({ db with drawn }.callFunction name args, drawn + 1) := by
  show exec (get >>= _) drawn = _
  rw [exec_bind_ok (exec_get _), exec_bind_ok (exec_set _ _), exec_ofExcept]

theorem reads_callFunction (name : String) (args : Tuple) :
    Mirrors (Work.Reads db) Error.IsTrigger (callFunction name args)
      (db.reading.call name args) := by
  refine mirrors_of_exec fun w drawn hw => ?_
  have hresult : w.database.callFunction name args = { db with drawn }.callFunction name args := by
    rw [hw.database]
    rfl
  refine ⟨_, _, drawn + 1, exec_callFunction name args w, ?_, hw.count⟩
  rw [exec_reading_call, hresult]

variable (hook : Hook)

/-- Evaluating an expression inside a transaction. -/
theorem reads_evaluate (scope : Scope) (e : Expression) :
    Mirrors (Work.Reads db) Error.IsTrigger ((services hook).evaluate scope e)
      (db.reading.evaluate scope e) :=
  Services.parallel_evaluate (L := mirroring (Work.Reads db) Error.IsTrigger) (s := services hook)
    (r := db.reading) total_mirroring reads_catalog (fun _ _ => reads_scan hook _)
    reads_callFunction scope e

theorem reads_holds (depth : Nat) (e : Expression) (scope : Scope) (clause : String) :
    Mirrors (Work.Reads db) Error.IsTrigger
      (e.holds ((services hook).access depth).toSurroundings scope clause)
      (e.holds (db.reading.access depth).toSurroundings scope clause) :=
  Services.parallel_holds (L := mirroring (Work.Reads db) Error.IsTrigger) (s := services hook)
    (r := db.reading) total_mirroring reads_catalog (fun _ _ => reads_scan hook _)
    reads_callFunction depth e scope clause

theorem reads_suppliedRows (named : Bool) (targets : Nat) (source : InsertSource) :
    Mirrors (Work.Reads db) Error.IsTrigger (suppliedRows hook named targets source)
      (db.reading.supplied named targets source) := by
  rw [suppliedRows_eq]
  exact Services.parallel_supplied (L := mirroring (Work.Reads db) Error.IsTrigger) (s := services hook)
    (r := db.reading) total_mirroring reads_catalog (fun _ _ => reads_scan hook _) reads_callFunction named
    targets source

end Action

end SqlStore
