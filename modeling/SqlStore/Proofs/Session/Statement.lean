import SqlStore.Proofs.Session.DataStatement
import SqlStore.Proofs.Transaction.Lifecycle
import SqlStore.Session.Basic

/-!
# One statement of a session

A statement that is not about transactions runs in the explicit transaction of its session, or in a
transaction of its own that the session does not keep. Either way it performs its steps from an empty
log, and if it fails the log is applied: `Ran` says so for both. What becomes of `BEGIN`, `COMMIT` and
`ROLLBACK` is said in full.
-/

open Relation

namespace SqlStore

open Run

/-- The statement begins or ends a transaction. -/
def Statement.IsControl : Statement → Prop
  | .begin_ _ | .commit | .rollback => True
  | _ => False

/-- What performing a statement does to the store and the transaction. -/
structure Performed (s : Statement) (c d : Core) (failed : Prop) : Prop where
  does : Does c d
  onRows : s.OnRows → Works c d
  failed : s.AllOrNothing → failed → Works c d

/-- The store and the transaction that a statement leaves: aborted, if it failed. -/
def Core.closed {α : Type} (d : Core) : Except Error α → Core
  | .ok _ => d
  | .error _ => d.abort

namespace Action

variable {w : Work}

theorem exec_perform (hook : Hook) (s : Statement) (hq : w.database.Quiet) :
    (exec (perform hook s) w).2.database.Quiet ∧
      Performed s w.core (exec (perform hook s) w).2.core
        (∃ e, (exec (perform hook s) w).1 = .error e) := by
  obtain ⟨hquiet, hdoes⟩ := moves_perform hook s w hq
  refine ⟨hquiet, hdoes, fun hs => (moves_perform_onRows hook hs w hq).2, ?_⟩
  -- only a failure excludes that tables were altered
  rintro hall ⟨e, he⟩
  have hfailed := meets_perform_error hook (c := w.core) hall w ⟨rfl, hq⟩
  rcases hrun : exec (perform hook s) w with ⟨r, w'⟩
  rw [hrun] at hfailed he
  cases he
  obtain ⟨d, hworks, hcore, -⟩ := hfailed
  rw [hcore]
  exact hworks

end Action

namespace Connection

/-- The transaction in which a statement of the session runs. -/
def working (c : Connection) : Transaction :=
  c.transaction.getD
    ⟨c.database.nextVersion, c.database.config.defaultIsolation, false, .active, none, []⟩

/-- What a statement of the session works on. -/
def core (c : Connection) : Core := ⟨c.database.store, c.working⟩

/-- A statement of a session ran from `c` to `c'` with a result; `d` is what it had done when it
ended, before it was aborted if it failed. -/
structure Ran (s : Statement) (c : Connection) (r : Except Error Outcome) (c' : Connection)
    (d : Core) : Prop where
  performed : Performed s c.core.fresh d (∃ e, r = .error e)
  quiet : c'.database.Quiet
  store_eq : c'.database.store = (d.closed r).store
  transaction_eq : c'.transaction = c.transaction.map fun _ => (d.closed r).transaction

section

variable {w : Work}

/-- Inside an explicit transaction the session keeps the transaction as the statement leaves it. -/
theorem exec_insideTransaction (hook : Hook) (s : Statement) (hq : w.database.Quiet)
    (hactive : w.transaction.state = .active) :
    ∃ d, Performed s w.core.fresh d (∃ e, (exec (insideTransaction hook s) w).1 = .error e) ∧
      (exec (insideTransaction hook s) w).2.database.Quiet ∧
      (exec (insideTransaction hook s) w).2.core =
        d.closed (exec (insideTransaction hook s) w).1 := by
  unfold insideTransaction
  rw [exec_bind_ok (Action.exec_beginStatement hactive)]
  let fresh : Work := { w with transaction := { w.transaction with undo := [] } }
  obtain ⟨hquiet, hperformed⟩ := Action.exec_perform (w := fresh) hook s hq
  rw [exec_bind_ok (exec_attempt _ _)]
  refine ⟨(exec (Action.perform hook s) fresh).2.core, ?_⟩
  rcases hrun : exec (Action.perform hook s) fresh with ⟨e | o, w'⟩ <;>
    rw [hrun] at hquiet hperformed
  · -- the failure of the statement stands, whether or not undoing it fails
    have habort := Action.exec_abortStatement w'
    dsimp only
    rw [exec_bind]
    rcases hundo : exec Action.abortStatement w' with ⟨e' | _, w''⟩ <;> rw [hundo] at habort <;>
      cases habort <;>
      exact ⟨⟨hperformed.does, hperformed.onRows, fun hall _ => hperformed.failed hall ⟨e, rfl⟩⟩,
        hquiet, rfl⟩
  · refine ⟨⟨hperformed.does, hperformed.onRows, ?_⟩, hquiet, rfl⟩
    rintro - ⟨e, he⟩
    cases he

/-- A transaction of its own comes to what the statement comes to inside of one: committing changes
nothing, and rolling back after the log was applied finds no snapshot. -/
theorem exec_ownTransaction_eq (hook : Hook) (s : Statement) (hq : w.database.Quiet)
    (hactive : w.transaction.state = .active) (himplicit : w.transaction.explicit = false)
    (hnone : w.transaction.snapshot = none) :
    (exec (ownTransaction hook s) w).1 = (exec (insideTransaction hook s) w).1 ∧
      (exec (ownTransaction hook s) w).2.database =
        (exec (insideTransaction hook s) w).2.database := by
  unfold ownTransaction insideTransaction
  rw [exec_bind_ok (Action.exec_beginStatement hactive),
    exec_bind_ok (Action.exec_beginStatement hactive)]
  let fresh : Work := { w with transaction := { w.transaction with undo := [] } }
  have hframe := (Action.exec_perform (w := fresh) hook s hq).2.does.frame
  rw [exec_bind_ok (exec_attempt _ _), exec_bind_ok (exec_attempt _ _)]
  rcases hrun : exec (Action.perform hook s) fresh with ⟨e | o, w'⟩ <;> rw [hrun] at hframe
  · have habort := Action.exec_abortStatement w'
    dsimp only
    rw [exec_bind, exec_bind]
    rcases hundo : exec Action.abortStatement w' with ⟨e' | _, w''⟩ <;> rw [hundo] at habort
    · exact ⟨rfl, rfl⟩
    · have htransaction : w''.transaction = w'.core.abort.transaction :=
        congrArg Work.transaction habort
      have hactive'' : w''.transaction.state = .active := by
        rw [htransaction]
        exact hframe.state_eq.trans hactive
      have hnone'' : w''.transaction.snapshot = none := by
        rw [htransaction]
        exact (hframe.snapshot_eq (Or.inr himplicit)).trans hnone
      dsimp only
      rw [exec_bind_ok (Action.exec_rollback hactive'')]
      refine ⟨rfl, ?_⟩
      show { w''.database with store := w''.core.rolledBackStore } = w''.database
      rw [Core.rolledBackStore_of_none hnone'']
      rfl
  · have hactive' : w'.transaction.state = .active := hframe.state_eq.trans hactive
    dsimp only
    rw [exec_bind_ok (Action.exec_commit hactive')]
    exact ⟨rfl, rfl⟩

theorem exec_ownTransaction (hook : Hook) (s : Statement) (hq : w.database.Quiet)
    (hactive : w.transaction.state = .active) (himplicit : w.transaction.explicit = false)
    (hnone : w.transaction.snapshot = none) :
    ∃ d, Performed s w.core.fresh d (∃ e, (exec (ownTransaction hook s) w).1 = .error e) ∧
      (exec (ownTransaction hook s) w).2.database.Quiet ∧
      (exec (ownTransaction hook s) w).2.database.store =
        (d.closed (exec (ownTransaction hook s) w).1).store := by
  obtain ⟨d, hperformed, hquiet, hcore⟩ := exec_insideTransaction hook s hq hactive
  obtain ⟨hresult, hdatabase⟩ := exec_ownTransaction_eq hook s hq hactive himplicit hnone
  rw [hresult, hdatabase]
  exact ⟨d, hperformed, hquiet, congrArg Core.store hcore⟩

end

variable {c : Connection}

/-- Inside a transaction the session runs a statement in its transaction and keeps it. -/
theorem exec_executeStatement_of_some (hook : Hook) {s : Statement} (hs : ¬ s.IsControl)
    (db : Database) (t : Transaction) :
    exec (executeStatement hook s) ⟨db, some t⟩ =
      ((exec (insideTransaction hook s) ⟨db, t⟩).1,
        ⟨(exec (insideTransaction hook s) ⟨db, t⟩).2.database,
          some (exec (insideTransaction hook s) ⟨db, t⟩).2.transaction⟩) := by
  cases s <;> first
    | rfl
    | exact absurd trivial hs

/-- Outside of one it opens a transaction for the statement and forgets it. -/
theorem exec_executeStatement_of_none (hook : Hook) {s : Statement} (hs : ¬ s.IsControl)
    (db : Database) :
    let own : Work := ⟨{ db with nextVersion := db.nextVersion + 1 },
      ⟨db.nextVersion, db.config.defaultIsolation, false, .active, none, []⟩⟩
    exec (executeStatement hook s) ⟨db, none⟩ =
      ((exec (ownTransaction hook s) own).1,
        ⟨(exec (ownTransaction hook s) own).2.database, none⟩) := by
  cases s <;> first
    | rfl
    | exact absurd trivial hs

theorem exec_insideTransaction_eq_ok {hook : Hook} {s : Statement} {w w' : Work} {o : Outcome}
    (hactive : w.transaction.state = .active)
    (h : exec (insideTransaction hook s) w = (.ok o, w')) :
    exec (Action.perform hook s) { w with transaction := { w.transaction with undo := [] } } =
      (.ok o, w') := by
  unfold insideTransaction at h
  rw [exec_bind_ok (Action.exec_beginStatement hactive), exec_bind_ok (exec_attempt _ _)] at h
  rcases hrun : exec (Action.perform hook s)
    { w with transaction := { w.transaction with undo := [] } } with ⟨e | o', w''⟩ <;> rw [hrun] at h
  · -- a failure stays one
    obtain ⟨_, _, _, hthrow⟩ := exec_bind_eq_ok h
    cases hthrow
  · exact h

/-- What a statement of a session starts to work on, in its transaction or one of its own. -/
def starting (c : Connection) : Work :=
  match c.transaction with
  | some t => ⟨c.database, { t with undo := [] }⟩
  | none => ⟨{ c.database with nextVersion := c.database.nextVersion + 1 },
      ⟨c.database.nextVersion, c.database.config.defaultIsolation, false, .active, none, []⟩⟩

/-- A statement starts with an empty log. -/
theorem undo_starting (c : Connection) : c.starting.transaction.undo = [] := by
  unfold starting
  cases c.transaction <;> rfl

theorem quiet_starting (hq : c.database.Quiet) : c.starting.database.Quiet := by
  unfold starting
  cases c.transaction <;> exact hq

/-- Whether the session has a transaction or opens one for the statement, what comes of it and the database
after it are those of running it inside of a transaction. -/
theorem exists_inside (hook : Hook) {s : Statement} (hs : ¬ s.IsControl) (hq : c.database.Quiet)
    (hactive : ∀ t ∈ c.transaction, t.state = .active) :
    ∃ w : Work, w.transaction.state = .active ∧
      { w with transaction := { w.transaction with undo := [] } } = c.starting ∧
      (exec (executeStatement hook s) c).1 = (exec (insideTransaction hook s) w).1 ∧
      (exec (executeStatement hook s) c).2.database = (exec (insideTransaction hook s) w).2.database := by
  rcases c with ⟨db, transaction⟩
  cases transaction with
  | some t =>
    rw [exec_executeStatement_of_some hook hs]
    exact ⟨⟨db, t⟩, hactive t rfl, rfl, rfl, rfl⟩
  | none =>
    let own : Work := ⟨{ db with nextVersion := db.nextVersion + 1 },
      ⟨db.nextVersion, db.config.defaultIsolation, false, .active, none, []⟩⟩
    rw [exec_executeStatement_of_none hook hs]
    exact ⟨own, rfl, rfl, exec_ownTransaction_eq hook s hq rfl rfl rfl⟩

/-- A statement that succeeds was performed, and its work is what the session has then. -/
theorem performed_of_executeStatement {hook : Hook} {s : Statement} (hs : ¬ s.IsControl) {c' : Connection}
    {o : Outcome} (hq : c.database.Quiet) (hactive : ∀ t ∈ c.transaction, t.state = .active)
    (h : exec (executeStatement hook s) c = (.ok o, c')) :
    ∃ w', exec (Action.perform hook s) c.starting = (.ok o, w') ∧ c'.database = w'.database := by
  obtain ⟨w, hw, hstart, hresult, hdatabase⟩ := exists_inside hook hs hq hactive
  rw [h] at hresult hdatabase
  rw [← hstart]
  exact ⟨_, exec_insideTransaction_eq_ok hw (Prod.ext hresult.symm rfl), hdatabase⟩

/-- It was performed by an active transaction on the database. -/
theorem exists_performed {hook : Hook} {s : Statement} (hs : ¬ s.IsControl) {c' : Connection}
    {o : Outcome} (hq : c.database.Quiet) (hactive : ∀ t ∈ c.transaction, t.state = .active)
    (h : exec (executeStatement hook s) c = (.ok o, c')) :
    ∃ w w', w.database = { c.database with nextVersion := w.database.nextVersion } ∧
      w.transaction.state = .active ∧ exec (Action.perform hook s) w = (.ok o, w') ∧
      c'.database = w'.database := by
  obtain ⟨w', hperform, hdone⟩ := performed_of_executeStatement hs hq hactive h
  rcases c with ⟨db, transaction⟩
  cases transaction with
  | some t => exact ⟨_, w', rfl, hactive t rfl, hperform, hdone⟩
  | none => exact ⟨_, w', rfl, rfl, hperform, hdone⟩

section

variable {hook : Hook} {s : Statement}

theorem exec_insideTransaction_ok {w w' : Work} {o : Outcome}
    (hactive : w.transaction.state = .active)
    (h : exec (Action.perform hook s) { w with transaction := { w.transaction with undo := [] } } =
      (.ok o, w')) : exec (insideTransaction hook s) w = (.ok o, w') := by
  unfold insideTransaction
  rw [exec_bind_ok (Action.exec_beginStatement hactive), exec_bind_ok (exec_attempt _ _), h]
  rfl

/-- A statement that fails with an empty log leaves the store as it is at that moment. -/
theorem exec_insideTransaction_error {w w' : Work} {err : Error}
    (hactive : w.transaction.state = .active)
    (h : exec (Action.perform hook s) { w with transaction := { w.transaction with undo := [] } } =
      (.error err, w')) (hundo : w'.transaction.undo = []) :
    exec (insideTransaction hook s) w = (.error err, w') := by
  unfold insideTransaction
  rw [exec_bind_ok (Action.exec_beginStatement hactive), exec_bind_ok (exec_attempt _ _), h]
  dsimp only
  rw [exec_bind_ok (Action.exec_abortStatement_of_nil hundo)]
  rfl

/-- A statement that logs nothing: what it answers and the store after it are those of its steps. -/
theorem exec_executeStatement_of_unlogged (hs : ¬ s.IsControl) {c : Connection}
    (hq : c.database.Quiet) (hactive : ∀ t ∈ c.transaction, t.state = .active)
    (hundo : (exec (Action.perform hook s) c.starting).2.transaction.undo = []) :
    (exec (executeStatement hook s) c).1 = (exec (Action.perform hook s) c.starting).1 ∧
      (exec (executeStatement hook s) c).2.database.store =
        (exec (Action.perform hook s) c.starting).2.database.store := by
  obtain ⟨w, hw, hstart, hresult, hdatabase⟩ := exists_inside hook hs hq hactive
  have hinside : exec (insideTransaction hook s) w = exec (Action.perform hook s) c.starting := by
    rcases hrun : exec (Action.perform hook s) c.starting with ⟨err | o, w'⟩ <;> rw [hrun] at hundo
    · exact exec_insideTransaction_error hw (hstart ▸ hrun) hundo
    · exact exec_insideTransaction_ok hw (hstart ▸ hrun)
  rw [hresult, hdatabase, hinside]
  exact ⟨rfl, rfl⟩

end

/-- Every statement that is not about transactions runs in one transaction or the other. -/
theorem ran_executeStatement (hook : Hook) {s : Statement} (hs : ¬ s.IsControl)
    (hq : c.database.Quiet) (hactive : ∀ t ∈ c.transaction, t.state = .active) :
    ∃ d, Ran s c (exec (executeStatement hook s) c).1 (exec (executeStatement hook s) c).2 d := by
  rcases c with ⟨db, transaction⟩
  cases transaction with
  | some t =>
    obtain ⟨d, hperformed, hquiet, hcore⟩ :=
      exec_insideTransaction (w := ⟨db, t⟩) hook s hq (hactive t rfl)
    rw [exec_executeStatement_of_some hook hs]
    exact ⟨d, hperformed, hquiet, congrArg Core.store hcore,
      congrArg (fun e => some e.transaction) hcore⟩
  | none =>
    let own : Transaction := ⟨db.nextVersion, db.config.defaultIsolation, false, .active, none, []⟩
    let begun : Database := { db with nextVersion := db.nextVersion + 1 }
    obtain ⟨d, hperformed, hquiet, hstore⟩ :=
      exec_ownTransaction (w := ⟨begun, own⟩) hook s hq rfl rfl rfl
    rw [exec_executeStatement_of_none hook hs]
    exact ⟨d, hperformed, hquiet, hstore, rfl⟩

/-! ## Beginning and ending transactions -/

/-- The transaction that `BEGIN` opens. -/
def opened (db : Database) (isolation : Option Isolation) : Transaction :=
  ⟨db.nextVersion, isolation.getD db.config.defaultIsolation, true, .active, none, []⟩

section

variable (hook : Hook) {db : Database} {t : Transaction}

theorem exec_begin (isolation : Option Isolation) :
    exec (executeStatement hook (.begin_ isolation)) ⟨db, none⟩ =
      (.ok (.begun db.nextVersion (isolation.getD db.config.defaultIsolation)),
        ⟨{ db with nextVersion := db.nextVersion + 1 }, some (opened db isolation)⟩) := rfl

theorem exec_begin_of_open (isolation : Option Isolation) :
    exec (executeStatement hook (.begin_ isolation)) ⟨db, some t⟩ =
      (.error (.transactionState "there is already a transaction in progress"),
        ⟨db, some t⟩) := rfl

/-- The failure of a session that has no transaction to end. -/
def noTransaction : Error := .transactionState "there is no transaction in progress"

theorem exec_commit_of_none :
    exec (executeStatement hook .commit) ⟨db, none⟩ = (.error noTransaction, ⟨db, none⟩) := rfl

theorem exec_rollback_of_none :
    exec (executeStatement hook .rollback) ⟨db, none⟩ = (.error noTransaction, ⟨db, none⟩) := rfl

theorem exec_commit (h : t.state = .active) :
    exec (executeStatement hook .commit) ⟨db, some t⟩ =
      (.ok (.committed t.version), ⟨db, none⟩) := by
  have htake : exec takeTransaction ⟨db, some t⟩ = (.ok t, ⟨db, none⟩) := rfl
  have hcommit : exec (onTransaction t Action.commit) ⟨db, none⟩ = (.ok ⟨⟩, ⟨db, none⟩) := by
    unfold onTransaction
    rw [exec_within, Action.exec_commit h]
  show exec (takeTransaction >>= _) _ = _
  rw [exec_bind_ok htake, exec_bind_ok hcommit]
  rfl

/-- The database after the rollback of a transaction. -/
def rolledBack (db : Database) (t : Transaction) : Database :=
  { db with store := (Core.mk db.store t).rolledBackStore }

theorem exec_onTransaction_rollback (h : t.state = .active) :
    exec (onTransaction t Action.rollback) ⟨db, none⟩ = (.ok ⟨⟩, ⟨rolledBack db t, none⟩) := by
  unfold onTransaction
  rw [exec_within, Action.exec_rollback h]
  rfl

theorem exec_rollback (h : t.state = .active) :
    exec (executeStatement hook .rollback) ⟨db, some t⟩ =
      (.ok (.rolledBack t.version), ⟨rolledBack db t, none⟩) := by
  have htake : exec takeTransaction ⟨db, some t⟩ = (.ok t, ⟨db, none⟩) := rfl
  show exec (takeTransaction >>= _) _ = _
  rw [exec_bind_ok htake, exec_bind_ok (exec_onTransaction_rollback h)]
  rfl

theorem exec_release (h : t.state = .active) :
    exec release ⟨db, some t⟩ = (.ok ⟨⟩, ⟨rolledBack db t, none⟩) := by
  have hrollback : exec (onTransaction t Action.rollback).attempt ⟨db, none⟩ =
      (.ok (.ok ⟨⟩), ⟨rolledBack db t, none⟩) := by
    rw [exec_attempt, exec_onTransaction_rollback h]
  unfold release
  rw [exec_bind_ok (exec_get _)]
  dsimp only
  rw [exec_bind_ok (exec_set _ _), exec_bind_ok hrollback]
  rfl

theorem exec_release_of_none : exec release ⟨db, none⟩ = (.ok ⟨⟩, ⟨db, none⟩) := rfl

end

end Connection

end SqlStore
