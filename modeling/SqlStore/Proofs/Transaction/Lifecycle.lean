import SqlStore.Proofs.Transaction.Action
import SqlStore.Proofs.Transaction.Frame
import SqlStore.Proofs.Transaction.Undo

/-!
# The life of a transaction

How a statement and a transaction begin and end, as functions of the store and the transaction, and
what that keeps: the invariants of `Core.Inv` go through an aborted statement and through a rollback,
and an aborted statement leaves the store in which it began, but for the numbers drawn.
-/

open Relation

namespace SqlStore

open Run

namespace Core

/-- A statement begins: the log is empty. -/
def fresh (c : Core) : Core := { c with transaction := { c.transaction with undo := [] } }

/-- A statement is aborted: its log is applied. -/
def abort (c : Core) : Core :=
  ⟨(Undo.applyAll c.store c.transaction.undo).2, { c.transaction with undo := [] }⟩

/-- The transaction is committed. -/
def commit (c : Core) : Core :=
  { c with transaction := { c.transaction with state := .committed, snapshot := none, undo := [] } }

/-- The store that a rollback leads to. -/
def rolledBackStore (c : Core) : Store :=
  match c.transaction.snapshot with
  | some picture => picture.restore c.store
  | none => c.store

/-- The transaction is rolled back. -/
def rollback (c : Core) : Core :=
  ⟨c.rolledBackStore,
    { c.transaction with state := .rolledBack, snapshot := none, undo := [] }⟩

end Core

namespace Action

variable {w : Work}

theorem exec_ensureActive (h : w.transaction.state = .active) :
    exec ensureActive w = (.ok ⟨⟩, w) := by
  unfold ensureActive
  rw [exec_bind_ok (exec_get w)]
  dsimp only
  rw [h]
  rfl

theorem exec_beginStatement (h : w.transaction.state = .active) :
    exec beginStatement w =
      (.ok ⟨⟩, { w with transaction := { w.transaction with undo := [] } }) := by
  unfold beginStatement
  rw [exec_bind_ok (exec_ensureActive h)]
  rfl

theorem exec_commit (h : w.transaction.state = .active) :
    exec commit w = (.ok ⟨⟩, { w with transaction := w.core.commit.transaction }) := by
  unfold commit
  rw [exec_bind_ok (exec_ensureActive h)]
  rfl

/-- Rolling back changes the store and the transaction, and nothing else. -/
theorem exec_rollback (h : w.transaction.state = .active) :
    exec rollback w = (.ok ⟨⟩,
      { database := { w.database with store := w.core.rollback.store }
        transaction := w.core.rollback.transaction }) := by
  unfold rollback
  rw [exec_bind_ok (exec_ensureActive h), exec_bind_ok (exec_get w)]
  unfold Core.rollback Core.rolledBackStore Work.core
  dsimp only
  cases w.transaction.snapshot with
  | none => rfl
  | some picture => rfl

/-- Aborting applies the log, and nothing else changes. -/
theorem exec_abortStatement (w : Work) :
    (exec abortStatement w).2 =
      { database := { w.database with store := w.core.abort.store }
        transaction := w.core.abort.transaction } := by
  unfold abortStatement
  rw [exec_bind_ok (exec_get w)]
  dsimp only
  rw [exec_bind_ok (exec_set w _)]
  unfold Core.abort Work.core
  dsimp only
  cases (Undo.applyAll w.database.store w.transaction.undo).1 <;> rfl

/-- Without a log of changes there is nothing to abort. -/
theorem exec_abortStatement_of_nil (h : w.transaction.undo = []) :
    exec abortStatement w = (.ok ⟨⟩, w) := by
  rcases w with ⟨database, version, isolation, explicit, state, snapshot, undo⟩
  cases h
  rfl

end Action

/-! ## Invariants -/

section

variable {I : Table → Prop} {c c' : Core}

theorem Core.Inv.fresh (h : c.Inv I) : c.fresh.Inv I :=
  ⟨h.distinct, h.tables, h.pictures, h.pictured⟩

/-- What an aborted statement leaves: a store that grew from the one in which it began. -/
theorem Works.abort_grown (h : Works c.fresh c') (hc : c.Inv Table.Keyed) :
    c.store.Grown c'.abort.store := by
  obtain ⟨r, hr, hgr⟩ := h.undoes hc.fresh rfl
  show Store.Grown _ (Undo.applyAll c'.store c'.transaction.undo).2
  rw [hr]
  exact hgr

/-- Undoing what left the log empty. -/
theorem Core.abort_of_nil (h : c.transaction.undo = []) : c.abort = c.fresh := by
  unfold Core.abort Core.fresh
  rw [h]
  rfl

theorem Core.Frame.of_fresh (h : c.fresh.Frame c') : c.Frame c' :=
  ⟨h.version_eq, h.explicit_eq, h.state_eq, h.snapshot_eq⟩

/-- An aborted statement leaves what the transaction is, and it can have got a snapshot. -/
theorem Core.Frame.abort (h : c.fresh.Frame c') : c.Frame c'.abort :=
  ⟨h.version_eq, h.explicit_eq, h.state_eq, h.snapshot_eq⟩

theorem Does.abort_inv (hI : Table.Invariant I) (h : Does c.fresh c') (hc : c.Inv I) :
    c'.abort.Inv I := by
  rcases h with hworks | halter
  · -- the store has grown, and so would the pictures that could be taken of it
    have hgrown := hworks.abort_grown (hc.mono fun _ => hI.keyed)
    have hend := hworks.inv hI hc.fresh
    have hframe := hworks.frame
    refine ⟨hgrown.distinct hc.distinct,
      Store.Along.forall_tables (fun _ _ => hI.grown) hgrown hc.tables, hend.pictures, ?_⟩
    intro hexplicit hnone
    have hpictured := hc.pictured (hframe.explicit_eq ▸ hexplicit) (hframe.none_of_none hnone)
    exact Store.Along.forall_tables (fun _ _ ht hg => hI.grown ht hg.pictured) hgrown hpictured
  · -- schemas and tables are not logged, so nothing is taken back
    have hnil : c'.transaction.undo = [] := by
      rw [Alter.run_transaction_eq halter]
      rfl
    rw [Core.abort_of_nil hnil]
    exact (inv_of_run (Alter.inv hI) halter hc.fresh).fresh

theorem restoredFrom_definition (t : Table) (picture : Option Table) :
    (t.restoredFrom picture).definition = t.definition := by
  unfold Table.restoredFrom
  cases picture with
  | none => rfl
  | some p =>
    dsimp only
    split <;> rfl

theorem Core.rolledBackStore_of_none (h : c.transaction.snapshot = none) :
    c.rolledBackStore = c.store := by
  unfold Core.rolledBackStore
  rw [h]

/-- Rolling back keeps the names of the tables. -/
theorem Core.names_rolledBackStore (c : Core) : c.rolledBackStore.names = c.store.names := by
  unfold Core.rolledBackStore
  cases c.transaction.snapshot with
  | none => rfl
  | some picture =>
    show (c.store.tables.map _).map _ = c.store.tables.map _
    rw [List.map_map]
    -- put back or cleared, a table has the definition that it had
    apply List.map_congr_left
    intro t _
    show (t.restoredFrom _).definition.fullName = _
    rw [restoredFrom_definition]

/-- Rolling back puts every table back to a picture that has the property, or clears it. -/
theorem Core.Inv.forall_rolledBackStore (hI : Table.Invariant I) (h : c.Inv I) :
    ∀ t ∈ c.rolledBackStore.tables, I t := by
  unfold Core.rolledBackStore
  cases hs : c.transaction.snapshot with
  | none => exact h.tables
  | some picture =>
    intro t ht
    obtain ⟨u, hu, rfl⟩ := List.mem_map.mp ht
    apply hI.restoredFrom (h.tables u hu)
    intro p hp
    exact h.pictures picture hs p (List.mem_of_find?_eq_some hp)

end

end SqlStore
