import SqlStore.Proofs.Session.Block
import SqlStore.Proofs.Session.Sample
import SqlStore.Proofs.Session.Twin

/-!
# Committing is transparent

A list of statements between `BEGIN` and `COMMIT` against the same list in autocommit. The one engine has
a long transaction with a lazily taken snapshot, the other one transaction for each statement, which is
rolled back when the statement fails. Statement by statement the two engines are twins: they differ in
the open transaction of the session and in the number of the next transaction only.
-/

namespace SqlStore

open Run

namespace Engine

/-- What shows of a statement: its answer, the calls of triggers up to its end, and the store behind
it. -/
structure Showing where
  answer : Except Error Outcome
  trace : List TriggerEvent
  store : Store

/-- What shows of the statements of a session, one after the other. -/
def showings (i : Nat) : Engine → List Statement → List Showing
  | _, [] => []
  | e, s :: ss =>
    ⟨e.answer i s, (e.execute i s).database.trace, (e.execute i s).store⟩ ::
      showings i (e.execute i s) ss

/-- One session of the first engine has an active transaction open; the second engine is the same
without it. -/
structure Ahead (i : Nat) (e f : Engine) : Prop where
  database : e.database.Twin f.database
  active : ∃ t, e.sessions i = some t ∧ t.state = .active
  idle : f.sessions i = none
  others : ∀ j, j ≠ i → e.sessions j = f.sessions j

variable {e f : Engine} {i : Nat}

/-- One statement keeps the engines together, whether it succeeds or fails. -/
theorem Ahead.execute (h : Ahead i e f) {s : Statement} (hs : ¬ s.IsControl) :
    e.answer i s = f.answer i s ∧ Ahead i (e.execute i s) (f.execute i s) := by
  obtain ⟨t, hopen, hactive⟩ := h.active
  obtain ⟨r, a, b, t', hfirst, hsecond, htwin, hactive'⟩ :=
    Connection.twin_executeStatement e.database.hook hs h.database hactive
  have hhook : e.database.hook = f.database.hook := h.database.hook_eq
  have he : exec (Session.executeStatement s) (e.connection i) = (r, ⟨a, some t'⟩) := by
    rw [exec_executeStatement, ← hfirst]
    exact congrArg (fun u => exec _ (Connection.mk e.database u)) hopen
  have hf : exec (Session.executeStatement s) (f.connection i) = (r, ⟨b, none⟩) := by
    rw [exec_executeStatement, ← hsecond, hhook]
    exact congrArg (fun u => exec _ (Connection.mk f.database u)) h.idle
  unfold answer Engine.execute
  rw [he, hf]
  refine ⟨rfl, htwin, ⟨t', sessions_after .., hactive'⟩, sessions_after .., ?_⟩
  intro j hj
  rw [sessions_after_of_ne e _ hj, sessions_after_of_ne f _ hj]
  exact h.others j hj

/-- Any number of statements keeps the engines together, and the same shows of them. -/
theorem Ahead.run (h : Ahead i e f) {ss : List Statement} (hss : ∀ s ∈ ss, ¬ s.IsControl) :
    showings i e ss = showings i f ss ∧
      Ahead i (e.run (statements i ss)) (f.run (statements i ss)) := by
  induction ss generalizing e f with
  | nil => exact ⟨rfl, h⟩
  | cons s ss ih =>
    obtain ⟨hs, hrest⟩ := List.forall_mem_cons.mp hss
    obtain ⟨hanswer, hahead⟩ := h.execute hs
    obtain ⟨hshow, hend⟩ := ih hahead hrest
    refine ⟨?_, hend⟩
    unfold showings
    rw [hanswer, hahead.database.trace_eq, hshow,
      show (e.execute i s).store = (f.execute i s).store from hahead.database.store_eq]

/-- `BEGIN` puts an engine ahead of what it was. -/
theorem ahead_begin (he : e.Inv Table.Keyed) (hidle : e.sessions i = none)
    (isolation : Option Isolation) : Ahead i (e.execute i (.begin_ isolation)) e := by
  have hrun : exec (Session.executeStatement (.begin_ isolation)) (e.connection i) =
      exec (Connection.executeStatement e.database.hook (.begin_ isolation))
        ⟨e.database, none⟩ := by
    rw [exec_executeStatement]
    exact congrArg (fun u => exec _ (Connection.mk e.database u)) hidle
  unfold Engine.execute
  rw [hrun, Connection.exec_begin]
  refine ⟨⟨rfl, (he i).quiet⟩, ⟨_, sessions_after .., rfl⟩, hidle, ?_⟩
  intro j hj
  exact sessions_after_of_ne e _ hj

/-- `COMMIT` leaves nothing of the transaction but the number of the next one. -/
theorem Ahead.commit (h : Ahead i e f) :
    (∃ version, e.answer i .commit = .ok (.committed version)) ∧
      (e.execute i .commit).database =
        { f.database with nextVersion := (e.execute i .commit).database.nextVersion } ∧
      (e.execute i .commit).sessions = f.sessions := by
  obtain ⟨t, hopen, hactive⟩ := h.active
  have hrun : exec (Session.executeStatement .commit) (e.connection i) =
      (.ok (.committed t.version), ⟨e.database, none⟩) := by
    rw [exec_executeStatement, ← Connection.exec_commit e.database.hook hactive]
    exact congrArg (fun u => exec _ (Connection.mk e.database u)) hopen
  unfold answer Engine.execute
  rw [hrun]
  refine ⟨⟨t.version, rfl⟩, h.database.eq, ?_⟩
  funext j
  by_cases hj : j = i
  · subst hj
    rw [sessions_after, h.idle]
  · rw [sessions_after_of_ne e _ hj]
    exact h.others j hj

/-- Statements between `BEGIN` and `COMMIT` answer as they do in autocommit, each with the same calls
of triggers and the same store behind it, whether they succeed or fail; `COMMIT` succeeds, and what it
leaves is what autocommit leaves, but for the number of the next transaction. -/
theorem commit_is_transparent (he : e.Reachable) (hidle : e.sessions i = none)
    (isolation : Option Isolation) {ss : List Statement} (hss : ∀ s ∈ ss, ¬ s.IsControl) :
    let begun := e.execute i (.begin_ isolation)
    let inside := begun.run (statements i ss)
    let committed := inside.execute i .commit
    let alone := e.run (statements i ss)
    showings i begun ss = showings i e ss ∧
      (∃ version, inside.answer i .commit = .ok (.committed version)) ∧
      committed.database =
        { alone.database with nextVersion := committed.database.nextVersion } ∧
      committed.sessions = alone.sessions := by
  intro begun inside committed alone
  obtain ⟨hshow, hahead⟩ := (ahead_begin he.inv hidle isolation).run hss
  exact ⟨hshow, hahead.commit⟩

end Engine

/-- Two insertions, of which the second fails, and a deletion. -/
theorem Sample.commit_is_transparent_items :
    filled.sessions 1 = none ∧
      Engine.showings 1 (filled.execute 1 (.begin_ none))
          [insertItems [30], insertItems [40, 10], deleteItems] =
        Engine.showings 1 filled [insertItems [30], insertItems [40, 10], deleteItems] := by
  have hss : ∀ s ∈ [insertItems [30], insertItems [40, 10], deleteItems], ¬ s.IsControl := by
    simp [insertItems, deleteItems, Statement.IsControl]
  exact ⟨filled_idle, (Engine.commit_is_transparent filled_reachable filled_idle none hss).1⟩

end SqlStore
