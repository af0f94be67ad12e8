import SqlStore.Proofs.Session.Block
import SqlStore.Proofs.Session.Sample

/-!
# What failures and rollbacks leave

A statement that fails leaves the store as it found it, however far it had come: the catalog, the
rows with their numbers and the generated keys are the same, and only row numbers and sequence values
are gone. An explicit transaction goes on.

Whatever statements on rows an explicit transaction ran, and whether they succeeded or failed, its
rollback leads back to the tables that it found when it had no snapshot yet: the rows with their
numbers, the numbers to come and the generated keys are as they were.

A snapshot has the sequences of every table, and a rollback puts them back. But an insertion makes all
its rows, and draws their serial values, before it gets ready to write, and only then is the snapshot
taken. So a rollback gives back the values that were drawn after the first statement that wrote, and
keeps those that were drawn up to then: the sequences are as at the beginning only if nothing was drawn
so far.
-/

namespace SqlStore

open Run

/-! ## Failed statements -/

/-- What a statement that failed leaves of a session and its store. -/
theorem Connection.Ran.failed {c c' : Connection} {s : Statement} {err : Error} {d : Core}
    (hran : c.Ran s (.error err) c' d) (hall : s.AllOrNothing) (hc : c.Inv Table.Keyed) :
    c.database.store.Grown c'.database.store ∧
      Option.Rel Transaction.GoesOn c.transaction c'.transaction := by
  constructor
  · -- it had worked on rows at most, and its log leads back
    have hworks : Works c.core.fresh d := hran.performed.failed hall ⟨err, rfl⟩
    rw [hran.store_eq]
    exact hworks.abort_grown (hc.core fun _ _ ht => ht.pictured)
  · exact hran.goesOn hc

/-- A statement other than `DROP TABLE`, `BEGIN`, `COMMIT` and `ROLLBACK` that fails changes nothing
but row numbers and sequences that are still to come: schemas, definitions, rows and generated keys
are the same in every table. The session's transaction goes on, and those of the others are not
touched. -/
theorem Engine.failed_statement_keeps_store {e : Engine} (he : e.Reachable) (i : Nat)
    {s : Statement} (hs : ¬ s.IsControl) (hall : s.AllOrNothing) {err : Error}
    (hfail : e.answer i s = .error err) :
    e.store.Grown (e.execute i s).store ∧
      Option.Rel Transaction.GoesOn (e.sessions i) ((e.execute i s).sessions i) ∧
      ∀ j, j ≠ i → (e.execute i s).sessions j = e.sessions j := by
  have hc := he.inv i
  have hrun := exec_executeStatement s (e.connection i)
  obtain ⟨d, hran⟩ := Connection.ran_executeStatement (e.connection i).database.hook hs hc.quiet
    fun t ht => (hc.active t ht).1
  rw [← hrun, show (exec (Session.executeStatement s) (e.connection i)).1 = _ from hfail] at hran
  obtain ⟨hgrown, hgoes⟩ := hran.failed hall hc
  refine ⟨hgrown, ?_, ?_⟩
  · rw [show (e.execute i s).sessions i = _ from sessions_after ..]
    exact hgoes
  · intro j hj
    exact sessions_after_of_ne e _ hj

/-- Inside a transaction, an insertion of a new code and then of one that is there. -/
theorem Sample.failed_insert_keeps_store :
    ∃ err, begun.answer 1 (insertItems [30, 10]) = .error err ∧
      begun.store.Grown (begun.execute 1 (insertItems [30, 10])).store ∧
      Option.Rel Transaction.GoesOn (begun.sessions 1)
        ((begun.execute 1 (insertItems [30, 10])).sessions 1) := by
  have hfail : (begun.answer 1 (insertItems [30, 10])).isOk = false := by decide +kernel
  obtain ⟨err, herr⟩ := exists_error_of_isOk hfail
  obtain ⟨hgrown, hgoes, -⟩ := Engine.failed_statement_keeps_store begun_reachable 1
    (s := insertItems [30, 10]) id trivial herr
  exact ⟨err, herr, hgrown, hgoes⟩

/-! ## Rows -/

namespace Engine

/-- From a moment at which the transaction of a session has changed no row, let only its statements
on rows run. Then both `ROLLBACK` and the end of the session roll the transaction back, and every
table has the rows, the next row number and the generated keys that it had at that moment. -/
theorem rollback_restores_rows {e : Engine} (he : e.Reachable) {i : Nat} {t : Transaction}
    (hopen : e.sessions i = some t) (hnone : t.snapshot = none) (hlossless : e.store.Lossless)
    (hdefaults : ∀ u ∈ e.store.tables, u.definition.same u.definition = true)
    {ss : List Statement} (hss : ∀ s ∈ ss, s.OnRows) :
    let e' := e.run (statements i ss)
    ∃ t', e'.sessions i = some t' ∧ t'.version = t.version ∧
      (exec Action.rollback ⟨e'.database, t'⟩).2.transaction.state = .rolledBack ∧
      e'.answer i .rollback = .ok (.rolledBack t.version) ∧
      ∀ last ∈ [e'.execute i .rollback, e'.release i],
        last.database = (exec Action.rollback ⟨e'.database, t'⟩).2.database ∧
        last.sessions i = none ∧
        Store.Along Table.Drawn e.store last.store := by
  intro e'
  have hinv := he.inv
  have hstart : Picturing e.store ⟨e.store, t⟩ := .drew hnone (.refl Table.Drawn.refl _)
  obtain ⟨t', hopen', hgoes, hp⟩ := run_of_open Picturing.works hinv hopen hstart hss
  have hfaithful : ∀ u ∈ e.store.tables, u.Faithful := fun u hu => ⟨hlossless u hu, hdefaults u hu⟩
  have hback := hp.rolledBack (hinv i).distinct hfaithful
  have hrollback := Action.exec_rollback (w := ⟨e'.database, t'⟩) hgoes.active
  obtain ⟨hanswer, hexecuted, hclosed⟩ := execute_rollback hopen' hgoes.active
  obtain ⟨hreleased, hclosed'⟩ := release_of_open hopen' hgoes.active
  rw [hgoes.version_eq] at hanswer
  refine ⟨t', hopen', hgoes.version_eq, ?_, hanswer, ?_⟩
  · rw [hrollback]
    rfl
  intro last hlast
  -- the end of the session rolls back in the same way as the statement
  have hdatabase : last.database = Connection.rolledBack e'.database t' ∧
      last.sessions i = none := by
    rcases List.mem_pair.mp hlast with rfl | rfl
    · exact ⟨hexecuted, hclosed⟩
    · exact ⟨hreleased, hclosed'⟩
  refine ⟨?_, hdatabase.2, ?_⟩
  · rw [hrollback, hdatabase.1]
    rfl
  show Store.Along Table.Drawn e.store last.database.store
  rw [hdatabase.1]
  exact hback

end Engine

/-- An insertion, an update that fails on its second row and a deletion of all rows. -/
theorem Sample.rollback_restores_items :
    Store.Along Table.Drawn begun.store
      ((begun.run (Engine.statements 1
        [insertItems [30], updateItems 5, deleteItems])).execute 1 .rollback).store := by
  obtain ⟨hstore, hopen⟩ := Engine.execute_begin filled_idle none
  have hbegun : begun.sessions 1 = some (Connection.opened filled.database none) := by
    unfold begun
    exact hopen
  have hfaithful : ∀ u ∈ begun.store.tables, u.Faithful := by
    unfold begun
    rw [hstore]
    exact filled_faithful
  have hlossless : begun.store.Lossless := fun u hu => (hfaithful u hu).pictured_eq
  have hdefaults : ∀ u ∈ begun.store.tables, u.definition.same u.definition = true :=
    fun u hu => (hfaithful u hu).same
  have hrows : ∀ s ∈ [insertItems [30], updateItems 5, deleteItems], s.OnRows := by
    simp [insertItems, updateItems, deleteItems, Statement.OnRows]
  obtain ⟨t', -, -, -, -, hlast⟩ :=
    Engine.rollback_restores_rows begun_reachable hbegun rfl hlossless hdefaults hrows
  exact (hlast _ List.mem_cons_self).2.2

/-! ## Sequences -/

namespace Engine

/-- Whether the open transaction of a session has its snapshot. -/
def hasPicture (e : Engine) (i : Nat) : Bool := (e.sessions i).any fun t => t.snapshot.isSome

/-- The statements of a session up to the first one behind which its transaction has its snapshot; all
of them if there is none. -/
def throughFirstWrite (i : Nat) : Engine → List Statement → List Statement
  | _, [] => []
  | e, s :: ss =>
    if (e.execute i s).hasPicture i then [s] else s :: throughFirstWrite i (e.execute i s) ss

variable {e : Engine} {i : Nat} {t : Transaction}

theorem hasPicture_of_open (hopen : e.sessions i = some t) :
    e.hasPicture i = t.snapshot.isSome := by
  unfold hasPicture
  rw [hopen]
  rfl

/-- The sequences behind a rollback are those behind the first statement that wrote. -/
theorem sameSequences_rollback (he : e.Inv Table.Keyed) (hopen : e.sessions i = some t)
    (hnone : t.snapshot = none) (hrecognized : ∀ u ∈ e.store.tables, u.Recognized)
    {ss : List Statement} (hss : ∀ s ∈ ss, s.OnRows) :
    Store.Along Table.SameSequences (e.run (statements i (throughFirstWrite i e ss))).store
      ((e.run (statements i ss)).execute i .rollback).store := by
  induction ss generalizing e t with
  | nil =>
    obtain ⟨-, hdatabase, -⟩ := execute_rollback hopen ((he i).active t hopen).1
    have hstore : (e.execute i .rollback).store = e.store := by
      show (e.execute i .rollback).database.store = _
      rw [hdatabase]
      exact Core.rolledBackStore_of_none hnone
    show Store.Along _ e.store (e.execute i .rollback).store
    rw [hstore]
    exact .refl Table.SameSequences.refl _
  | cons s ss ih =>
    obtain ⟨hs, hrest⟩ := List.forall_mem_cons.mp hss
    obtain ⟨d, t₁, hworks, hopen₁, hgoes₁, hcore⟩ := execute_of_open he hopen hs
    have he₁ : (e.execute i s).Inv Table.Keyed :=
      he.step Table.invariant_keyed (fun _ _ ht => ht.pictured) (.statement i s)
    have hpicture := hasPicture_of_open hopen₁
    have hcases := hworks.picturing (c := ⟨e.store, t⟩) (r := e.answer i s) (he i).distinct
      ((he i).active t hopen).2 hnone
    have hclosed : d.closed (e.answer i s) = Core.mk (e.execute i s).store t₁ := hcore.symm
    rw [hclosed] at hcases
    unfold throughFirstWrite
    rcases hcases with ⟨hnone₁, hdrawn⟩ | ⟨m, hdrawn, hholds, hsame⟩
    · -- the statement drew at most, and the first one that writes is still to come
      have hfalse : (e.execute i s).hasPicture i = false := by
        rw [hpicture, show t₁.snapshot = none from hnone₁]
        rfl
      rw [hfalse]
      refine ih he₁ hopen₁ hnone₁ ?_ hrest
      exact hdrawn.forall_tables (fun _ _ ht htu => htu.recognized ht) hrecognized
    · -- the statement took the picture, and its sequences are those that it leaves
      have htrue : (e.execute i s).hasPicture i = true := by
        rw [hpicture, show t₁.snapshot = _ from hholds.snapshot_eq]
        rfl
      rw [htrue]
      obtain ⟨t', hopen', hgoes', hholds'⟩ := run_of_open
        (fun hc hw hd _ => Core.Holds.works hc hw hd) he₁ hopen₁ hholds hrest
      obtain ⟨-, hdatabase, -⟩ := execute_rollback hopen' hgoes'.active
      have hback := hholds'.along_rolledBack (hdrawn.distinct Table.Drawn.fullName_eq (he i).distinct)
        (hdrawn.forall_tables (fun _ _ ht htu => htu.recognized ht) hrecognized)
      show Store.Along _ (e.execute i s).store
        ((((e.execute i s).run (statements i ss)).execute i .rollback).database.store)
      rw [hdatabase]
      refine (hsame.symm Table.SameSequences.symm).trans hback ?_
      rintro u v _ hu rfl
      exact hu.trans ⟨rfl, rfl⟩

/-- An explicit transaction of statements on rows, with no other session at work: behind its
`ROLLBACK` the sequences of every table are those that stood behind the first statement that wrote.
They are those of the beginning just if none was drawn from up to then. -/
theorem rollback_restores_sequences_iff (he : e.Reachable) (hidle : e.sessions i = none)
    (hrecognized : ∀ u ∈ e.store.tables, u.Recognized) (isolation : Option Isolation)
    {ss : List Statement} (hss : ∀ s ∈ ss, s.OnRows) :
    let begun := e.execute i (.begin_ isolation)
    let wrote := begun.run (statements i (throughFirstWrite i begun ss))
    let after := (begun.run (statements i ss)).execute i .rollback
    Store.Along Table.SameSequences wrote.store after.store ∧
      (Store.Along Table.SameSequences e.store after.store ↔
        Store.Along Table.SameSequences e.store wrote.store) := by
  intro begun wrote after
  obtain ⟨hstore, hopen⟩ := execute_begin hidle isolation
  have hbegun : begun.Inv Table.Keyed :=
    he.inv.step Table.invariant_keyed (fun _ _ ht => ht.pictured) (.statement i _)
  have hback : Store.Along Table.SameSequences wrote.store after.store :=
    sameSequences_rollback hbegun hopen rfl (hstore ▸ hrecognized) hss
  refine ⟨hback, ?_⟩
  constructor
  · intro h
    exact h.trans (hback.symm Table.SameSequences.symm) Table.SameSequences.trans
  · intro h
    exact h.trans hback Table.SameSequences.trans

-- an insertion that is refused counts as one that wrote: its snapshot was taken before its code was checked
example : (throughFirstWrite 1 (Sample.filled.execute 1 (.begin_ none))
    [Sample.insertItems [10], Sample.deleteItems]).length = 1 := by decide +kernel

end Engine

/-- A deletion writes first and draws nothing, so what the insertion behind it draws is given back. -/
theorem Sample.rollback_restores_sequence :
    (((filled.execute 1 (.begin_ none)).run (Engine.statements 1
      [deleteItems, insertItems [30]])).execute 1 .rollback).store.tables.map Table.sequences =
      filled.store.tables.map Table.sequences := by
  have hrecognized : ∀ u ∈ filled.store.tables, u.Recognized := fun u hu =>
    (filled_faithful u hu).recognized
  have hrows : ∀ s ∈ [deleteItems, insertItems [30]], s.OnRows := by
    simp [insertItems, deleteItems, Statement.OnRows]
  obtain ⟨hback, -⟩ :=
    Engine.rollback_restores_sequences_iff filled_reachable filled_idle hrecognized none hrows
  have hwrote : ((filled.execute 1 (.begin_ none)).run (Engine.statements 1
      (Engine.throughFirstWrite 1 (filled.execute 1 (.begin_ none))
        [deleteItems, insertItems [30]]))).store.tables.map Table.sequences =
      filled.store.tables.map Table.sequences := by decide +kernel
  exact (hback.map_eq fun _ _ htu => htu.sequences_eq).trans hwrote

/-- An insertion that writes first keeps the value that it drew: rolling back does not restore the
sequences in general. -/
theorem Sample.rollback_keeps_drawn_value :
    ¬ ∀ (e : Engine) (i : Nat) (ss : List Statement), e.Reachable → e.sessions i = none →
      (∀ s ∈ ss, s.OnRows) → Store.Along Table.SameSequences e.store
        (((e.execute i (.begin_ none)).run (Engine.statements i ss)).execute i .rollback).store := by
  intro h
  have hrows : ∀ s ∈ [insertItems [30]], s.OnRows := by simp [insertItems, Statement.OnRows]
  have hsequences := (h filled 1 [insertItems [30]] filled_reachable filled_idle hrows).map_eq
    fun _ _ htu => htu.sequences_eq
  have hdrawn : ((((filled.execute 1 (.begin_ none)).run (Engine.statements 1
      [insertItems [30]])).execute 1 .rollback).store.tables.map Table.sequences) ≠
      filled.store.tables.map Table.sequences := by decide +kernel
  exact hdrawn hsequences

end SqlStore
