import SqlStore.Proofs.Session.Engine
import SqlStore.Proofs.Store.Restoring

/-!
# Statements on rows inside a transaction

What the statements of one open transaction do to the store, and which picture of it the transaction
holds in the end. Until the first of them writes, only sequences move on. The one that writes first
takes the snapshot behind its own draws and in front of its own changes; from then on the snapshot
stays, and so do the definitions of the tables that it has to be put back under.
-/

open Relation

namespace SqlStore

open Run

/-- A table keeps its definition. -/
def Table.SameDefinition (t u : Table) : Prop := u.definition = t.definition

/-- The transaction holds the picture of a store, and the tables have the definitions that they had
there. -/
structure Core.Holds (m : Store) (c : Core) : Prop where
  snapshot_eq : c.transaction.snapshot = some (Snapshot.capture m)
  definitions : Store.Along Table.SameDefinition m c.store

/-- What a transaction that began to work on a store without a snapshot has come to: it drew at most,
or it holds the picture of a store in which it had only drawn. -/
inductive Picturing (s : Store) (c : Core) : Prop
  | drew (hnone : c.transaction.snapshot = none) (hdrawn : Store.Along Table.Drawn s c.store)
  | captured (m : Store) (hdrawn : Store.Along Table.Drawn s m) (hholds : c.Holds m)

section

variable {c d : Core} {r : Except Error Outcome}

/-- A statement that wrote nothing leaves an empty log, and aborting it changes nothing. -/
theorem Core.closed_of_nil (h : d.transaction.undo = []) :
    (d.closed r).store = d.store ∧ (d.closed r).transaction.snapshot = d.transaction.snapshot := by
  cases r with
  | ok o => exact ⟨rfl, rfl⟩
  | error e =>
    show d.abort.store = _ ∧ d.abort.transaction.snapshot = _
    rw [Core.abort_of_nil h]
    exact ⟨rfl, rfl⟩

theorem Core.along_closed : Store.Along Table.SameSequences d.store (d.closed r).store := by
  cases r with
  | ok o => exact .refl Table.SameSequences.refl _
  | error e => exact Undo.along_applyAll d.store d.transaction.undo

theorem Core.snapshot_closed :
    (d.closed r).transaction.snapshot = d.transaction.snapshot := by
  cases r <;> rfl

/-- The statement that writes first: the picture that it takes has the sequences that it leaves. -/
theorem Works.picturing (h : Works c.fresh d) (hd : c.store.Distinct)
    (hexplicit : c.transaction.explicit = true) (hnone : c.transaction.snapshot = none) :
    ((d.closed r).transaction.snapshot = none ∧
        Store.Along Table.Drawn c.store (d.closed r).store) ∨
      ∃ m, Store.Along Table.Drawn c.store m ∧ (d.closed r).Holds m ∧
        Store.Along Table.SameSequences m (d.closed r).store := by
  obtain ⟨m, hdraw, hwrite⟩ := h
  have hdrawn : Store.Along Table.Drawn c.fresh.store m.store := Draw.run_along hdraw hd
  have htransaction : m.transaction = c.fresh.transaction := Draw.run_transaction_eq hdraw
  have hm : m.store.Distinct := (Draw.run_grown hdraw hd).distinct hd
  rcases Write.run_of_none hwrite (htransaction ▸ hexplicit) (htransaction ▸ hnone) with
    rfl | hcaptured
  · -- nothing was written, so nothing was logged
    left
    have hnil : d.transaction.undo = [] := by
      rw [htransaction]
      rfl
    obtain ⟨hstore, hsnapshot⟩ := Core.closed_of_nil (r := r) hnil
    rw [hstore, hsnapshot, htransaction]
    exact ⟨hnone, hdrawn⟩
  · -- everything that was written came behind the snapshot
    right
    have hframe := Core.Frame.of_run Write.frame hcaptured
    have hwritten : Store.Along Table.SameSequences m.capture.store d.store :=
      Write.run_along hcaptured hm
    have hclosed : Store.Along Table.SameSequences m.store (d.closed r).store :=
      hwritten.trans Core.along_closed Table.SameSequences.trans
    refine ⟨m.store, hdrawn, ⟨?_, hclosed.imp fun _ _ htu => htu.definition_eq⟩, hclosed⟩
    rw [Core.snapshot_closed]
    exact hframe.snapshot_eq (Or.inl rfl)

theorem Works.along_definition (h : Works c.fresh d) (hd : c.store.Distinct) :
    Store.Along Table.SameDefinition c.store (d.closed r).store := by
  obtain ⟨m, hdraw, hwrite⟩ := h
  have hdrawn : Store.Along Table.Drawn c.fresh.store m.store := Draw.run_along hdraw hd
  have hm : m.store.Distinct := (Draw.run_grown hdraw hd).distinct hd
  have hwritten : Store.Along Table.SameSequences m.store (d.closed r).store :=
    (Write.run_along hwrite hm).trans Core.along_closed Table.SameSequences.trans
  exact hdrawn.trans hwritten fun htu huv => huv.definition_eq.trans htu.definition_eq

/-- A picture once taken is held, whatever statements on rows come. -/
theorem Core.Holds.works {m : Store} (hc : c.Holds m) (h : Works c.fresh d)
    (hd : c.store.Distinct) : (d.closed r).Holds m where
  snapshot_eq := by
    have hkept : c.fresh.transaction.snapshot.isSome = true := by
      show c.transaction.snapshot.isSome = true
      rw [hc.snapshot_eq]
      rfl
    rw [Core.snapshot_closed, h.frame.snapshot_eq (Or.inl hkept)]
    exact hc.snapshot_eq
  definitions := hc.definitions.trans (h.along_definition hd) fun htu huv => Eq.trans huv htu

/-- One more statement on rows. -/
theorem Picturing.works {s : Store} (hp : Picturing s c) (h : Works c.fresh d)
    (hd : c.store.Distinct) (hexplicit : c.transaction.explicit = true) :
    Picturing s (d.closed r) := by
  cases hp with
  | drew hnone hdrawn =>
    rcases h.picturing (r := r) hd hexplicit hnone with ⟨hstill, hmore⟩ | ⟨m, hmore, hholds, -⟩
    · exact .drew hstill (hdrawn.trans hmore Table.Drawn.trans)
    · exact .captured m (hdrawn.trans hmore Table.Drawn.trans) hholds
  | captured m hdrawn hholds => exact .captured m hdrawn (hholds.works h hd)

end

/-! ## Rolling back -/

theorem Table.Drawn.pictured_eq {t u : Table} (h : t.Drawn u) (ht : t.pictured = t) :
    u.pictured = u := by
  rcases t with ⟨definition, rows, nextId, sequences, lastKeys⟩
  rcases u with ⟨definition', rows', nextId', sequences', lastKeys'⟩
  rcases h with ⟨rfl, rfl, rfl, rfl⟩
  injection ht with hdefinition hrows _ _ hkeys
  show Table.mk (TableDefinition.pictured _) (List.map _ _) _ _ (List.map _ _) = _
  rw [hdefinition, hrows, hkeys]

theorem Table.Drawn.faithful {t u : Table} (h : t.Drawn u) (ht : t.Faithful) : u.Faithful where
  pictured_eq := h.pictured_eq ht.pictured_eq
  same := by
    rw [h.definition_eq]
    exact ht.same

theorem Table.Drawn.recognized {t u : Table} (h : t.Drawn u) (ht : t.Recognized) :
    u.Recognized := by
  unfold Table.Recognized
  rw [h.definition_eq]
  exact ht

theorem Table.Drawn.fullName_eq (t u : Table) (h : t.Drawn u) :
    u.definition.fullName = t.definition.fullName := by
  rw [h.definition_eq]

/-- Rolling back brings every table back as it was pictured. -/
theorem Core.Holds.along_rolledBack {m : Store} {c : Core} (hc : c.Holds m) (hd : m.Distinct)
    (hrecognized : ∀ t ∈ m.tables, t.Recognized) :
    Store.Along (fun t u => u = Snapshot.comeBack t) m c.rolledBackStore := by
  unfold Core.rolledBackStore
  rw [hc.snapshot_eq]
  exact Snapshot.along_restore hd hrecognized hc.definitions

/-- Wherever the transaction stands, rolling back leads to the tables that it found. -/
theorem Picturing.rolledBack {s : Store} {c : Core} (hp : Picturing s c) (hd : s.Distinct)
    (hfaithful : ∀ t ∈ s.tables, t.Faithful) :
    Store.Along Table.Drawn s c.rolledBackStore := by
  cases hp with
  | drew hnone hdrawn =>
    rw [Core.rolledBackStore_of_none hnone]
    exact hdrawn
  | captured m hdrawn hholds =>
    have hm : ∀ t ∈ m.tables, t.Faithful :=
      hdrawn.forall_tables (fun _ _ ht htu => htu.faithful ht) hfaithful
    have hback := hholds.along_rolledBack (hdrawn.distinct Table.Drawn.fullName_eq hd)
      fun t ht => (hm t ht).recognized
    -- every table that comes back is the one that was pictured
    have hsame : List.Forall₂ (fun t u => t ∈ m.tables ∧ u = Snapshot.comeBack t) m.tables
        c.rolledBackStore.tables :=
      (List.forall₂_and_left _ _).mpr ⟨fun t ht => ht, hback.tables⟩
    have heq : Store.Along Eq m c.rolledBackStore := by
      refine ⟨hback.schemas_eq, hsame.imp ?_⟩
      rintro t u ⟨ht, rfl⟩
      exact (Snapshot.comeBack_of_faithful (hm t ht).pictured_eq).symm
    exact hdrawn.trans heq fun htu huv => huv ▸ htu

/-! ## Runs -/

namespace Engine

variable {e : Engine} {i : Nat} {t : Transaction}

/-- A statement on rows in a session that has a transaction open. -/
theorem execute_of_open (he : e.Inv Table.Keyed) (hopen : e.sessions i = some t) {s : Statement}
    (hs : s.OnRows) :
    ∃ d t', Works (Core.mk e.store t).fresh d ∧
      (e.execute i s).sessions i = some t' ∧ t.GoesOn t' ∧
      Core.mk (e.execute i s).store t' =
        ⟨(d.closed (e.answer i s)).store, (d.closed (e.answer i s)).transaction⟩ := by
  have hc := he i
  have hcontrol : ¬ s.IsControl := by
    cases s <;> first
      | exact id
      | exact hs.elim
  obtain ⟨d, hran⟩ := Connection.ran_executeStatement (e.connection i).database.hook hcontrol
    hc.quiet fun t ht => (hc.active t ht).1
  rw [← exec_executeStatement s (e.connection i)] at hran
  have hworks := hran.performed.onRows hs
  rw [Connection.core_of_some hopen] at hworks
  have hself : (e.execute i s).sessions i = _ := sessions_after ..
  have hgoes := hran.goesOn hc
  have htransaction := hran.transaction_eq
  rw [show (e.connection i).transaction = some t from hopen] at hgoes htransaction
  rw [htransaction] at hself hgoes
  refine ⟨d, (d.closed (e.answer i s)).transaction, hworks, hself, ?_, ?_⟩
  · cases hgoes with
    | some hg => exact hg
  · exact congrArg (Core.mk · _) hran.store_eq

/-- The statements of a session. -/
abbrev statements (i : Nat) (ss : List Statement) : List Event := ss.map (Event.statement i)

/-- Statements on rows in one open transaction, whether they succeed or fail, keep what each of them
keeps. -/
theorem run_of_open {P : Core → Prop}
    (hP : ∀ {c d} {r : Except Error Outcome}, P c → Works c.fresh d → c.store.Distinct →
      c.transaction.explicit = true → P (d.closed r))
    (he : e.Inv Table.Keyed) (hopen : e.sessions i = some t) (hp : P ⟨e.store, t⟩)
    {ss : List Statement} (hss : ∀ x ∈ ss, x.OnRows) :
    ∃ t', (e.run (statements i ss)).sessions i = some t' ∧ t.GoesOn t' ∧
      P ⟨(e.run (statements i ss)).store, t'⟩ := by
  obtain ⟨hactive, hexplicit⟩ := (he i).active t hopen
  induction ss generalizing e t with
  | nil => exact ⟨t, hopen, ⟨rfl, hexplicit, hactive⟩, hp⟩
  | cons x ss ih =>
    obtain ⟨d, t₁, hworks, hopen₁, hgoes₁, hcore⟩ :=
      execute_of_open he hopen (hss x List.mem_cons_self)
    have hp₁ : P ⟨(e.execute i x).store, t₁⟩ := by
      rw [hcore]
      exact hP (c := ⟨e.store, t⟩) hp hworks (he i).distinct hexplicit
    have he₁ : (e.execute i x).Inv Table.Keyed :=
      he.step Table.invariant_keyed (fun _ _ ht => ht.pictured) (.statement i x)
    obtain ⟨t', hopen', hgoes', hp'⟩ := ih he₁ hopen₁ hp₁
      (fun y hy => hss y (List.mem_cons_of_mem x hy)) hgoes₁.active hgoes₁.explicit
    exact ⟨t', hopen', ⟨hgoes'.version_eq.trans hgoes₁.version_eq, hgoes'.explicit,
      hgoes'.active⟩, hp'⟩

/-- `BEGIN` in a session without a transaction. -/
theorem execute_begin (hidle : e.sessions i = none) (isolation : Option Isolation) :
    (e.execute i (.begin_ isolation)).store = e.store ∧
      (e.execute i (.begin_ isolation)).sessions i =
        some (Connection.opened e.database isolation) := by
  have hrun : exec (Session.executeStatement (.begin_ isolation)) (e.connection i) =
      exec (Connection.executeStatement e.database.hook (.begin_ isolation))
        ⟨e.database, none⟩ := by
    rw [exec_executeStatement, show e.connection i = ⟨e.database, none⟩ from
      congrArg (Connection.mk e.database) hidle]
  unfold execute
  rw [hrun, Connection.exec_begin]
  exact ⟨rfl, sessions_after ..⟩

/-- `ROLLBACK` in a session with an open transaction. -/
theorem execute_rollback (hopen : e.sessions i = some t) (hactive : t.state = .active) :
    e.answer i .rollback = .ok (.rolledBack t.version) ∧
      (e.execute i .rollback).database = Connection.rolledBack e.database t ∧
      (e.execute i .rollback).sessions i = none := by
  have hrun : exec (Session.executeStatement .rollback) (e.connection i) =
      (.ok (.rolledBack t.version), ⟨Connection.rolledBack e.database t, none⟩) := by
    rw [exec_executeStatement, show e.connection i = ⟨e.database, some t⟩ from
      congrArg (Connection.mk e.database) hopen]
    exact Connection.exec_rollback _ hactive
  unfold answer execute
  rw [hrun]
  exact ⟨rfl, rfl, sessions_after ..⟩

/-- The end of a session with an open transaction. -/
theorem release_of_open (hopen : e.sessions i = some t) (hactive : t.state = .active) :
    (e.release i).database = Connection.rolledBack e.database t ∧
      (e.release i).sessions i = none := by
  have hrun : exec Connection.release (e.connection i) =
      (.ok ⟨⟩, ⟨Connection.rolledBack e.database t, none⟩) := by
    rw [show e.connection i = ⟨e.database, some t⟩ from
      congrArg (Connection.mk e.database) hopen]
    exact Connection.exec_release hactive
  unfold release
  rw [hrun]
  exact ⟨rfl, sessions_after ..⟩

end Engine

end SqlStore
