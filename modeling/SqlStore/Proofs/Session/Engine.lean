import Mathlib.Logic.Function.Basic
import SqlStore.Proofs.Session.Statement

/-!
# Engines

An engine is a database with any number of sessions. Its runs are the interleavings of what the
sessions and the host do, one statement at a time; triggers are quiet, and they and the host's
functions may fail at every call. `Engine.Inv I` carries a property of tables through every run: it
holds of the tables of the store and of those that open transactions hold in their snapshots.
-/

open Relation

namespace SqlStore

open Run

/-- A database with its sessions, told apart by numbers. -/
structure Engine where
  database : Database
  /-- The explicit transaction that is open in a session, if any. -/
  sessions : Nat → Option Transaction

/-- A trigger that never runs statements. -/
def QuietTrigger := { t : Trigger // t.Quiet }

/-- What can happen to an engine. -/
inductive Event where
  /-- A session runs a statement. -/
  | statement (session : Nat) (s : Statement)
  /-- A session ends. -/
  | release (session : Nat)
  /-- A trigger is registered. -/
  | register (t : QuietTrigger)
  /-- A trigger is removed. -/
  | unregister (table : TableName) (name : String)
  /-- The host adds a function. -/
  | addFunction (name : String) (f : HostFunction)
  /-- The clock shows a time. -/
  | clock (now : Timestamp)

namespace Engine

/-- A new engine. -/
def open_ (config : Config) (clock : Timestamp) : Engine := ⟨Database.open_ config clock, fun _ => none⟩

/-- The store of the engine. -/
abbrev store (e : Engine) : Store := e.database.store

/-- A session of the engine. -/
def connection (e : Engine) (i : Nat) : Connection := ⟨e.database, e.sessions i⟩

/-- The engine after a call of a session. -/
def after (e : Engine) (i : Nat) (c : Connection) : Engine :=
  ⟨c.database, Function.update e.sessions i c.transaction⟩

/-- What a statement of a session answers. -/
def answer (e : Engine) (i : Nat) (s : Statement) : Except Error Outcome :=
  (exec (Session.executeStatement s) (e.connection i)).1

/-- The engine after a statement of a session. -/
def execute (e : Engine) (i : Nat) (s : Statement) : Engine :=
  e.after i (exec (Session.executeStatement s) (e.connection i)).2

/-- The engine after the end of a session. -/
def release (e : Engine) (i : Nat) : Engine :=
  e.after i (exec Connection.release (e.connection i)).2

/-- The engine after an event. -/
def step (e : Engine) : Event → Engine
  | .statement i s => e.execute i s
  | .release i => e.release i
  | .register t => { e with database := (exec (Database.register t.1) e.database).2 }
  | .unregister n name => { e with database := (exec (Database.unregister n name) e.database).2 }
  | .addFunction name f => { e with database := e.database.addFunction name f }
  | .clock now => { e with database := { e.database with clock := now } }

/-- The engine after events, in their order. -/
def run (e : Engine) (events : List Event) : Engine := events.foldl step e

/-- An engine that a new one comes to. -/
def Reachable (e : Engine) : Prop :=
  ∃ config clock events, e = (open_ config clock).run events

@[simp] theorem run_nil (e : Engine) : e.run [] = e := rfl

@[simp] theorem run_cons (e : Engine) (v : Event) (events : List Event) :
    e.run (v :: events) = (e.step v).run events := rfl

theorem run_append (e : Engine) (events more : List Event) :
    e.run (events ++ more) = (e.run events).run more := List.foldl_append

theorem Reachable.run {e : Engine} (h : e.Reachable) (events : List Event) :
    (e.run events).Reachable := by
  obtain ⟨config, clock, before, rfl⟩ := h
  exact ⟨config, clock, before ++ events, (run_append _ before events).symm⟩

theorem sessions_after (e : Engine) (i : Nat) (c : Connection) :
    (e.after i c).sessions i = c.transaction := Function.update_self ..

theorem sessions_after_of_ne (e : Engine) {i j : Nat} (c : Connection) (h : j ≠ i) :
    (e.after i c).sessions j = e.sessions j := Function.update_of_ne h ..

theorem connection_after (e : Engine) (i : Nat) (c : Connection) :
    (e.after i c).connection i = c :=
  congrArg (Connection.mk c.database) (sessions_after e i c)

theorem connection_after_of_ne (e : Engine) {i j : Nat} (c : Connection) (h : j ≠ i) :
    (e.after i c).connection j = ⟨c.database, e.sessions j⟩ :=
  congrArg (Connection.mk c.database) (sessions_after_of_ne e c h)

/-- A statement runs with the hook of the database. -/
theorem exec_executeStatement (s : Statement) (c : Connection) :
    exec (Session.executeStatement s) c = exec (Connection.executeStatement c.database.hook s) c := by
  unfold Session.executeStatement Session.call
  rw [exec_bind_ok (exec_get c)]

end Engine

/-! ## Invariants of a session -/

/-- The triggers are quiet, the tables of the store have a property, and an open transaction is
active and holds only pictures of tables that have it too. -/
structure Connection.Inv (I : Table → Prop) (c : Connection) : Prop where
  quiet : c.database.Quiet
  distinct : c.database.store.Distinct
  tables : ∀ t ∈ c.database.store.tables, I t
  active : ∀ t ∈ c.transaction, t.state = .active ∧ t.explicit = true
  pictures : ∀ t ∈ c.transaction, ∀ p ∈ t.snapshot, ∀ u ∈ p.tables, I u

/-- The pictures that could be taken of the tables of a store now have a property too. -/
def Store.Pictured (I : Table → Prop) (s : Store) : Prop := ∀ t ∈ s.tables, I t → I t.pictured

/-- The transaction of a session goes on: it is the same one, and it is active. -/
structure Transaction.GoesOn (t t' : Transaction) : Prop where
  version_eq : t'.version = t.version
  explicit : t'.explicit = true
  active : t'.state = .active

namespace Connection

variable {I : Table → Prop} {c : Connection}

/-- What a session works on has the invariants of the steps of a statement. -/
theorem Inv.core (h : c.Inv I) (hp : c.database.store.Pictured I) : c.core.Inv I := by
  refine ⟨h.distinct, h.tables, ?_, fun _ _ t ht => hp t ht (h.tables t ht)⟩
  intro p hpicture
  show ∀ t ∈ p.tables, I t
  unfold Connection.core Connection.working at hpicture
  cases ht : c.transaction with
  | none => rw [ht] at hpicture; cases hpicture
  | some t =>
    rw [ht] at hpicture
    exact h.pictures t ht p hpicture

theorem core_of_some {t : Transaction} (h : c.transaction = some t) :
    c.core = ⟨c.database.store, t⟩ := by
  unfold Connection.core Connection.working
  rw [h]
  rfl

/-- Whether a statement succeeds or fails, the transaction in which it ran is the same one. -/
theorem Ran.frame {s : Statement} {r : Except Error Outcome} {c' : Connection} {d : Core}
    (hran : c.Ran s r c' d) : c.core.Frame (d.closed r) := by
  cases r with
  | ok o => exact hran.performed.does.frame.of_fresh
  | error e => exact hran.performed.does.frame.abort

/-- A statement that is not about transactions lets an open transaction go on. -/
theorem Ran.goesOn {s : Statement} {r : Except Error Outcome} {c' : Connection} {d : Core}
    (hran : c.Ran s r c' d) (hc : c.Inv I) :
    Option.Rel Transaction.GoesOn c.transaction c'.transaction := by
  rw [hran.transaction_eq]
  have hframe := hran.frame
  cases ht : c.transaction with
  | none => exact Option.Rel.none
  | some t =>
    obtain ⟨hactive, hexplicit⟩ := hc.active t ht
    rw [core_of_some ht] at hframe
    exact Option.Rel.some ⟨hframe.version_eq, hframe.explicit_eq.trans hexplicit,
      hframe.state_eq.trans hactive⟩

/-- A statement that is not about transactions. -/
theorem Inv.ran (hI : Table.Invariant I) (h : c.Inv I) (hp : c.database.store.Pictured I)
    {s : Statement} {r : Except Error Outcome} {c' : Connection} {d : Core} (hran : Ran s c r c' d) :
    c'.Inv I := by
  have hcore := h.core hp
  have hclosed : (d.closed r).Inv I := by
    cases r with
    | ok o => exact hran.performed.does.inv hI hcore.fresh
    | error e => exact hran.performed.does.abort_inv hI hcore
  -- what the statement left is what the session has now
  refine ⟨hran.quiet, ?_, ?_, ?_, ?_⟩
  · rw [hran.store_eq]
    exact hclosed.distinct
  · rw [hran.store_eq]
    exact hclosed.tables
  · intro t ht
    have hgoes := hran.goesOn h
    rw [show c'.transaction = some t from ht] at hgoes
    generalize c.transaction = before at hgoes
    cases hgoes with
    | some hg => exact ⟨hg.active, hg.explicit⟩
  · intro t ht
    rw [hran.transaction_eq] at ht
    obtain ⟨t₀, -, rfl⟩ := Option.map_eq_some_iff.mp ht
    exact hclosed.pictures

/-- The end of a transaction leaves a session without one. -/
theorem inv_ended {db : Database} (hquiet : db.Quiet) (hdistinct : db.store.Distinct)
    (htables : ∀ t ∈ db.store.tables, I t) : Inv I ⟨db, none⟩ :=
  ⟨hquiet, hdistinct, htables, nofun, nofun⟩

theorem Inv.rolledBack (hI : Table.Invariant I) {db : Database} {t : Transaction}
    (h : Inv I ⟨db, some t⟩) (hp : db.store.Pictured I) :
    Inv I ⟨Connection.rolledBack db t, none⟩ := by
  have hcore := h.core hp
  refine inv_ended h.quiet ?_ (hcore.forall_rolledBackStore hI)
  show (Core.rolledBackStore _).names.Nodup
  rw [Core.names_rolledBackStore]
  exact h.distinct

theorem Inv.executeStatement (hI : Table.Invariant I) (hook : Hook) (s : Statement) (h : c.Inv I)
    (hp : c.database.store.Pictured I) :
    (exec (Connection.executeStatement hook s) c).2.Inv I := by
  by_cases hs : s.IsControl
  · rcases c with ⟨db, transaction⟩
    cases s with
    | begin_ isolation =>
      cases transaction with
      | some t =>
        rw [exec_begin_of_open]
        exact h
      | none =>
        rw [exec_begin]
        refine ⟨h.quiet, h.distinct, h.tables, ?_, ?_⟩
        · rintro t ⟨⟩
          exact ⟨rfl, rfl⟩
        · rintro t ⟨⟩ p hp
          cases hp
    | commit =>
      cases transaction with
      | none =>
        rw [exec_commit_of_none]
        exact h
      | some t =>
        rw [exec_commit hook (h.active t rfl).1]
        exact inv_ended h.quiet h.distinct h.tables
    | rollback =>
      cases transaction with
      | none =>
        rw [exec_rollback_of_none]
        exact h
      | some t =>
        rw [exec_rollback hook (h.active t rfl).1]
        exact h.rolledBack hI hp
    | _ => exact hs.elim
  · obtain ⟨d, hran⟩ := ran_executeStatement hook hs h.quiet fun t ht => (h.active t ht).1
    exact h.ran hI hp hran

theorem Inv.release (hI : Table.Invariant I) (h : c.Inv I) (hp : c.database.store.Pictured I) :
    (exec Connection.release c).2.Inv I := by
  rcases c with ⟨db, transaction⟩
  cases transaction with
  | none =>
    rw [exec_release_of_none]
    exact h
  | some t =>
    rw [exec_release (h.active t rfl).1]
    exact h.rolledBack hI hp

end Connection

/-! ## Invariants of an engine -/

namespace Engine

variable {I : Table → Prop} {e : Engine}

/-- Every session has the invariants. -/
def Inv (I : Table → Prop) (e : Engine) : Prop := ∀ i, (e.connection i).Inv I

theorem inv_open (config : Config) (clock : Timestamp) : (open_ config clock).Inv I :=
  fun _ => ⟨nofun, List.nodup_nil, nofun, nofun, nofun⟩

/-- A call of one session keeps the invariants of all. -/
theorem Inv.after (h : e.Inv I) {i : Nat} {c : Connection} (hc : c.Inv I) : (e.after i c).Inv I := by
  intro j
  by_cases hj : j = i
  · subst hj
    rw [connection_after]
    exact hc
  · -- another session sees the new database under the transaction that it had
    rw [connection_after_of_ne e c hj]
    exact ⟨hc.quiet, hc.distinct, hc.tables, (h j).active, (h j).pictures⟩

/-- A change of the database that keeps the store and quiet triggers. -/
theorem Inv.withDatabase (h : e.Inv I) {db : Database} (hquiet : db.Quiet)
    (hstore : db.store = e.store) : Inv I { e with database := db } := by
  intro i
  refine ⟨hquiet, ?_, ?_, (h i).active, (h i).pictures⟩
  · show db.store.Distinct
    rw [hstore]
    exact (h i).distinct
  · show ∀ t ∈ db.store.tables, I t
    rw [hstore]
    exact (h i).tables

theorem Inv.step (hI : Table.Invariant I) (h : e.Inv I) (hp : e.store.Pictured I) (v : Event) :
    (e.step v).Inv I := by
  have hquiet := (h 0).quiet
  cases v with
  | statement i s =>
    refine h.after ?_
    rw [exec_executeStatement]
    exact (h i).executeStatement hI _ s hp
  | release i => exact h.after ((h i).release hI hp)
  | register t =>
    obtain ⟨hquiet', hstore⟩ := Database.exec_register t.2 hquiet
    exact h.withDatabase hquiet' hstore
  | unregister n name =>
    have hsettles := Database.moves_unregister n name e.database
    exact h.withDatabase (hsettles.quiet hquiet) hsettles.store_eq
  | addFunction name f => exact h.withDatabase hquiet rfl
  | clock now => exact h.withDatabase hquiet rfl

/-- Along a run the invariants hold if pictures of tables keep the property at every moment. -/
theorem Inv.run (hI : Table.Invariant I) (h : e.Inv I) (events : List Event)
    (hp : ∀ k, (e.run (events.take k)).store.Pictured I) : (e.run events).Inv I := by
  induction events generalizing e with
  | nil => exact h
  | cons v events ih => exact ih (h.step hI (hp 0) v) fun k => hp (k + 1)

/-- In every engine that a new one comes to, tables have what no change of them and no picture takes from
them, triggers are quiet, and the transactions of sessions are active and explicit. -/
theorem Reachable.inv_of (hI : Table.Invariant I) (hp : ∀ {t}, I t → I t.pictured)
    (h : e.Reachable) : e.Inv I := by
  obtain ⟨config, clock, events, rfl⟩ := h
  exact (inv_open config clock).run hI events fun _ _ _ ht => hp ht

/-- Such an engine has keyed tables. -/
theorem Reachable.inv (h : e.Reachable) : e.Inv Table.Keyed :=
  h.inv_of Table.invariant_keyed Table.Keyed.pictured

end Engine

end SqlStore
