import SqlStore.Proofs.Transaction.Lifecycle
import SqlStore.Session.Basic

/-!
# Transactions side by side

A pool is a database with all transactions that were begun on it. Its runs are the interleavings, call by
call, of what is asked of any of them while triggers come and go. `Carried` says what a relation of states
needs to hold along every call that neither ends its transaction nor drops a table: it holds along changes
of the store and of the transaction, and along the firing of triggers.
-/

namespace SqlStore

open Run

/-- A call on a transaction. -/
inductive Call where
  | commit
  | rollback
  | beginStatement
  | abortStatement
  | createSchema (name : String)
  | dropSchema (name : String)
  | hasSchema (name : String)
  | createTable (d : TableDefinition)
  | dropTable (n : TableName)
  | definition (n : TableName)
  | scan (n : TableName)
  | nextSequence (n : TableName) (column : String)
  | insert (n : TableName) (rows : List Tuple)
  | update (n : TableName) (id : Nat) (values : Tuple)
  | delete (n : TableName) (id : Nat)

namespace Call

/-- What a call does; what it reads is not kept. -/
def perform (hook : Hook) : Call → Action Unit
  | commit => Action.commit
  | rollback => Action.rollback
  | beginStatement => Action.beginStatement
  | abortStatement => Action.abortStatement
  | createSchema name => Action.createSchema name
  | dropSchema name => Action.dropSchema name
  | hasSchema name => do
    let _ ← Action.hasSchema name
    return ()
  | createTable d => Action.createTable d
  | dropTable n => Action.dropTable n
  | definition n => do
    let _ ← Action.definition? n
    return ()
  | scan n => do
    let _ ← Action.scan hook n
    return ()
  | nextSequence n column => do
    let _ ← Action.nextSequence n column
    return ()
  | insert n rows => do
    let _ ← Action.insert hook n rows
    return ()
  | update n id values => do
    let _ ← Action.update hook n id values
    return ()
  | delete n id => Action.delete hook n id

/-- The call ends its transaction. -/
def IsLast : Call → Prop
  | commit | rollback => True
  | _ => False

/-- The call drops a table, and with it the triggers of the table. -/
def Drops : Call → Prop
  | dropTable _ => True
  | _ => False

/-- The call is one of those that statements on rows consist of: it reads, draws from a sequence or
changes rows. -/
def OnRows : Call → Prop
  | hasSchema _ | definition _ | scan _ | nextSequence _ _ => True
  | insert _ _ | update _ _ _ | delete _ _ => True
  | _ => False

end Call

/-! ## Pools -/

/-- A database with the transactions that were begun on it, in the order in which they began. -/
structure Pool where
  database : Database
  transactions : List Transaction

/-- What can be asked of a pool. -/
inductive Request where
  /-- A transaction begins. -/
  | begin_ (isolation : Isolation) (explicit : Bool)
  /-- A call on the transaction of a number. -/
  | call (i : Nat) (c : Call)
  /-- A trigger is registered. -/
  | register (t : Trigger)
  /-- A trigger is removed. -/
  | unregister (n : TableName) (name : String)

namespace Pool

/-- A database on which no transaction began. -/
def ofDatabase (db : Database) : Pool := ⟨db, []⟩

/-- The store of the pool. -/
abbrev store (p : Pool) : Store := p.database.store

/-- A call on one of the transactions. -/
def onTransaction (p : Pool) (i : Nat) (t : Transaction) (c : Call) : Except Error Unit × Pool :=
  let (r, w) := exec (c.perform p.database.hook) ⟨p.database, t⟩
  (r, ⟨w.database, p.transactions.set i w.transaction⟩)

/-- What a request is answered, and the pool after it. A number under which no transaction began stands
for nothing. -/
def perform (p : Pool) : Request → Except Error Unit × Pool
  | .begin_ isolation explicit =>
    match exec (Database.begin_ isolation explicit) p.database with
    | (.ok t, db) => (.ok (), ⟨db, p.transactions ++ [t]⟩)
    | (.error e, db) => (.error e, { p with database := db })
  | .call i c =>
    match p.transactions[i]? with
    | some t => p.onTransaction i t c
    | none => (.ok (), p)
  | .register t =>
    let (r, db) := exec (Database.register t) p.database
    (r, { p with database := db })
  | .unregister n name =>
    let (r, db) := exec (Database.unregister n name) p.database
    (r, { p with database := db })

/-- What a request is answered. -/
def answer (p : Pool) (r : Request) : Except Error Unit := (p.perform r).1

/-- The pool after a request. -/
def step (p : Pool) (r : Request) : Pool := (p.perform r).2

/-- The pool after requests, in their order. -/
def run (p : Pool) (requests : List Request) : Pool := requests.foldl step p

@[simp] theorem run_nil (p : Pool) : p.run [] = p := rfl

@[simp] theorem run_cons (p : Pool) (r : Request) (requests : List Request) :
    p.run (r :: requests) = (p.step r).run requests := rfl

theorem run_append (p : Pool) (requests more : List Request) :
    p.run (requests ++ more) = (p.run requests).run more := List.foldl_append

/-- What each request keeps is kept by a run. -/
theorem run_keeps {P : Pool → Prop} (hstep : ∀ p r, P p → P (p.step r)) {p : Pool} (h : P p)
    (requests : List Request) : P (p.run requests) := by
  induction requests generalizing p with
  | nil => exact h
  | cons r requests ih => exact ih (hstep p r h)

variable {p : Pool} {i : Nat} {t : Transaction} {c : Call}

theorem step_begin (p : Pool) (isolation : Isolation) (explicit : Bool) :
    p.step (.begin_ isolation explicit) =
      ⟨{ p.database with nextVersion := p.database.nextVersion + 1 },
        p.transactions ++ [⟨p.database.nextVersion, isolation, explicit, .active, none, []⟩]⟩ := rfl

/-- What a call on a transaction of the pool works on. -/
def work (p : Pool) (t : Transaction) : Work := ⟨p.database, t⟩

theorem answer_call (h : p.transactions[i]? = some t) :
    p.answer (.call i c) = (exec (c.perform p.database.hook) (p.work t)).1 := by
  unfold answer perform
  dsimp only
  rw [h]
  rfl

theorem step_call (h : p.transactions[i]? = some t) :
    p.step (.call i c) =
      ⟨(exec (c.perform p.database.hook) (p.work t)).2.database,
        p.transactions.set i (exec (c.perform p.database.hook) (p.work t)).2.transaction⟩ := by
  unfold step perform
  dsimp only
  rw [h]
  rfl

theorem step_call_of_none (h : p.transactions[i]? = none) : p.step (.call i c) = p := by
  unfold step perform
  dsimp only
  rw [h]

end Pool

/-! ## Relations along calls -/

/-- The relation holds along changes of the store and of the transaction that leave the state of the
transaction, and along the firing of triggers. -/
structure Carried (hook : Hook) (R : Work → Work → Prop) : Prop where
  changed : ∀ (w : Work) (store : Store) (t : Transaction), t.state = w.transaction.state →
    R w ⟨{ w.database with store }, t⟩
  fired : ∀ n timing operation old new, Moves R (Action.fire hook n timing operation old new)

namespace Carried

open SqlStore.Action

variable {hook : Hook} {R : Work → Work → Prop} [Std.Refl R] [IsTrans Work R]

omit [Std.Refl R] [IsTrans Work R] in
theorem modifyTransaction (h : Carried hook R) {f : Transaction → Transaction}
    (hf : ∀ t, (f t).state = t.state) : Moves R (modifyTransaction f) :=
  fun w => h.changed w w.database.store (f w.transaction) (hf _)

omit [Std.Refl R] [IsTrans Work R] in
theorem log (h : Carried hook R) (u : Undo) : Moves R (log u) := h.modifyTransaction fun _ => rfl

omit [IsTrans Work R] in
theorem changeStore (h : Carried hook R) (f : Store → Except Error Store) :
    Moves R (changeStore f) := by
  intro w
  rw [exec_changeStore]
  cases f w.database.store with
  | error e => exact refl_of R w
  | ok s => exact h.changed w s w.transaction rfl

omit [IsTrans Work R] in
theorem ensureActive : Moves R ensureActive := by
  intro w
  unfold Action.ensureActive
  rw [exec_bind_ok (exec_get w)]
  dsimp only
  split <;> exact refl_of R w

omit [IsTrans Work R] in
theorem table (n : TableName) : Moves R (table n) := by
  intro w
  rw [exec_table]
  exact refl_of R w

theorem beginStatement (h : Carried hook R) : Moves R beginStatement :=
  ensureActive.bind fun _ => h.modifyTransaction fun _ => rfl

omit [Std.Refl R] [IsTrans Work R] in
theorem abortStatement (h : Carried hook R) : Moves R abortStatement := by
  intro w
  rw [exec_abortStatement]
  exact h.changed w _ _ rfl

theorem alter (h : Carried hook R) (f : Store → Except Error Store) :
    Moves R (Action.ensureActive >>= fun _ => Action.changeStore f) :=
  ensureActive.bind fun _ => h.changeStore f

theorem scan (h : Carried hook R) (n : TableName) : Moves R (scan hook n) := by
  refine ensureActive.bind fun _ => (h.fired n _ _ _ _).bind fun _ => ?_
  exact (table n).bind fun t => (h.fired n _ _ _ _).bind fun _ => moves_pure _

theorem nextSequence (h : Carried hook R) (n : TableName) (column : String) :
    Moves R (nextSequence n column) := by
  refine ensureActive.bind fun _ => (table n).bind fun t => (moves_ofExcept _).bind fun drawn => ?_
  exact (h.changeStore _).bind fun _ => moves_pure _

theorem prepareWrite (h : Carried hook R) : Moves R prepareWrite := by
  refine ensureActive.bind fun _ => moves_get.bind fun w => ?_
  split
  · exact h.modifyTransaction fun _ => rfl
  · exact moves_pure _

theorem insertOne (h : Carried hook R) (n : TableName) (values : Tuple) :
    Moves R (insertOne hook n values) := by
  refine (table n).bind fun t => (moves_ofExcept _).bind fun accepted => ?_
  refine (h.changeStore _).bind fun _ => (h.fired n _ _ _ _).bind fun _ => ?_
  refine (table n).bind fun t => (moves_ofExcept _).bind fun _ => ?_
  refine (h.changeStore _).bind fun _ => (h.log _).bind fun _ => ?_
  exact (h.fired n _ _ _ _).bind fun _ => moves_pure _

theorem insert (h : Carried hook R) (n : TableName) (rows : List Tuple) :
    Moves R (insert hook n rows) := by
  refine h.prepareWrite.bind fun _ => (moves_mapM (h.insertOne n) rows).bind fun inserted => ?_
  refine (table n).bind fun t => (h.changeStore _).bind fun _ => ?_
  exact (h.log _).bind fun _ => moves_pure _

theorem update (h : Carried hook R) (n : TableName) (id : Nat) (values : Tuple) :
    Moves R (update hook n id values) := by
  refine h.prepareWrite.bind fun _ => (table n).bind fun t => (moves_ofExcept _).bind fun old => ?_
  refine (moves_ofExcept _).bind fun accepted => (h.fired n _ _ _ _).bind fun _ => ?_
  refine (table n).bind fun t => (moves_ofExcept _).bind fun _ => ?_
  refine (h.changeStore _).bind fun _ => (h.log _).bind fun _ => ?_
  exact (h.fired n _ _ _ _).bind fun _ => moves_pure _

theorem delete (h : Carried hook R) (n : TableName) (id : Nat) : Moves R (delete hook n id) := by
  refine h.prepareWrite.bind fun _ => (table n).bind fun t => (moves_ofExcept _).bind fun old => ?_
  refine (h.fired n _ _ _ _).bind fun _ => (table n).bind fun t => ?_
  refine (h.changeStore _).bind fun _ => (h.log _).bind fun _ => ?_
  exact h.fired n _ _ _ _

/-- The relation holds along every call that neither ends the transaction nor drops a table. -/
theorem perform (h : Carried hook R) {c : Call} (hlast : ¬ c.IsLast) (hdrops : ¬ c.Drops) :
    Moves R (c.perform hook) := by
  cases c with
  | commit => exact absurd trivial hlast
  | rollback => exact absurd trivial hlast
  | beginStatement => exact h.beginStatement
  | abortStatement => exact h.abortStatement
  | createSchema name => exact h.alter _
  | dropSchema name => exact h.alter _
  | hasSchema name => exact fun w => refl_of R w
  | createTable d => exact h.alter _
  | dropTable n => exact absurd trivial hdrops
  | definition n => exact fun w => refl_of R w
  | scan n => exact (h.scan n).bind fun _ => moves_pure _
  | nextSequence n column => exact (h.nextSequence n column).bind fun _ => moves_pure _
  | insert n rows => exact (h.insert n rows).bind fun _ => moves_pure _
  | update n id values => exact (h.update n id values).bind fun _ => moves_pure _
  | delete n id => exact h.delete n id

end Carried

end SqlStore
