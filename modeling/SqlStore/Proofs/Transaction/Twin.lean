import SqlStore.Proofs.Mirror
import SqlStore.Proofs.Transaction.Lifecycle
import SqlStore.Session.DataStatement

/-!
# Twin transactions

Two transactions work on two databases, and the same calls are made on both. As long as a relation makes sure of
equal stores and equal logs, calls that fire nothing go the same way in both (`Companions`). Twins are two
databases that differ in nothing but the number of their next transaction, each with an active transaction that
logged the same changes: whether a transaction is explicit or not, and whether it has its snapshot, makes no
difference to any call on it. One lemma for each call says that the two runs mirror each other.
-/

namespace SqlStore

open Run

/-! ## Transactions side by side -/

/-- Related works have the same store, and their transactions are active with the same log. They stay related
whatever becomes of the store and of the log, if it is the same for both. -/
structure Companions (S : Work → Work → Prop) : Prop where
  store_eq : ∀ {w v}, S w v → w.database.store = v.database.store
  active : ∀ {w v}, S w v → w.transaction.state = .active
  active' : ∀ {w v}, S w v → v.transaction.state = .active
  undo_eq : ∀ {w v}, S w v → w.transaction.undo = v.transaction.undo
  changed : ∀ {w v} (store : Store) (t u : Transaction), S w v → t.state = .active → u.state = .active →
    t.undo = u.undo → S ⟨{ w.database with store }, t⟩ ⟨{ v.database with store }, u⟩

theorem Action.exec_prepareWrite {w : Work} (h : w.transaction.state = .active) :
    ∃ snapshot, exec prepareWrite w =
      (.ok ⟨⟩, { w with transaction := { w.transaction with snapshot } }) := by
  unfold prepareWrite
  rw [exec_bind_ok (exec_ensureActive h), exec_bind_ok (exec_get w)]
  split
  · exact ⟨_, rfl⟩
  · exact ⟨_, rfl⟩

namespace Companions

open SqlStore.Action

variable {S : Work → Work → Prop} (h : Companions S)

include h

/-! ## Calls that fire nothing -/

theorem ensureActive : Mirrors S Never ensureActive ensureActive :=
  mirrors_of_exec fun w v hwv =>
    ⟨.ok ⟨⟩, w, v, exec_ensureActive (h.active hwv), exec_ensureActive (h.active' hwv), hwv⟩

theorem store : Mirrors S Never store store := by
  refine mirrors_get_bind fun w v hwv => ?_
  rw [h.store_eq hwv]
  exact mirrors_pure _

theorem table (n : TableName) : Mirrors S Never (table n) (table n) :=
  h.store.bind fun _ => mirrors_ofExcept _

theorem changeStore (f : Store → Except Error Store) : Mirrors S Never (changeStore f) (changeStore f) := by
  intro w v hwv
  rw [exec_changeStore, exec_changeStore, h.store_eq hwv]
  cases f v.database.store with
  | error err => exact Or.inr ⟨rfl, hwv⟩
  | ok store =>
    exact Or.inr ⟨rfl, h.changed store _ _ hwv (h.active hwv) (h.active' hwv) (h.undo_eq hwv)⟩

/-- A change of the transactions that goes by their logs alone. -/
theorem transactions {w v : Work} (hwv : S w v) {t u : Transaction} (ht : t.state = w.transaction.state)
    (hu : u.state = v.transaction.state) (hundo : t.undo = u.undo) : S ⟨w.database, t⟩ ⟨v.database, u⟩ := by
  have hchanged := h.changed w.database.store t u hwv (ht.trans (h.active hwv)) (hu.trans (h.active' hwv)) hundo
  have hstore : (⟨{ v.database with store := w.database.store }, u⟩ : Work) = ⟨v.database, u⟩ := by
    rw [h.store_eq hwv]
  rw [hstore] at hchanged
  exact hchanged

theorem modifyTransaction {f : Transaction → Transaction} (hstate : ∀ t, (f t).state = t.state)
    (hundo : ∀ t u, t.undo = u.undo → (f t).undo = (f u).undo) :
    Mirrors S Never (modifyTransaction f) (modifyTransaction f) :=
  mirrors_of_exec fun _ _ hwv =>
    ⟨.ok ⟨⟩, _, _, rfl, rfl, h.transactions hwv (hstate _) (hstate _) (hundo _ _ (h.undo_eq hwv))⟩

theorem log (u : Undo) : Mirrors S Never (log u) (log u) :=
  h.modifyTransaction (fun _ => rfl) fun _ _ hundo => congrArg (List.cons u) hundo

/-- Only one of the two may take its snapshot, and nothing else shows it. -/
theorem prepareWrite : Mirrors S Never prepareWrite prepareWrite := by
  refine mirrors_of_exec fun w v hwv => ?_
  obtain ⟨_, hw⟩ := exec_prepareWrite (h.active hwv)
  obtain ⟨_, hv⟩ := exec_prepareWrite (h.active' hwv)
  exact ⟨.ok ⟨⟩, _, _, hw, hv, h.transactions hwv rfl rfl (h.undo_eq hwv)⟩

theorem nextSequence (n : TableName) (column : String) :
    Mirrors S Never (nextSequence n column) (nextSequence n column) := by
  refine h.ensureActive.bind fun _ => (h.table n).bind fun t => ?_
  refine (mirrors_ofExcept _).bind fun drawn => (h.changeStore _).bind fun _ => ?_
  exact mirrors_pure _

theorem defaultValue (n : TableName) (c : Column) : Mirrors S Never (defaultValue n c) (defaultValue n c) := by
  unfold Action.defaultValue
  split
  · exact (h.nextSequence n c.name).bind fun _ => mirrors_ofExcept _
  · exact mirrors_pure _

/-! ## Inserting -/

variable {hook : Hook} (hfire : ∀ n timing old new,
  Mirrors S Never (fire hook n timing .insert old new) (fire hook n timing .insert old new))

include hfire

theorem insertOne (n : TableName) (values : Tuple) :
    Mirrors S Never (insertOne hook n values) (insertOne hook n values) := by
  refine (h.table n).bind fun t => (mirrors_ofExcept _).bind fun accepted => ?_
  refine (h.changeStore _).bind fun _ => (hfire n _ _ _).bind fun _ => ?_
  refine (h.table n).bind fun t => (mirrors_ofExcept _).bind fun _ => ?_
  refine (h.changeStore _).bind fun _ => (h.log _).bind fun _ => ?_
  exact (hfire n _ _ _).bind fun _ => mirrors_pure _

theorem insert (n : TableName) (rows : List Tuple) :
    Mirrors S Never (insert hook n rows) (insert hook n rows) := by
  refine h.prepareWrite.bind fun _ => ?_
  refine (mirrors_mapM fun row _ => h.insertOne hfire n row).bind fun inserted => ?_
  refine (h.table n).bind fun t => (h.changeStore _).bind fun _ => ?_
  exact (h.log _).bind fun _ => mirrors_pure _

end Companions

/-! ## Twins -/

namespace Database

/-- The databases differ at most in the number of the next transaction, and triggers are quiet. -/
structure Twin (a b : Database) : Prop where
  eq : a = { b with nextVersion := a.nextVersion }
  quiet : b.Quiet

theorem Twin.store_eq {a b : Database} (h : Twin a b) : a.store = b.store := by
  rw [h.eq]

theorem Twin.trace_eq {a b : Database} (h : Twin a b) : a.trace = b.trace := by
  rw [h.eq]

theorem Twin.registrations_eq {a b : Database} (h : Twin a b) :
    a.registrations = b.registrations := by
  rw [h.eq]

/-- Changing both in the same way keeps them twins, if it keeps triggers quiet. -/
theorem Twin.change {a b : Database} (h : Twin a b) (f : Database → Database)
    (hf : ∀ (db : Database) (version : Nat),
      f { db with nextVersion := version } = { f db with nextVersion := version })
    (hquiet : (f b).Quiet) : Twin (f a) (f b) := by
  have hversion : f a = { f b with nextVersion := a.nextVersion } := by
    rw [← hf]
    exact congrArg f h.eq
  have hnumber : (f a).nextVersion = a.nextVersion := by
    rw [hversion]
  refine ⟨?_, hquiet⟩
  rw [hnumber]
  exact hversion

/-- A call is steady if its results do not depend on the number of the next transaction. -/
abbrev Steady {α : Type} (c : Run Database α) : Prop := Mirrors Twin Never c c

theorem steady_callTrigger (r : Registration) (call : TriggerCall) :
    Steady (callTrigger r call) := by
  refine mirrors_get_bind fun a b hab => ?_
  rw [hab.trace_eq]
  let record (db : Database) : Database :=
    { db with trace := b.trace ++ [⟨r.serial, r.definition.name, call⟩] }
  have hset : Twin (record a) (record b) := hab.change record (fun _ _ => rfl) hab.quiet
  exact (mirrors_set hset).bind fun _ => mirrors_pure _

theorem steady_failWith (reaction : Reaction) : Steady (failWith reaction) := by
  unfold failWith
  split
  · exact mirrors_throw _
  · exact mirrors_pure _

theorem steady_notify (r : Registration) (call : TriggerCall) : Steady (notify r call) :=
  (steady_callTrigger r call).bind steady_failWith

theorem steady_asTrigger {α : Type} (r : Registration) {call : Run Database α} (h : Steady call) :
    Steady (asTrigger r call) := by
  refine h.attempt.bind fun result => ?_
  cases result with
  | ok a => exact mirrors_pure a
  | error e => exact mirrors_throw _

/-- A quiet trigger has nothing for the hook to run. -/
theorem steady_fireOne (hook : Hook) (old new : Option Row) {r : Registration}
    (hr : r.trigger.Quiet) : Steady (fireOne hook old new r) := by
  refine steady_asTrigger r (mirrors_get_bind fun a b hab => ?_)
  have hvisible : a.visibleRows r.definition.fullName = b.visibleRows r.definition.fullName := by
    unfold visibleRows
    rw [hab.store_eq]
  rw [hvisible]
  intro a' b' hab'
  let call := TriggerCall.fire old new (b.visibleRows r.definition.fullName)
  -- what the trigger reacts with has no statements
  have hsql : ∀ db, ∃ reaction db', exec (callTrigger r call) db = (.ok reaction, db') ∧
      reaction.sql = none := fun db => ⟨_, _, rfl, hr _⟩
  obtain ⟨reaction, db, hcall, hnone⟩ := hsql b'
  obtain ⟨reaction', db', hcall', -⟩ := hsql a'
  obtain ⟨hresult, hstate⟩ := (steady_callTrigger r call).same hab'
  rw [hcall, hcall'] at hresult hstate
  cases hresult
  rw [exec_bind_ok hcall, exec_bind_ok hcall', hnone]
  exact steady_failWith reaction db' db hstate

/-- Firing the triggers of a database in which all are quiet. -/
theorem steady_fire (hook : Hook) (o : Occasion) (old new : Option Row) :
    Steady (fire hook o old new) := by
  refine mirrors_get_bind fun a b hab => ?_
  rw [hab.registrations_eq]
  refine mirrors_forM fun r hr => ?_
  exact steady_fireOne hook old new (hab.quiet r (List.mem_filter.mp hr).1)

theorem steady_unregister (n : TableName) (name : String) : Steady (unregister n name) := by
  refine mirrors_get_bind fun a b hab => ?_
  rw [hab.registrations_eq]
  cases b.registrations.find? fun r => r.definition.isNamed n name with
  | none => exact mirrors_throw _
  | some r =>
    let others := b.registrations.filter fun q => q.serial != r.serial
    have hquiet : Quiet { b with registrations := others } :=
      fun q hq => hab.quiet q (List.mem_filter.mp hq).1
    have hset := hab.change (fun db => { db with registrations := others }) (fun _ _ => rfl) hquiet
    refine (mirrors_set hset).bind fun _ => steady_asTrigger r ?_
    exact (steady_notify r .remove).bind fun _ => steady_notify r .close

theorem steady_dropTriggers (n : TableName) : Steady (dropTriggers n) := by
  refine mirrors_get_bind fun a b hab => ?_
  rw [hab.registrations_eq]
  exact mirrors_forM fun r _ => steady_unregister n r.definition.name

end Database

/-- The databases are twins, and the transactions are active and logged the same. -/
structure Work.Twin (w v : Work) : Prop where
  database : w.database.Twin v.database
  active : w.transaction.state = .active
  active' : v.transaction.state = .active
  undo_eq : w.transaction.undo = v.transaction.undo

theorem Work.Twin.store_eq {w v : Work} (h : w.Twin v) : w.database.store = v.database.store :=
  h.database.store_eq

theorem companions_twin : Companions Work.Twin where
  store_eq := Work.Twin.store_eq
  active := Work.Twin.active
  active' := Work.Twin.active'
  undo_eq := Work.Twin.undo_eq
  changed store _ _ h hactive hactive' hundo :=
    ⟨h.database.change (fun db => { db with store }) (fun _ _ => rfl) h.database.quiet, hactive, hactive', hundo⟩

namespace Action

/-- A call is steady if its results depend neither on the number of the next transaction nor on what
kind of transaction it works for. -/
abbrev Steady {α : Type} (act : Action α) : Prop := Mirrors Work.Twin Never act act

/-! ## Reading -/

theorem steady_onDatabase {α : Type} {call : Run Database α} (h : Database.Steady call) :
    Steady (onDatabase call) := by
  intro w v hwv
  obtain ⟨hresult, hstate⟩ := h.same hwv.database
  exact Or.inr ⟨hresult, hstate, hwv.active, hwv.active', hwv.undo_eq⟩

theorem steady_ensureActive : Steady ensureActive := companions_twin.ensureActive

theorem steady_store : Steady store := companions_twin.store

theorem steady_table (n : TableName) : Steady (table n) := companions_twin.table n

theorem steady_hasSchema (name : String) : Steady (hasSchema name) :=
  steady_store.bind fun _ => mirrors_pure _

theorem steady_definition? (n : TableName) : Steady (definition? n) :=
  steady_store.bind fun _ => mirrors_pure _

theorem steady_fire (hook : Hook) (n : TableName) (timing : TriggerTiming)
    (operation : TableOperation) (old new : Option Row) :
    Steady (fire hook n timing operation old new) :=
  steady_onDatabase (Database.steady_fire hook _ old new)

theorem steady_scan (hook : Hook) (n : TableName) : Steady (scan hook n) := by
  refine steady_ensureActive.bind fun _ => (steady_fire hook n _ _ _ _).bind fun _ => ?_
  refine (steady_table n).bind fun t => (steady_fire hook n _ _ _ _).bind fun _ => ?_
  exact mirrors_pure _

/-! ## The transaction itself -/

theorem steady_log (u : Undo) : Steady (log u) := companions_twin.log u

theorem steady_beginStatement : Steady beginStatement :=
  steady_ensureActive.bind fun _ => companions_twin.modifyTransaction (fun _ => rfl) fun _ _ _ => rfl

theorem steady_prepareWrite : Steady prepareWrite := companions_twin.prepareWrite

/-! ## Changing rows -/

theorem steady_changeStore (f : Store → Except Error Store) : Steady (changeStore f) :=
  companions_twin.changeStore f

theorem steady_insert (hook : Hook) (n : TableName) (rows : List Tuple) : Steady (insert hook n rows) :=
  companions_twin.insert (fun n timing old new => steady_fire hook n timing .insert old new) n rows

theorem steady_update (hook : Hook) (n : TableName) (id : Nat) (values : Tuple) :
    Steady (update hook n id values) := by
  refine steady_prepareWrite.bind fun _ => (steady_table n).bind fun t => ?_
  refine (mirrors_ofExcept _).bind fun old => (mirrors_ofExcept _).bind fun accepted => ?_
  refine (steady_fire hook n _ _ _ _).bind fun _ => (steady_table n).bind fun t => ?_
  refine (mirrors_ofExcept _).bind fun _ => (steady_changeStore _).bind fun _ => ?_
  refine (steady_log _).bind fun _ => (steady_fire hook n _ _ _ _).bind fun _ => ?_
  exact mirrors_pure _

theorem steady_delete (hook : Hook) (n : TableName) (id : Nat) : Steady (delete hook n id) := by
  refine steady_prepareWrite.bind fun _ => (steady_table n).bind fun t => ?_
  refine (mirrors_ofExcept _).bind fun old => (steady_fire hook n _ _ _ _).bind fun _ => ?_
  refine (steady_table n).bind fun t => (steady_changeStore _).bind fun _ => ?_
  exact (steady_log _).bind fun _ => steady_fire hook n _ _ _ _

/-! ## Schemas and tables -/

theorem steady_alter (f : Store → Except Error Store) :
    Steady (ensureActive >>= fun _ => changeStore f) :=
  steady_ensureActive.bind fun _ => steady_changeStore f

theorem steady_dropTable (n : TableName) : Steady (dropTable n) := by
  refine steady_ensureActive.bind fun _ => (steady_changeStore _).bind fun _ => ?_
  exact steady_onDatabase (Database.steady_dropTriggers n)

end Action

end SqlStore
