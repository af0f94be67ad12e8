import SqlStore.Proofs.Session.Inserting
import SqlStore.Proofs.Session.ScanCosts

/-!
# What triggers hear of a statement

A trigger fires at one operation, and it answers by the calls that it got itself. Reading calls triggers of
scans only, so triggers of other operations hear nothing of it (`Database.Spares`). And what is inserted goes in
the same way into two databases if the triggers of insertions have heard the same so far (`Database.Abreast`).
-/

namespace SqlStore

open Run

namespace Database

variable {o : TableOperation} {db db' db'' : Database}

/-! ## Reading -/

/-- Triggers of the operation were not called. -/
structure Spares (o : TableOperation) (db db' : Database) : Prop where
  registrations_eq : db'.registrations = db.registrations
  calls_eq : ∀ r ∈ db.registrations, r.definition.operation = o →
    db'.registry.calls r.serial = db.registry.calls r.serial

theorem Spares.refl (o : TableOperation) (db : Database) : db.Spares o db := ⟨rfl, fun _ _ _ => rfl⟩

theorem Spares.trans (h : db.Spares o db') (h' : db'.Spares o db'') : db.Spares o db'' where
  registrations_eq := h'.registrations_eq.trans h.registrations_eq
  calls_eq r hr ho := (h'.calls_eq r (h.registrations_eq ▸ hr) ho).trans (h.calls_eq r hr ho)

end Database

/-- In a quiet database with numbers that tell triggers apart, triggers of the operation were not called. -/
def Work.Spares (o : TableOperation) (w w' : Work) : Prop :=
  w.database.Quiet → (w.database.registrations.map Registration.serial).Nodup →
    w.database.Spares o w'.database

instance (o : TableOperation) : Std.Refl (Work.Spares o) := ⟨fun w _ _ => .refl o w.database⟩

instance (o : TableOperation) : IsTrans Work (Work.Spares o) where
  trans w v u h k hq hserials := by
    have hv := h hq hserials
    refine hv.trans (k ?_ ?_)
    · unfold Database.Quiet
      rw [hv.registrations_eq]
      exact hq
    · rw [hv.registrations_eq]
      exact hserials

namespace Action

variable {o : TableOperation}

end Action

/-! ## Inserting -/

namespace Database

variable {o : TableOperation} {rs : List Registration} {a b : Database}

/-- The databases have the same store and these triggers, and those of the operation got the same calls. -/
structure Abreast (o : TableOperation) (rs : List Registration) (a b : Database) : Prop where
  store_eq : a.store = b.store
  registrations_eq : a.registrations = rs
  registrations_eq' : b.registrations = rs
  calls_eq : ∀ r ∈ rs, r.definition.operation = o → a.registry.calls r.serial = b.registry.calls r.serial

/-- A call of one trigger that both record. -/
theorem Abreast.record (h : a.Abreast o rs b) (r : Registration) (call : TriggerCall) :
    (a.withRegistry (a.registry.record r call)).Abreast o rs (b.withRegistry (b.registry.record r call)) := by
  refine ⟨h.store_eq, h.registrations_eq, h.registrations_eq', fun q hq ho => ?_⟩
  show (a.registry.record r call).calls q.serial = (b.registry.record r call).calls q.serial
  by_cases heq : r.serial = q.serial
  · rw [← heq, Registry.calls_record_self, Registry.calls_record_self, heq, h.calls_eq q hq ho]
  · rw [Registry.calls_record_of_ne heq, Registry.calls_record_of_ne heq, h.calls_eq q hq ho]

theorem Abreast.mirrors_notify {r : Registration} (hr : r ∈ rs) (ho : r.definition.operation = o)
    (call : TriggerCall) : Mirrors (Abreast o rs) Never (notify r call) (notify r call) := by
  refine mirrors_of_exec fun a b h => ⟨_, _, _, exec_notify r call a, ?_, h.record r call⟩
  rw [exec_notify, h.calls_eq r hr ho]

end Database

/-- The databases are abreast, and the transactions are active and logged the same. -/
structure Work.Abreast (o : TableOperation) (rs : List Registration) (w v : Work) : Prop where
  database : w.database.Abreast o rs v.database
  active : w.transaction.state = .active
  active' : v.transaction.state = .active
  undo_eq : w.transaction.undo = v.transaction.undo

namespace Action

variable {rs : List Registration}

end Action

end SqlStore
