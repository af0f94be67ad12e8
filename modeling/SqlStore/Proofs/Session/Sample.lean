import SqlStore.Proofs.Check
import SqlStore.Proofs.Session.Engine
import SqlStore.Proofs.Store.Restoring

/-!
# A small engine

Statements on one table with a serial column and a primary key, and an engine that ran some of them.
Theorems with assumptions are applied to it, which shows that their assumptions can be met.
-/

namespace SqlStore

namespace Sample

/-- The first second of the calendar that dates count from. -/
def midnight : Timestamp := .ofDate ((Date.ofDay? 0).get rfl)

/-- A column of a statement, without a default. -/
def column (name : String) (serial primaryKey : Bool) : ColumnSpec :=
  { name
    type := ⟨.integer, none, serial⟩
    nullable := none
    default := none
    primaryKey
    unique := false }

/-- The name of the table. -/
def items : TableName := ⟨"public", "items"⟩

/-- `CREATE TABLE items (id SERIAL, code INTEGER PRIMARY KEY)` -/
def createItems : Statement :=
  .createTable ⟨none, "items"⟩ [column "id" true false, column "code" false true] false

/-- `INSERT INTO items (code) VALUES (...)` with one row for each code. -/
def insertItems (codes : List Int32) : Statement :=
  .insert ⟨none, "items"⟩ (some ["code"])
    (.values (codes.map fun n => [some (.literal (.integer n))]))

/-- `UPDATE items SET code = ...`, the same code in all rows. -/
def updateItems (code : Int32) : Statement :=
  .update ⟨none, "items"⟩ none [("code", .literal (.integer code))] none

/-- `DELETE FROM items` -/
def deleteItems : Statement := .delete ⟨none, "items"⟩ none none

/-- The table and two rows in it, made by session 0. -/
def filling : List Event :=
  [.statement 0 createItems, .statement 0 (insertItems [10, 20])]

/-- An engine with two items. -/
@[irreducible] def filled : Engine := (Engine.open_ Config.standard midnight).run filling

theorem filled_reachable : filled.Reachable := by
  unfold filled
  exact ⟨Config.standard, midnight, filling, rfl⟩

theorem filled_unregistered : filled.database.registrations = [] :=
  List.isEmpty_iff.mp (by decide +kernel)

theorem filled_idle : filled.sessions 1 = none := by
  unfold filled filling
  rw [Engine.run_cons, Engine.run_cons, Engine.run_nil, Engine.step, Engine.step, Engine.execute,
    Engine.sessions_after_of_ne _ _ Nat.one_ne_zero, Engine.execute,
    Engine.sessions_after_of_ne _ _ Nat.one_ne_zero]
  rfl

theorem filled_faithful : ∀ t ∈ filled.store.tables, t.Faithful := by
  have h : (filled.store.tables.all fun t => t.isPlain && t.definition.same t.definition) = true := by
    decide +kernel
  intro t ht
  obtain ⟨hplain, hsame⟩ := Bool.and_eq_true_iff.mp (List.all_eq_true.mp h t ht)
  exact ⟨Table.pictured_of_isPlain hplain, hsame⟩

theorem filled_lossless : filled.store.Lossless := fun t ht => (filled_faithful t ht).pictured_eq

/-- The engine with a transaction open in session 1. -/
@[irreducible] def begun : Engine := filled.execute 1 (.begin_ none)

theorem begun_reachable : begun.Reachable := by
  have h := filled_reachable.run [.statement 1 (.begin_ none)]
  rw [Engine.run_cons, Engine.run_nil] at h
  unfold begun
  exact h

end Sample

end SqlStore
