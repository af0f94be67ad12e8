import SqlStore.Proofs.Session.Sample
import SqlStore.Proofs.Store.Restoring
import SqlStore.Proofs.Value.Reflexivity

/-!
# Restoring without a change

A snapshot that is restored at once should change nothing. It tells its tables by their definitions,
and a definition with a default that is not a number is not the same as itself: the picture of such a
table is not recognized, and the table loses its rows and its generated keys, as one does that was
dropped and made anew. All other tables stay as they are.
-/

namespace SqlStore

theorem Table.clear_eq_self {t : Table} : t.clear = t ↔ t.rows = [] ∧ t.lastKeys = [] := by
  constructor
  · intro h
    exact ⟨(congrArg rows h).symm, (congrArg lastKeys h).symm⟩
  · rintro ⟨hrows, hkeys⟩
    unfold clear
    rw [← hrows, ← hkeys]

namespace Snapshot

/-- A table next to the picture that was just taken of it. -/
theorem restoredFrom_pictured {t : Table} (h : t.pictured = t) :
    t.restoredFrom (some t.pictured) = if t.definition.hasNaNDefault then t.clear else t := by
  rw [h]
  show (if t.definition.same t.definition then t else t.clear) = _
  rw [TableDefinition.same_self]
  cases t.definition.hasNaNDefault <;> rfl

/-- Restoring at once empties the tables with a default that is not a number. -/
theorem restore_capture {s : Store} (hd : s.Distinct) (hlossless : s.Lossless) :
    (capture s).restore s =
      { s with tables := s.tables.map fun t =>
          if t.definition.hasNaNDefault then t.clear else t } := by
  unfold restore
  congr 1
  refine List.map_congr_left ?_
  intro t ht
  rw [table?_capture, hd.table?_of_mem ht]
  exact restoredFrom_pictured (hlossless t ht)

/-- Restoring at once is the identity just if those tables have nothing to lose. -/
theorem restore_capture_eq_self_iff {s : Store} (hd : s.Distinct) (hlossless : s.Lossless) :
    (capture s).restore s = s ↔
      ∀ t ∈ s.tables, t.definition.hasNaNDefault = true → t.rows = [] ∧ t.lastKeys = [] := by
  rw [restore_capture hd hlossless]
  constructor
  · intro h t ht hnan
    have htables : (s.tables.map fun t => if t.definition.hasNaNDefault then t.clear else t) =
        s.tables.map id := (congrArg Store.tables h).trans (List.map_id _).symm
    have hclear := List.map_inj_left.mp htables t ht
    rw [if_pos hnan] at hclear
    exact Table.clear_eq_self.mp hclear
  · intro h
    have htables : (s.tables.map fun t => if t.definition.hasNaNDefault then t.clear else t) =
        s.tables := by
      refine (List.map_congr_left ?_).trans (List.map_id _)
      intro t ht
      split
      · next hnan => exact Table.clear_eq_self.mpr (h t ht hnan)
      · rfl
    rw [htables]

end Snapshot

namespace Engine

/-- A snapshot of a store that SQL can reach, restored with no change in between: a table with a
default that is not a number keeps its numbers and sequences only, every other table is as it was. So
the store is as it was just if the former have no rows and no generated keys. -/
theorem restore_capture_iff {e : Engine} (he : e.Reachable) (hlossless : e.store.Lossless) :
    (Snapshot.capture e.store).restore e.store =
        { e.store with tables := e.store.tables.map fun t =>
            if t.definition.hasNaNDefault then t.clear else t } ∧
      ((Snapshot.capture e.store).restore e.store = e.store ↔
        ∀ t ∈ e.store.tables, t.definition.hasNaNDefault = true →
          t.rows = [] ∧ t.lastKeys = []) := by
  have hd : e.store.Distinct := (he.inv 0).distinct
  exact ⟨Snapshot.restore_capture hd hlossless, Snapshot.restore_capture_eq_self_iff hd hlossless⟩

end Engine

namespace Sample

/-- `CREATE TABLE readings (code INTEGER, level DOUBLE PRECISION DEFAULT 'NaN')` -/
def createReadings : Statement :=
  .createTable ⟨none, "readings"⟩
    [column "code" false false,
      { column "level" false false with
        type := ⟨.double, none, false⟩
        default := some (.literal (.text "NaN")) }] false

/-- `INSERT INTO readings (code) VALUES (1)` -/
def insertReading : Statement :=
  .insert ⟨none, "readings"⟩ (some ["code"]) (.values [[some (.literal (.integer 1))]])

/-- An engine with one reading, whose level is the default. -/
@[irreducible] def measured : Engine :=
  (Engine.open_ Config.standard midnight).run
    [.statement 0 createReadings, .statement 0 insertReading]

theorem measured_reachable : measured.Reachable := by
  unfold measured
  exact ⟨Config.standard, midnight, _, rfl⟩

theorem restore_capture_items :
    filled.store.Lossless ∧ (Snapshot.capture filled.store).restore filled.store = filled.store := by
  have hnumbers : ∀ t ∈ filled.store.tables, t.definition.hasNaNDefault = false := by
    intro t ht
    have hsame := (filled_faithful t ht).same
    rw [TableDefinition.same_self] at hsame
    simpa using hsame
  refine ⟨filled_lossless, (Engine.restore_capture_iff filled_reachable filled_lossless).2.mpr ?_⟩
  intro t ht hnan
  rw [hnumbers t ht] at hnan
  cases hnan

/-- The reading is lost, so restoring at once is not the identity in general. -/
theorem restore_capture_loses_reading :
    ¬ ∀ e : Engine, e.Reachable → e.store.Lossless →
      (Snapshot.capture e.store).restore e.store = e.store := by
  intro h
  have hlossless : measured.store.Lossless := Store.lossless_of_isPlain (by with_unfolding_all rfl)
  have hback := congrArg (fun s : Store => s.tables.map fun t => t.rows.length)
    (h measured measured_reachable hlossless)
  have hlost : (((Snapshot.capture measured.store).restore measured.store).tables.map
      fun t => t.rows.length) ≠ measured.store.tables.map fun t => t.rows.length := by
    with_unfolding_all decide
  exact hlost hback

end Sample

end SqlStore
