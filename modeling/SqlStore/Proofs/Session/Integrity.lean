import SqlStore.Proofs.Session.Sample
import SqlStore.Proofs.Store.Restoring
import SqlStore.Proofs.Table.Sound

/-!
# The integrity of stored rows

However the statements of sessions interleave, and whether they succeed or fail, every row of every
table is stored under its own number, has the form that the definition gives rows, and differs from the
other rows where a column demands it. An open transaction of one session may be rolled back after
statements of others, so the tables in its snapshot have to be sound as well.
-/

namespace SqlStore

namespace Engine

/-- Run an engine, from its first moment on, through any events. If snapshots lose nothing, then every
table of its store is sound. -/
theorem run_keeps_tables_sound (config : Config) (clock : Timestamp) (events : List Event)
    (hlossless : ∀ k, ((open_ config clock).run (events.take k)).store.Lossless) :
    ∀ t ∈ ((open_ config clock).run events).store.tables,
      (∀ r ∈ t.rows, t.row? r.id = some r ∧ 1 ≤ r.id ∧ r.id < t.nextId) ∧
      (∀ r ∈ t.rows, r.values.length = t.definition.columns.length ∧
        t.definition.accept r.values = .ok r.values ∧
        List.Forall₂ Column.Allows t.definition.columns r.values) ∧
      (∀ r ∈ t.rows, ∀ q ∈ t.rows, r ≠ q → ∀ i c, t.definition.columns[i]? = some c →
        c.isUnique = true →
        (r.values.getD i .null).compare (q.values.getD i .null) ≠ .ok (some .eq)) := by
  have hpictured : ∀ k, ((open_ config clock).run (events.take k)).store.Pictured Table.Sound := by
    intro k t ht hsound
    rw [hlossless k t ht]
    exact hsound
  -- soundness goes along the run, in the store and in the snapshots that are held
  have hinv := (inv_open config clock).run Table.invariant_sound events hpictured
  intro t ht
  have hsound : t.Sound := (hinv 0).tables t ht
  refine ⟨?_, ?_, ?_⟩
  · intro r hr
    exact ⟨hsound.keyed.row?_self hr, hsound.keyed.positive r hr, hsound.keyed.below r hr⟩
  · intro r hr
    have hformed := hsound.formed r hr
    exact ⟨hformed.length_eq.symm, TableDefinition.accept_of_formed hformed,
      hformed.imp fun _ _ => Column.allows_of_formed⟩
  · intro r hr q hq hne
    have hid : r.id ≠ q.id := fun hid => hne (hsound.keyed.ordered.eq_of_id_eq hr hq hid)
    exact hsound.differ r hr q hq hid

end Engine

namespace Sample

/-- A second session inserts, tries a code that is taken, and rolls back after an update of the
first. -/
def crossing : List Event :=
  filling ++ [.statement 1 (.begin_ none), .statement 1 (insertItems [30]),
    .statement 0 (insertItems [40]), .statement 1 (insertItems [10]), .statement 1 .rollback,
    .statement 0 (updateItems 5), .statement 0 (insertItems [50])]

theorem crossing_keeps_tables_sound :
    let store := ((Engine.open_ Config.standard midnight).run crossing).store
    (store.tables.map fun t => t.rows.length) = [3] ∧
      ∀ t ∈ store.tables, ∀ r ∈ t.rows, t.row? r.id = some r ∧ 1 ≤ r.id ∧ r.id < t.nextId := by
  have hplain : ∀ k ≤ crossing.length,
      ((Engine.open_ Config.standard midnight).run
        (crossing.take k)).store.tables.all Table.isPlain = true := by
    decide +kernel
  -- the prefixes that are longer than the run are the run
  have hlossless : ∀ k,
      ((Engine.open_ Config.standard midnight).run (crossing.take k)).store.Lossless := by
    intro k
    rcases Nat.le_total k crossing.length with hle | hge
    · exact Store.lossless_of_isPlain (hplain k hle)
    · rw [List.take_of_length_le hge, ← List.take_length (l := crossing)]
      exact Store.lossless_of_isPlain (hplain _ le_rfl)
  refine ⟨by decide +kernel, ?_⟩
  intro t ht
  exact (Engine.run_keeps_tables_sound Config.standard midnight crossing hlossless t ht).1

end Sample

end SqlStore
