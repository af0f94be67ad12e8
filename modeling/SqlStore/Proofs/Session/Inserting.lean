import SqlStore.Proofs.Session.Updating
import SqlStore.Proofs.Table.Insertion

/-!
# Inserting row by row

An insertion first makes all its rows, which draws from the sequences of the table, and then stores one after
the other under the next numbers. Nothing but the table changes on the way.
-/

namespace SqlStore

open Run

namespace Action

variable {hook : Hook} {db : Database} {w w' : Work} {t : Table} {drawn : Nat} {supply : Supply}
  {c : Column} {cs : List Column}

/-! ## Making rows -/

end Action

end SqlStore
