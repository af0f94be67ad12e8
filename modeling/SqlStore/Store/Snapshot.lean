import SqlStore.Store.Basic

/-!
# Snapshots

A snapshot is a picture of all tables of a store. It keeps exact decimals and documents as text, so
these come back as their text reads. Restoring puts every table of the store back into its
pictured state if the picture has it under the same definition; every other table loses its rows.
Tables that were dropped stay dropped.
-/

namespace SqlStore

namespace Value

/-- The value as a snapshot gives it back. -/
def pictured : Value → Value
  | numeric d => numeric ((Numeric.parse? d.text).getD d)
  | json j => match Json.parse j.text with
    | .ok k => json k
    | .error _ => json j
  | v => v

end Value

namespace Column

/-- The column as a snapshot gives it back. -/
def pictured (c : Column) : Column := { c with default := c.default.map Value.pictured }

end Column

namespace TableDefinition

/-- The definition as a snapshot gives it back. -/
def pictured (d : TableDefinition) : TableDefinition :=
  { d with columns := d.columns.map Column.pictured }

end TableDefinition

namespace Table

/-- The table as a snapshot gives it back. -/
def pictured (t : Table) : Table :=
  { t with
    definition := t.definition.pictured
    rows := t.rows.map fun r => r.withValues (r.values.map Value.pictured)
    lastKeys := t.lastKeys.map fun key => key.map Value.pictured }

/-- Puts a table back to its picture, if the definitions are the same. -/
def restoredFrom (t : Table) (picture : Option Table) : Table :=
  match picture with
  | some p => if p.definition.same t.definition then { p with definition := t.definition }
    else t.clear
  | none => t.clear

end Table

/-- The pictures of all tables of a store. -/
structure Snapshot where
  tables : List Table

namespace Snapshot

/-- Takes a picture of every table. -/
def capture (s : Store) : Snapshot := ⟨s.tables.map Table.pictured⟩

/-- The picture of a table of a name. -/
def table? (snapshot : Snapshot) (n : TableName) : Option Table :=
  snapshot.tables.find? fun t => t.definition.fullName == n

/-- Puts the tables of a store back to their pictures. -/
def restore (snapshot : Snapshot) (s : Store) : Store :=
  { s with tables := s.tables.map fun t =>
      t.restoredFrom (snapshot.table? t.definition.fullName) }

end Snapshot

end SqlStore
