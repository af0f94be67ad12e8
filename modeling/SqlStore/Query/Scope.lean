import SqlStore.Table.Definition

/-!
# Names in scope

A column of results has a name and may belong to a table. An expression sees frames: first the one
of its own query, then those of the queries around it. A frame binds the columns of one row and,
where rows are grouped, holds the rows of the group. A name belongs to the first frame that has it,
and must not fit two columns of that frame.
-/

namespace SqlStore

/-- A column of results; the type may be unknown. -/
structure ResultColumn where
  table : Option String
  name : String
  datatype : Option DataType
deriving Repr, DecidableEq

/-- Rows with their columns. -/
structure Relation where
  columns : List ResultColumn
  rows : List Tuple

/-- The columns of a row, and the rows of its group. -/
structure Frame where
  columns : List ResultColumn
  row : Tuple
  group : Option (List Tuple)

/-- The frames that an expression sees, its own first. -/
abbrev Scope := List Frame

/-- The columns of a table under another name or its own. -/
def TableDefinition.resultColumns (t : TableDefinition) (label : Option String) :
    List ResultColumn :=
  t.columns.map fun c => ⟨some (label.getD t.name), c.name, some c.datatype⟩

namespace ResultColumn

/-- Whether a reference, with or without a table, fits the column. -/
def fits (table : Option String) (name : String) (c : ResultColumn) : Bool :=
  c.name == name && (table.isNone || c.table == table)

/-- The place of the one column that a reference fits, if any. -/
def resolve (columns : List ResultColumn) (table : Option String) (name : String) :
    Except Error (Option Nat) :=
  match columns.findIdx? (fits table name) with
  | none => .ok none
  | some i =>
    if (columns.drop (i + 1)).any (fits table name) then
      .error (.execution ("column reference " ++ quoteName name ++ " is ambiguous"))
    else .ok (some i)

/-- The failure of a reference that fits no column. -/
def unknown (table : Option String) (name : String) : Error :=
  match table with
  | some t => .execution ("column " ++ t ++ "." ++ name ++ " does not exist")
  | none => .execution ("column " ++ quoteName name ++ " does not exist")

end ResultColumn

namespace Frame

/-- A frame of a single row. -/
def ofRow (columns : List ResultColumn) (row : Tuple) : Frame := ⟨columns, row, none⟩

/-- A frame that only has columns. -/
def ofColumns (columns : List ResultColumn) : Frame := ⟨columns, [], none⟩

end Frame

namespace Scope

/-- The value of a reference. -/
def value : Scope → Option String → String → Except Error Value
  | [], table, name => .error (ResultColumn.unknown table name)
  | frame :: outer, table, name => do
    match ← ResultColumn.resolve frame.columns table name with
    | some i => match frame.row[i]? with
      | some v => .ok v
      | none => .error (.internal ("row has no value for column " ++ name))
    | none => value outer table name

/-- Whether a reference belongs to some frame. -/
def binds : Scope → Option String → String → Except Error Bool
  | [], _, _ => .ok false
  | frame :: outer, table, name => do
    match ← ResultColumn.resolve frame.columns table name with
    | some _ => return true
    | none => binds outer table name

/-- The rows of the group of the own frame. -/
def group? (scope : Scope) : Option (List Tuple) := scope.head?.bind Frame.group

/-- The scope of one row of the group of the own frame. -/
def ofGroupRow (scope : Scope) (row : Tuple) : Scope :=
  match scope with
  | frame :: outer => Frame.ofRow frame.columns row :: outer
  | [] => []

end Scope

end SqlStore
