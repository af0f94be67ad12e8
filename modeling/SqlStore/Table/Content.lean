import SqlStore.Table.Definition

/-!
# Tables

A table is a definition and what was put under it: rows ordered by their numbers, the next number
to give out, the last value of each sequence, and the keys that the last insertion generated.
`Table.row?` is the view of the rows: it says what is stored under a number.
-/

namespace SqlStore

/-- A table with its rows. -/
structure Table where
  definition : TableDefinition
  rows : List Row
  nextId : Nat
  sequences : List (String × Int)
  lastKeys : List Tuple

namespace Table

/-- The empty table of a definition. -/
def ofDefinition (definition : TableDefinition) : Table := ⟨definition, [], 1, [], []⟩

/-- The row of a number. -/
def row? (t : Table) (id : Nat) : Option Row := t.rows.find? fun r => r.id == id

/-- Puts a row into rows ordered by number, in the place of one with that number. -/
def putInto (row : Row) : List Row → List Row
  | [] => [row]
  | r :: rs =>
    if row.id == r.id then row :: rs
    else if row.id < r.id then row :: r :: rs
    else r :: putInto row rs

/-- Stores a row. -/
def put (t : Table) (row : Row) : Table := { t with rows := putInto row t.rows }

/-- Removes the row of a number. -/
def remove (t : Table) (id : Nat) : Table :=
  { t with rows := t.rows.filter fun r => r.id != id }

/-- Gives out the next row number. -/
def allocate (t : Table) : Nat × Table := (t.nextId, { t with nextId := t.nextId + 1 })

/-- Puts the last value of a sequence into a list of sequences. -/
def putSequence (column : String) (value : Int) : List (String × Int) → List (String × Int)
  | [] => [(column, value)]
  | (c, v) :: rest =>
    if c == column then (column, value) :: rest else (c, v) :: putSequence column value rest

/-- The next value of a column's sequence, which starts with one. -/
def nextSequence (t : Table) (column : String) : Except Error (Int × Table) :=
  let next := (t.sequences.lookup column).getD 0 + 1
  if 9223372036854775808 ≤ next then
    .error (.execution ("sequence for column " ++ column ++ " of relation " ++ t.definition.name ++
      " reached its maximum"))
  else .ok (next, { t with sequences := putSequence column next t.sequences })

/-- The key that an insertion generated: the values of the serial columns, or the row number where
there are none. -/
def generatedKey (t : Table) (row : Row) : Tuple :=
  let serials := ((t.definition.columns.zip row.values).filter fun (c, _) => c.autoIncrement).map
    Prod.snd
  if serials.isEmpty then [.bigInt (Int64.ofNat row.id)] else serials

/-- The failure of a value that is there already. -/
def duplicate (t : Table) (c : Column) (v : Value) : Error :=
  .rule ("duplicate key value violates unique constraint on " ++ t.definition.name ++ "." ++
    c.name ++ ": " ++ v.toText)

/-- No row but the skipped one has the value in the column. -/
def checkValue (t : Table) (skip : Option Nat) (c : Column) (index : Nat) (v : Value) :
    List Row → Except Error Unit
  | [] => .ok ()
  | r :: rs => do
    if some r.id != skip then
      if (← (r.values.getD index .null).compare v) == some .eq then throw (t.duplicate c v)
    checkValue t skip c index v rs

/-- The values of columns that have to differ are not in another row; NULLs do not conflict. -/
def checkColumns (t : Table) (skip : Option Nat) (values : Tuple) :
    List (Column × Nat) → Except Error Unit
  | [] => .ok ()
  | (c, index) :: rest => do
    let v := values.getD index .null
    if c.isUnique && !v.isNull then t.checkValue skip c index v t.rows
    checkColumns t skip values rest

/-- The values conflict with no row but the skipped one. -/
def checkUnique (t : Table) (values : Tuple) (skip : Option Nat) : Except Error Unit :=
  t.checkColumns skip values t.definition.columns.zipIdx

/-- The table without rows and generated keys. Numbers and sequences go on. -/
def clear (t : Table) : Table := { t with rows := [], lastKeys := [] }

theorem find?_putInto_self {row : Row} {rows : List Row} :
    (putInto row rows).find? (fun r => r.id == row.id) = some row := by
  induction rows with
  | nil => simp [putInto]
  | cons r rs ih =>
    unfold putInto
    split
    · simp
    · split
      · simp
      · next h _ =>
        have hr : (r.id == row.id) = false := beq_false_of_ne fun he => h (by simp [he])
        simpa only [List.find?_cons, hr] using ih

theorem find?_putInto_of_ne {row : Row} {rows : List Row} {id : Nat} (h : id ≠ row.id) :
    (putInto row rows).find? (fun r => r.id == id) = rows.find? (fun r => r.id == id) := by
  have hf : (row.id == id) = false := beq_false_of_ne (Ne.symm h)
  induction rows with
  | nil => simp [putInto, hf]
  | cons r rs ih =>
    unfold putInto
    split
    · next he =>
      have hr : (r.id == id) = false := by rw [← beq_iff_eq.mp he]; exact hf
      simp only [List.find?_cons, hf, hr]
    · split
      · simp only [List.find?_cons, hf]
      · simp only [List.find?_cons, ih]

theorem row?_put_self {t : Table} {row : Row} : (t.put row).row? row.id = some row :=
  find?_putInto_self

theorem row?_put_of_ne {t : Table} {row : Row} {id : Nat} (h : id ≠ row.id) :
    (t.put row).row? id = t.row? id := find?_putInto_of_ne h

theorem row?_remove_self {t : Table} {id : Nat} : (t.remove id).row? id = none := by
  simp [row?, remove]

theorem row?_remove_of_ne {t : Table} {id other : Nat} (h : other ≠ id) :
    (t.remove id).row? other = t.row? other := by
  unfold row? remove
  simp only [List.find?_filter]
  congr 1
  funext r
  by_cases hr : r.id = other
  · simp [hr, h]
  · simp [hr]

end Table

end SqlStore
