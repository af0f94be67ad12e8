import SqlStore.Query.Execution
import SqlStore.Transaction.Basic

/-!
# Statements on data

Statements that change schemas, tables and rows, and queries. Each is checked against the store
first and then done: names are resolved before an expression is evaluated, all rows to insert are
made before the first is stored, and an update reads only old rows of a scan that is over before
the first row changes.
-/

namespace SqlStore

/-- What a statement did. -/
inductive Outcome where
  | begun (version : Nat) (isolation : Isolation)
  | committed (version : Nat)
  | rolledBack (version : Nat)
  | schemaCreated (name : String)
  | schemaDropped (name : String)
  | tableCreated (name : String)
  | tablesDropped (names : List String)
  | inserted (count : Nat)
  | updated (count : Nat)
  | deleted (count : Nat)
  | selected (relation : Relation)

/-- The full name of a table; `schema` is that of names without one. -/
def ObjectName.inSchema (n : ObjectName) (schema : String) : TableName :=
  ⟨n.schema.getD schema, n.name⟩

namespace Action

/-- The schema of names without one. -/
def defaultSchema : Action String := return (← get).database.config.defaultSchema

/-- The full name of a table. -/
def fullName (n : ObjectName) : Action TableName := return n.inSchema (← defaultSchema)

/-- The definitions of the tables of the store. -/
def catalog : Action Catalog := do
  let schema ← defaultSchema
  let store ← store
  return fun n => (store.table (n.inSchema schema)).map Table.definition

/-- Calls a function. -/
def callFunction (name : String) (args : Tuple) : Action Value :=
  onDatabase do
    let db ← get
    set { db with drawn := db.drawn + 1 }
    ofExcept (db.callFunction name args)

/-- What the database offers to queries. -/
def services (hook : Hook) : Services Action :=
  { catalog
    scan := fun schema name => scan hook ⟨schema, name⟩
    call := callFunction }

/-- The definition of a table, or the failure. -/
def definition (n : ObjectName) : Action TableDefinition := do
  ofExcept ((← catalog) n)

/-! ## Schemas and tables -/

/-- Makes a schema, or leaves one that is there if it may be. -/
def createSchemaStatement (name : String) (ifNotExists : Bool) : Action Outcome := do
  if ← hasSchema name then
    if !ifNotExists then throw (Store.schemaExists name)
  else createSchema name
  return .schemaCreated name

/-- Drops a schema, or does nothing if it may be missing. -/
def dropSchemaStatement (name : String) (ifExists : Bool) : Action Outcome := do
  if ← hasSchema name then dropSchema name
  else if !ifExists then throw (Store.missingSchema name)
  return .schemaDropped name

/-- The column that is written. Serial columns and primary keys refuse NULL if nothing else is
said. A default is evaluated once and kept in the form of the column; NULL is none. -/
def columnOf (hook : Hook) (c : ColumnSpec) : Action Column := do
  let column : Column :=
    { name := c.name
      datatype := c.type.datatype
      nullable := c.nullable.getD (!c.primaryKey && !c.type.serial)
      default := none
      primaryKey := c.primaryKey
      unique := c.unique
      maxLength := c.type.length
      autoIncrement := c.type.serial }
  match c.default with
  | none => return column
  | some e =>
    ofExcept (e.checkClause [] "DEFAULT expressions")
    let v ← (services hook).evaluate [] e
    if v.isNull then return column
    return { column with default := some (← ofExcept (column.accept v)) }

/-- Makes a table, or leaves one that is there if it may be. -/
def createTableStatement (hook : Hook) (name : ObjectName) (columns : List ColumnSpec)
    (ifNotExists : Bool) : Action Outcome := do
  let n ← fullName name
  if !(← hasSchema n.schema) then throw (Store.missingSchema n.schema)
  let d : TableDefinition := ⟨n.schema, n.name, ← columns.mapM (columnOf hook)⟩
  ofExcept d.validate
  let present := (← definition? n).isSome
  if !(ifNotExists && present) then createTable d
  return .tableCreated n.name

/-- The tables to drop: all that are there, if those that are not may be missing. -/
def presentTables (ifExists : Bool) : List TableName → Action (List TableName)
  | [] => return []
  | n :: ns => do
    let present := (← definition? n).isSome
    if !present && !ifExists then
      throw (.execution ("table " ++ quoteName n.name ++ " does not exist"))
    let rest ← presentTables ifExists ns
    return if present then n :: rest else rest

/-- Drops tables; none of them if one is missing that may not be. -/
def dropTableStatement (names : List ObjectName) (ifExists : Bool) : Action Outcome := do
  let names ← names.mapM fullName
  let present ← presentTables ifExists names
  present.forM dropTable
  return .tablesDropped (present.map TableName.name)

/-! ## Insertion -/

/-- The places of named columns, each named once. -/
def targetPlaces (d : TableDefinition) (seen : List Nat) :
    List String → Except Error (List Nat)
  | [] => .ok []
  | name :: names => do
    let i ← d.columnIndex name
    require (!seen.contains i) ("column " ++ quoteName name ++ " specified more than once")
    return i :: (← targetPlaces d (i :: seen) names)

/-- The number of values fits the number of targets: there are not too many, and not too few for
targets that were named. -/
def checkWidth (named : Bool) (targets width : Nat) : Except Error Unit := do
  require (width ≤ targets) "INSERT has more expressions than target columns"
  require (!(named && width < targets)) "INSERT has more target columns than expressions"

/-- The value of a column that none was supplied for: of its sequence, or its default. -/
def defaultValue (n : TableName) (c : Column) : Action Value := do
  if c.autoIncrement then
    let next ← nextSequence n c.name
    ofExcept (c.datatype.convert (.bigInt (Int64.ofInt next)))
  else return c.default.getD .null

/-- The row that supplied values make: each at its target, the other columns by default. -/
def makeRow (d : TableDefinition) (targets : List Nat) (supplied : List (Option Value)) :
    Action Tuple :=
  d.columns.zipIdx.mapM fun (c, i) =>
    match ((targets.zip supplied).lookup i).join with
    | some v => return v
    | none => defaultValue d.fullName c

/-- The values that an insertion supplies. -/
def suppliedRows (hook : Hook) (named : Bool) (targets : Nat) :
    InsertSource → Action (List (List (Option Value)))
  | .values rows => do
    ofExcept (rows.forM fun row => do
      checkWidth named targets row.length
      row.forM fun e => e.forM (·.checkClause [] "VALUES"))
    rows.mapM fun row => row.mapM fun
      | some e => do return some (← (services hook).evaluate [] e)
      | none => return none
  | .query q => do
    let plan ← ofExcept (Plan.ofSelect (← catalog) [] q)
    ofExcept (checkWidth named targets plan.columns.length)
    let r ← plan.run ((services hook).access q.depth) []
    return r.rows.map fun row => row.map some

/-- Inserts rows. -/
def insertStatement (hook : Hook) (name : ObjectName) (columns : Option (List String))
    (source : InsertSource) : Action Outcome := do
  let d ← definition name
  let targets ← match columns with
    | some names => ofExcept (targetPlaces d [] names)
    | none => pure (List.range d.columns.length)
  let supplied ← suppliedRows hook columns.isSome targets.length source
  let rows ← supplied.mapM (makeRow d targets)
  let inserted ← insert hook d.fullName rows
  return .inserted inserted.length

/-! ## Update and deletion -/

/-- The rows of a table on which a condition is true. -/
def matchingRows (hook : Hook) (d : TableDefinition) (label : Option String)
    (condition : Option Expression) : Action (List Row) := do
  let rows ← scan hook d.fullName
  match condition with
  | none => return rows
  | some e =>
    let a := (services hook).access (exprDepth e)
    let columns := d.resultColumns label
    let kept ← rows.mapM fun row =>
      e.holds a.toSurroundings [Frame.ofRow columns row.values] "WHERE"
    return ((rows.zip kept).filter Prod.snd).map Prod.fst

/-- The places that assignments go to, each once; their expressions are checked on the way. -/
def assignmentPlaces (d : TableDefinition) (scope : Scope) (seen : List Nat) :
    List (String × Expression) → Except Error (List (Nat × Expression))
  | [] => .ok []
  | (name, e) :: rest => do
    let i ← d.columnIndex name
    require (!seen.contains i) ("multiple assignments to same column " ++ quoteName name)
    e.checkClause scope "UPDATE"
    return (i, e) :: (← assignmentPlaces d scope (i :: seen) rest)

/-- The values of a row after assignments, all of which read the old row. -/
def assigned (hook : Hook) (columns : List ResultColumn) (old : Tuple)
    (assignments : List (Nat × Expression)) : Action Tuple :=
  assignments.foldlM (fun values (i, e) => do
    return values.set i (← (services hook).evaluate [Frame.ofRow columns old] e)) old

/-- Updates rows. -/
def updateStatement (hook : Hook) (name : ObjectName) (label : Option String)
    (assignments : List (String × Expression)) (condition : Option Expression) :
    Action Outcome := do
  let d ← definition name
  let columns := d.resultColumns label
  let scope : Scope := [Frame.ofColumns columns]
  ofExcept (condition.forM (·.checkClause scope "WHERE"))
  let places ← ofExcept (assignmentPlaces d scope [] assignments)
  let rows ← matchingRows hook d label condition
  rows.forM fun row => do
    let values ← assigned hook columns row.values places
    let _ ← update hook d.fullName row.id values
  return .updated rows.length

/-- Deletes rows. -/
def deleteStatement (hook : Hook) (name : ObjectName) (label : Option String)
    (condition : Option Expression) : Action Outcome := do
  let d ← definition name
  let scope : Scope := [Frame.ofColumns (d.resultColumns label)]
  ofExcept (condition.forM (·.checkClause scope "WHERE"))
  let rows ← matchingRows hook d label condition
  rows.forM fun row => delete hook d.fullName row.id
  return .deleted rows.length

/-- Does a statement that is not about transactions. -/
def perform (hook : Hook) : Statement → Action Outcome
  | .begin_ _ | .commit | .rollback =>
    throw (.internal "transaction control has no execution plan")
  | .createSchema name ifNotExists => createSchemaStatement name ifNotExists
  | .dropSchema name ifExists => dropSchemaStatement name ifExists
  | .createTable name columns ifNotExists => createTableStatement hook name columns ifNotExists
  | .dropTable names ifExists => dropTableStatement names ifExists
  | .insert table columns source => insertStatement hook table columns source
  | .select q => do return .selected (← (services hook).select q)
  | .update table label assignments condition =>
    updateStatement hook table label assignments condition
  | .delete table label condition => deleteStatement hook table label condition

end Action

end SqlStore
