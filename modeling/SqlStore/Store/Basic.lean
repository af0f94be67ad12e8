import SqlStore.Table.Content

/-!
# The store

A store has schemas and tables, each table in a schema. Both are kept ordered by name, a table
first by its schema. A schema can be dropped only while it has no tables.
-/

namespace SqlStore

/-- The full name of a table. -/
structure TableName where
  schema : String
  name : String
deriving Repr, DecidableEq

namespace TableName

/-- The order of tables: by schema, then by name. -/
def compareNames (a b : TableName) : Ordering :=
  (compare a.schema b.schema).then (compare a.name b.name)

/-- The failure of a table that is not there. -/
def missing (n : TableName) : Error :=
  .execution ("relation " ++ quoteName n.name ++ " does not exist")

end TableName

/-- The full name of a table of a definition. -/
def TableDefinition.fullName (d : TableDefinition) : TableName := ⟨d.schema, d.name⟩

/-- Puts a name into an ordered list of names. -/
def insertName (name : String) : List String → List String
  | [] => [name]
  | n :: ns => if name < n then name :: n :: ns else n :: insertName name ns

/-- Schemas with their tables. -/
structure Store where
  schemas : List String
  tables : List Table

namespace Store

/-- The store without schemas. -/
def empty : Store := ⟨[], []⟩

/-- Whether there is a schema of a name. -/
def hasSchema (s : Store) (name : String) : Bool := s.schemas.contains name

/-- The table of a name. -/
def table? (s : Store) (n : TableName) : Option Table :=
  s.tables.find? fun t => t.definition.fullName == n

/-- The table of a name, or the failure. -/
def table (s : Store) (n : TableName) : Except Error Table :=
  match s.table? n with
  | some t => .ok t
  | none => .error n.missing

/-- The tables of a schema. -/
def tablesOf (s : Store) (schema : String) : List Table :=
  s.tables.filter fun t => t.definition.schema == schema

/-- The failure of a schema that is not there. -/
def missingSchema (name : String) : Error :=
  .execution ("schema " ++ quoteName name ++ " does not exist")

/-- The failure of a schema that is there already. -/
def schemaExists (name : String) : Error :=
  .execution ("schema " ++ quoteName name ++ " already exists")

/-- Makes a schema. -/
def createSchema (s : Store) (name : String) : Except Error Store :=
  if s.hasSchema name then .error (schemaExists name)
  else .ok { s with schemas := insertName name s.schemas }

/-- Drops a schema without tables. -/
def dropSchema (s : Store) (name : String) : Except Error Store :=
  if !s.hasSchema name then .error (missingSchema name)
  else if !(s.tablesOf name).isEmpty then
    .error (.execution ("cannot drop schema " ++ name ++ " because other objects depend on it"))
  else .ok { s with schemas := s.schemas.filter (· != name) }

/-- Puts a table into an ordered list of tables. -/
def insertTable (t : Table) : List Table → List Table
  | [] => [t]
  | u :: us =>
    if t.definition.fullName.compareNames u.definition.fullName == .lt then t :: u :: us
    else u :: insertTable t us

/-- Makes an empty table. -/
def createTable (s : Store) (d : TableDefinition) : Except Error Store := do
  d.validate
  if !s.hasSchema d.schema then throw (missingSchema d.schema)
  if (s.table? d.fullName).isSome then
    throw (.execution ("relation " ++ quoteName d.name ++ " already exists"))
  return { s with tables := insertTable (.ofDefinition d) s.tables }

/-- Drops a table. -/
def dropTable (s : Store) (n : TableName) : Except Error Store := do
  let _ ← s.table n
  return { s with tables := s.tables.filter fun t => t.definition.fullName != n }

/-- Replaces the table of a name by what a function makes of it. -/
def modify (s : Store) (n : TableName) (f : Table → Table) : Store :=
  { s with tables := s.tables.map fun t => if t.definition.fullName == n then f t else t }

/-- Changes the table of a name, or fails if it is not there. -/
def change (s : Store) (n : TableName) (f : Table → Table) : Except Error Store := do
  let _ ← s.table n
  return s.modify n f

end Store

end SqlStore
