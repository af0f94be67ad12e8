import SqlStore.Proofs.Query.Names
import SqlStore.Proofs.Query.Reading
import SqlStore.Proofs.Store.Growth

/-!
# Readings that agree

What an expression comes to does not depend on the rows of a table that its queries do not name, nor on the
number of function calls so far if it calls no function. Both are said by an equation: with another table
in the place of the one that is not named, the reading is the same call, and without function calls it is
a value of the store, `Database.still`.
-/

namespace SqlStore

open Run

/-- Calls that are the same call. -/
def Parallel.equality (m : Type → Type) [Monad m] [MonadExceptOf Error m] : Parallel m m where
  Rel c d := c = d
  Admits _ := True
  pure _ := rfl
  throw _ := rfl
  bind hc hf := by
    rw [hc, funext hf]

/-- Calls that leave the state alone, and what they come to. -/
def Parallel.constant {σ : Type} : Parallel (Run σ) (Except Error) where
  Rel c r := ∀ s, exec c s = (r, s)
  Admits _ := True
  pure _ _ := rfl
  throw _ _ := rfl
  bind := by
    intro α β c r f g hc hf s
    rw [exec_bind, hc s]
    cases r with
    | error err => rfl
    | ok a => exact hf a s

/-- Calls that come to the same from every state. -/
def Parallel.settled {σ : Type} : Parallel (Run σ) (Except Error) where
  Rel c r := ∀ s, (exec c s).1 = r
  Admits _ := True
  pure _ _ := rfl
  throw _ _ := rfl
  bind := by
    intro α β c r f g hc hf s
    rw [exec_bind]
    rcases hrun : exec c s with ⟨r', s'⟩
    have hr := hc s
    rw [hrun] at hr
    cases hr
    cases r' with
    | error err => rfl
    | ok a => exact hf a s'

/-- A function that draws no identifiers. -/
theorem ScalarFunction.apply_of_ne (f : ScalarFunction) (hrandom : f ≠ .randomUuid)
    (hordered : f ≠ .timeOrderedUuid) (now : Timestamp) (drawn drawn' : Nat) (args : Tuple) :
    f.apply now drawn args = f.apply now drawn' args := by
  unfold apply
  split
  case h_1 => exact absurd rfl hrandom
  case h_2 => exact absurd rfl hordered
  all_goals dsimp only

/-- The database with a table in the place of the one of its name. -/
def Database.withTable (db : Database) (t : Table) : Database :=
  { db with store := db.store.put t.definition.fullName t }

namespace Database

variable {db : Database} {t u : Table}

/-- Definitions do not change when a table is replaced by another one of its definition. -/
theorem catalog_withTable (ht : db.store.table? t.definition.fullName = some t)
    (hu : u.definition = t.definition) :
    (db.withTable u).reading.catalog = db.reading.catalog := by
  have htable : ∀ m, ((db.store.put u.definition.fullName u).table m).map Table.definition =
      (db.store.table m).map Table.definition := by
    intro m
    rw [hu]
    by_cases hm : m = t.definition.fullName
    · subst hm
      rw [Store.table_eq_ok.mpr (Store.table?_put ht (congrArg _ hu)), Store.table_eq_ok.mpr ht]
      exact congrArg Except.ok hu
    · unfold Store.table
      rw [Store.table?_put_of_ne (congrArg _ hu) hm]
  show (pure _ : Run Nat Catalog) = pure _
  exact congrArg pure (funext fun name => htable _)

theorem scan_withTable {schema name : String}
    (hne : (⟨schema, name⟩ : TableName) ≠ u.definition.fullName) :
    (db.withTable u).reading.scan schema name = db.reading.scan schema name := by
  show (do
    return (← ofExcept ((db.store.put u.definition.fullName u).table ⟨schema, name⟩)).rows :
      Run Nat _) = _
  unfold Store.table
  rw [Store.table?_put_of_ne rfl hne]
  rfl

theorem agree_withTable (ht : db.store.table? t.definition.fullName = some t)
    (hu : u.definition = t.definition) :
    Services.Agree (.equality (Run Nat)) (db.withTable u).reading db.reading
      (fun name => name.inSchema db.config.defaultSchema ≠ t.definition.fullName)
      fun _ => True where
  total _ := trivial
  catalog := by
    refine ⟨_, catalog_withTable ht hu, rfl, fun name d havoid hd => scan_withTable ?_⟩
    -- the definition found under a name is that of the table of the name
    obtain ⟨v, hv, rfl⟩ := Except.exists_of_map_eq_ok hd
    have hfound : v.definition.fullName = name.inSchema db.config.defaultSchema :=
      (Store.mem_of_table? (Store.table_eq_ok.mp hv)).2
    rw [show (⟨v.definition.schema, v.definition.name⟩ : TableName) = _ from hfound, hu]
    exact havoid
  call _ _ _ := rfl

/-- An expression whose queries do not name a table. -/
theorem evaluate_withTable (ht : db.store.table? t.definition.fullName = some t)
    (hu : u.definition = t.definition) (scope : Scope) {e : Expression}
    (havoid : ∀ name ∈ e.tables,
      name.inSchema db.config.defaultSchema ≠ t.definition.fullName) :
    (db.withTable u).reading.evaluate scope e = db.reading.evaluate scope e :=
  (agree_withTable ht hu).evaluate scope havoid fun _ _ => trivial

/-! ## Without function calls -/

/-- What a database offers to queries that call no function. -/
def still (db : Database) : Services (Except Error) where
  catalog := return db.catalog
  scan schema name := return (← db.store.table ⟨schema, name⟩).rows
  call name args := throw (noFunction name args)

theorem agree_still (db : Database) :
    Services.Agree .constant db.reading db.still (fun _ => True) fun _ => False where
  total _ := trivial
  catalog := by
    refine ⟨_, rfl, rfl, fun name d _ _ drawn => ?_⟩
    show exec (do return (← ofExcept (db.store.table ⟨d.schema, d.name⟩)).rows) drawn = _
    rw [exec_bind, exec_ofExcept]
    show _ = ((do return (← db.store.table ⟨d.schema, d.name⟩).rows), drawn)
    cases db.store.table ⟨d.schema, d.name⟩ <;> rfl
  call _ hname := hname.elim

/-- An expression that calls no function. -/
theorem exec_evaluate_still (db : Database) (scope : Scope) {e : Expression} (hcalls : e.calls = [])
    (drawn : Nat) : exec (db.reading.evaluate scope e) drawn = (db.still.evaluate scope e, drawn) := by
  refine db.agree_still.evaluate scope (fun _ _ => trivial) ?_ drawn
  rw [hcalls]
  exact nofun

/-! ## With functions that draw nothing -/

/-- What a database offers to queries while the number of function calls so far does not change. -/
def fixed (db : Database) : Services (Except Error) where
  catalog := return db.catalog
  scan schema name := return (← db.store.table ⟨schema, name⟩).rows
  call := { db with drawn := 0 }.callFunction

/-- What a function gives does not depend on the number of function calls so far. -/
def Deterministic (db : Database) (name : String) : Prop :=
  ∀ drawn drawn' args,
    { db with drawn }.callFunction name args = { db with drawn := drawn' }.callFunction name args

/-- Only identifiers are drawn. -/
theorem deterministic_of_ne {name : String} (hrandom : ScalarFunction.ofName? name ≠ some .randomUuid)
    (hordered : ScalarFunction.ofName? name ≠ some .timeOrderedUuid) : db.Deterministic name := by
  intro drawn drawn' args
  unfold callFunction
  dsimp only
  split
  · rfl
  · rfl
  · next f _ _ hname =>
    rw [hname] at hrandom hordered
    exact f.apply_of_ne (fun hf => hrandom (congrArg some hf)) (fun hf => hordered (congrArg some hf))
      db.clock drawn drawn' args
  · rfl

theorem agree_fixed (db : Database) :
    Services.Agree .settled db.reading db.fixed (fun _ => True) db.Deterministic where
  total _ := trivial
  catalog := by
    refine ⟨_, rfl, rfl, fun name d _ _ drawn => ?_⟩
    show (exec (do return (← ofExcept (db.store.table ⟨d.schema, d.name⟩)).rows) drawn).1 = _
    rw [exec_bind, exec_ofExcept]
    show _ = (do return (← db.store.table ⟨d.schema, d.name⟩).rows)
    cases db.store.table ⟨d.schema, d.name⟩ <;> rfl
  call name hname args drawn := by
    rw [Action.exec_reading_call]
    exact hname drawn 0 args

/-- A query that calls only such functions. -/
theorem exec_select_fixed (db : Database) {q : Select}
    (hcalls : ∀ name ∈ q.functionsUpTo (q.depth + 1), db.Deterministic name) (drawn : Nat) :
    (exec (db.reading.select q) drawn).1 = db.fixed.select q :=
  db.agree_fixed.query (q.depth + 1) q [] (fun _ _ => trivial) hcalls drawn

end Database

/-! ## Conditions and assignments on a row

What the condition of a statement and the assignments of an update ask of a database about one row, for any
database that answers queries: one inside a transaction, its reading, or a store that stands still.
-/

namespace Services

section

variable {m : Type → Type} [Monad m] [MonadExceptOf Error m]

/-- Whether a row passes a condition, if there is one. -/
def passes (s : Services m) (columns : List ResultColumn) (condition : Option Expression)
    (r : Row) : m Bool :=
  match condition with
  | none => pure true
  | some e =>
    e.holds (s.access (exprDepth e)).toSurroundings [Frame.ofRow columns r.values] "WHERE"

/-- The values of a row after assignments, all of which read the old row. -/
def assigned (s : Services m) (columns : List ResultColumn) (places : List (Nat × Expression))
    (old : Tuple) : m Tuple :=
  places.foldlM (fun values (i, e) => do
    return values.set i (← s.evaluate [Frame.ofRow columns old] e)) old

end

theorem parallel_assigned {m n : Type → Type} [Monad m] [MonadExceptOf Error m] [Monad n]
    [MonadExceptOf Error n] {L : Parallel m n} {s : Services m} {r : Services n}
    {columns : List ResultColumn} {places : List (Nat × Expression)} {old : Tuple}
    (h : ∀ p ∈ places, L.Rel (s.evaluate [Frame.ofRow columns old] p.2)
      (r.evaluate [Frame.ofRow columns old] p.2)) :
    L.Rel (s.assigned columns places old) (r.assigned columns places old) :=
  L.foldlM (fun p hp _ => L.bind (h p hp) fun _ => L.pure _) old

end Services

namespace Action

variable {db : Database} (hook : Hook) (columns : List ResultColumn)

theorem reads_passes (condition : Option Expression) (r : Row) :
    Mirrors (Work.Reads db) Error.IsTrigger ((services hook).passes columns condition r)
      (db.reading.passes columns condition r) := by
  cases condition with
  | none => exact mirrors_pure true
  | some e => exact reads_holds hook _ e _ "WHERE"

theorem reads_assigned (places : List (Nat × Expression)) (old : Tuple) :
    Mirrors (Work.Reads db) Error.IsTrigger (assigned hook columns old places)
      (db.reading.assigned columns places old) :=
  Services.parallel_assigned (L := mirroring (Work.Reads db) Error.IsTrigger) (s := services hook)
    fun p _ => reads_evaluate hook _ p.2

end Action

namespace Database

variable {db : Database} {t u : Table} {columns : List ResultColumn}
variable {places : List (Nat × Expression)}

/-- Assignments that do not name a table. -/
theorem assigned_withTable (ht : db.store.table? t.definition.fullName = some t)
    (hu : u.definition = t.definition)
    (havoid : ∀ p ∈ places, ∀ name ∈ p.2.tables,
      name.inSchema db.config.defaultSchema ≠ t.definition.fullName) (old : Tuple) :
    (db.withTable u).reading.assigned columns places old = db.reading.assigned columns places old :=
  Services.parallel_assigned (L := .equality (Run Nat)) fun p hp =>
    evaluate_withTable ht hu _ (havoid p hp)

/-- Assignments that call no function. -/
theorem exec_assigned_still (db : Database) (hcalls : ∀ p ∈ places, p.2.calls = []) (old : Tuple)
    (drawn : Nat) : exec (db.reading.assigned columns places old) drawn =
      (db.still.assigned columns places old, drawn) :=
  Services.parallel_assigned (L := .constant) (s := db.reading) (r := db.still)
    (fun p hp => db.exec_evaluate_still _ (hcalls p hp)) drawn

end Database

end SqlStore
