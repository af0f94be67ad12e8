import SqlStore.Proofs.Session.Statement
import SqlStore.Proofs.Transaction.Twin

/-!
# Statements in twin transactions

What a statement does to schemas, tables and rows is put together of calls that go the same way in twin
transactions, so the statement does the same in both and answers the same.
-/

namespace SqlStore

open Run

namespace Action

/-! ## Queries -/

theorem steady_defaultSchema : Steady defaultSchema := by
  refine mirrors_get_bind fun w v hwv => ?_
  have hconfig : w.database.config = v.database.config := by
    rw [hwv.database.eq]
  rw [hconfig]
  exact mirrors_pure _

theorem steady_fullName (n : ObjectName) : Steady (fullName n) :=
  steady_defaultSchema.bind fun _ => mirrors_pure _

theorem steady_catalog : Steady catalog :=
  steady_defaultSchema.bind fun _ => steady_store.bind fun _ => mirrors_pure _

theorem steady_definition (n : ObjectName) : Steady (definition n) :=
  steady_catalog.bind fun _ => mirrors_ofExcept _

theorem steady_callFunction (name : String) (args : Tuple) : Steady (callFunction name args) := by
  refine steady_onDatabase (mirrors_get_bind fun a b hab => ?_)
  have hresult : a.callFunction name args = b.callFunction name args := by
    rw [hab.eq]
    rfl
  rw [hresult]
  refine (mirrors_set ?_).bind fun _ => mirrors_ofExcept _
  exact hab.change (fun db => { db with drawn := db.drawn + 1 }) (fun _ _ => rfl) hab.quiet

variable (hook : Hook)

theorem steady_evaluate (scope : Scope) (e : Expression) :
    Steady ((services hook).evaluate scope e) :=
  Services.parallel_evaluate (L := mirroring Work.Twin Never) (s := services hook) (r := services hook)
    total_mirroring steady_catalog (fun _ _ => steady_scan hook _) steady_callFunction scope e

theorem steady_holds (depth : Nat) (e : Expression) (scope : Scope) (clause : String) :
    Steady (e.holds ((services hook).access depth).toSurroundings scope clause) :=
  Services.parallel_holds (L := mirroring Work.Twin Never) (s := services hook) (r := services hook)
    total_mirroring steady_catalog (fun _ _ => steady_scan hook _) steady_callFunction depth e scope clause

theorem steady_select (q : Select) : Steady ((services hook).select q) :=
  Services.parallel_select (L := mirroring Work.Twin Never) (s := services hook) (r := services hook)
    total_mirroring steady_catalog (fun _ _ => steady_scan hook _) steady_callFunction q

/-! ## Statements on rows -/

theorem steady_suppliedRows (named : Bool) (targets : Nat) (source : InsertSource) :
    Steady (suppliedRows hook named targets source) := by
  rw [suppliedRows_eq]
  exact Services.parallel_supplied (L := mirroring Work.Twin Never) (s := services hook) (r := services hook)
    total_mirroring steady_catalog (fun _ _ => steady_scan hook _) steady_callFunction named targets source

theorem steady_defaultValue (n : TableName) (c : Column) : Steady (defaultValue n c) :=
  companions_twin.defaultValue n c

theorem steady_makeRow (d : TableDefinition) (targets : List Nat)
    (supplied : List (Option Value)) : Steady (makeRow d targets supplied) := by
  refine mirrors_mapM fun place _ => ?_
  dsimp only
  split
  · exact mirrors_pure _
  · exact steady_defaultValue d.fullName place.1

theorem steady_insertStatement (name : ObjectName) (columns : Option (List String))
    (source : InsertSource) : Steady (insertStatement hook name columns source) := by
  refine (steady_definition name).bind fun d => ?_
  have hrest (targets : List Nat) : Steady (do
      let supplied ← suppliedRows hook columns.isSome targets.length source
      let rows ← supplied.mapM (makeRow d targets)
      let inserted ← insert hook d.fullName rows
      return Outcome.inserted inserted.length) := by
    refine (steady_suppliedRows hook _ _ source).bind fun supplied => ?_
    refine (mirrors_mapM fun row _ => steady_makeRow d targets row).bind fun rows => ?_
    exact (steady_insert hook d.fullName rows).bind fun _ => mirrors_pure _
  cases columns with
  | some names => exact (mirrors_ofExcept _).bind hrest
  | none => exact (mirrors_pure _).bind hrest

theorem steady_matchingRows (d : TableDefinition) (label : Option String)
    (condition : Option Expression) : Steady (matchingRows hook d label condition) := by
  refine (steady_scan hook d.fullName).bind fun rows => ?_
  cases condition with
  | none => exact mirrors_pure _
  | some e =>
    refine (mirrors_mapM fun row _ => steady_holds hook _ e _ "WHERE").bind fun _ => ?_
    exact mirrors_pure _

theorem steady_assigned (columns : List ResultColumn) (old : Tuple)
    (assignments : List (Nat × Expression)) : Steady (assigned hook columns old assignments) :=
  mirrors_foldlM (fun _ _ => (steady_evaluate hook _ _).bind fun _ => mirrors_pure _) assignments old

theorem steady_updateStatement (name : ObjectName) (label : Option String)
    (assignments : List (String × Expression)) (condition : Option Expression) :
    Steady (updateStatement hook name label assignments condition) := by
  refine (steady_definition name).bind fun d => (mirrors_ofExcept _).bind fun _ => ?_
  refine (mirrors_ofExcept _).bind fun places => ?_
  refine (steady_matchingRows hook d label condition).bind fun rows => ?_
  refine (mirrors_forM fun row _ => ?_).bind fun _ => mirrors_pure _
  refine (steady_assigned hook _ row.values places).bind fun values => ?_
  exact (steady_update hook d.fullName row.id values).bind fun _ => mirrors_pure _

theorem steady_deleteStatement (name : ObjectName) (label : Option String)
    (condition : Option Expression) : Steady (deleteStatement hook name label condition) := by
  refine (steady_definition name).bind fun d => (mirrors_ofExcept _).bind fun _ => ?_
  refine (steady_matchingRows hook d label condition).bind fun rows => ?_
  exact (mirrors_forM fun row _ => steady_delete hook d.fullName row.id).bind fun _ =>
    mirrors_pure _

/-! ## Statements on schemas and tables -/

theorem steady_createSchemaStatement (name : String) (ifNotExists : Bool) :
    Steady (createSchemaStatement name ifNotExists) := by
  refine (steady_hasSchema name).bind fun present => ?_
  refine mirrors_ite (mirrors_ite ?_ (mirrors_pure _)) ?_
  · exact (mirrors_throw _).bind fun _ => mirrors_pure _
  · exact (steady_alter _).bind fun _ => mirrors_pure _

theorem steady_dropSchemaStatement (name : String) (ifExists : Bool) :
    Steady (dropSchemaStatement name ifExists) := by
  refine (steady_hasSchema name).bind fun present => ?_
  refine mirrors_ite ?_ (mirrors_ite ?_ (mirrors_pure _))
  · exact (steady_alter _).bind fun _ => mirrors_pure _
  · exact (mirrors_throw _).bind fun _ => mirrors_pure _

theorem steady_columnOf (c : ColumnSpec) : Steady (columnOf hook c) := by
  unfold columnOf
  dsimp only
  cases c.default with
  | none => exact mirrors_pure _
  | some e =>
    refine (mirrors_ofExcept _).bind fun _ => (steady_evaluate hook [] e).bind fun v => ?_
    exact mirrors_ite (mirrors_pure _) ((mirrors_ofExcept _).bind fun _ => mirrors_pure _)

theorem steady_createTableStatement (name : ObjectName) (columns : List ColumnSpec)
    (ifNotExists : Bool) : Steady (createTableStatement hook name columns ifNotExists) := by
  refine (steady_fullName name).bind fun n => (steady_hasSchema n.schema).bind fun present => ?_
  have hrest : Steady (do
      let d : TableDefinition := ⟨n.schema, n.name, ← columns.mapM (columnOf hook)⟩
      ofExcept d.validate
      let present := (← definition? n).isSome
      if !(ifNotExists && present) then createTable d
      return Outcome.tableCreated n.name) := by
    refine (mirrors_mapM fun c _ => steady_columnOf hook c).bind fun columns => ?_
    refine (mirrors_ofExcept _).bind fun _ => (steady_definition? n).bind fun found => ?_
    refine mirrors_ite ((steady_alter _).bind fun _ => mirrors_pure _) (mirrors_pure _)
  exact mirrors_ite ((mirrors_throw _).bind fun _ => hrest) hrest

theorem steady_presentTables (ifExists : Bool) (names : List TableName) :
    Steady (presentTables ifExists names) := by
  induction names with
  | nil => exact mirrors_pure _
  | cons n ns ih =>
    refine (steady_definition? n).bind fun found => ?_
    have hrest : Steady (do
        let rest ← presentTables ifExists ns
        return if found.isSome then n :: rest else rest) := ih.bind fun _ => mirrors_pure _
    exact mirrors_ite ((mirrors_throw _).bind fun _ => hrest) hrest

theorem steady_dropTableStatement (names : List ObjectName) (ifExists : Bool) :
    Steady (dropTableStatement names ifExists) := by
  refine (mirrors_mapM fun n _ => steady_fullName n).bind fun names => ?_
  refine (steady_presentTables ifExists names).bind fun present => ?_
  exact (mirrors_forM fun n _ => steady_dropTable n).bind fun _ => mirrors_pure _

/-- Every statement does the same in twin transactions. -/
theorem steady_perform (s : Statement) : Steady (perform hook s) := by
  cases s with
  | begin_ _ | commit | rollback => exact mirrors_throw _
  | createSchema name ifNotExists => exact steady_createSchemaStatement name ifNotExists
  | dropSchema name ifExists => exact steady_dropSchemaStatement name ifExists
  | createTable name columns ifNotExists =>
    exact steady_createTableStatement hook name columns ifNotExists
  | dropTable names ifExists => exact steady_dropTableStatement names ifExists
  | insert table columns source => exact steady_insertStatement hook table columns source
  | select q => exact (steady_select hook q).bind fun _ => mirrors_pure _
  | update table label assignments condition =>
    exact steady_updateStatement hook table label assignments condition
  | delete table label condition => exact steady_deleteStatement hook table label condition

theorem steady_abortStatement : Steady abortStatement := by
  refine mirrors_get_bind fun w v hwv => ?_
  rw [hwv.store_eq, hwv.undo_eq]
  dsimp only
  let undone := (Undo.applyAll v.database.store v.transaction.undo).2
  have hset : Work.Twin
      ⟨{ w.database with store := undone }, { w.transaction with undo := [] }⟩
      ⟨{ v.database with store := undone }, { v.transaction with undo := [] }⟩ := by
    refine ⟨?_, hwv.active, hwv.active', rfl⟩
    exact hwv.database.change (fun db => { db with store := undone }) (fun _ _ => rfl)
      hwv.database.quiet
  refine (mirrors_set hset).bind fun _ => ?_
  split
  · exact mirrors_throw _
  · exact mirrors_pure _

end Action

/-- Twins have the same triggers to nest. -/
theorem Database.Twin.hook_eq {a b : Database} (h : a.Twin b) : a.hook = b.hook := by
  unfold Database.hook
  rw [h.registrations_eq]

namespace Connection

variable (hook : Hook) {s : Statement}

theorem steady_insideTransaction (s : Statement) : Action.Steady (insideTransaction hook s) := by
  refine Action.steady_beginStatement.bind fun _ => ?_
  refine (Action.steady_perform hook s).attempt.bind fun result => ?_
  cases result with
  | ok o => exact mirrors_pure _
  | error e => exact Action.steady_abortStatement.bind fun _ => mirrors_throw _

/-- A statement does not look at what the statements before it logged. -/
theorem exec_insideTransaction_fresh (hook : Hook) (s : Statement) {db : Database} {t : Transaction}
    (hactive : t.state = .active) :
    exec (insideTransaction hook s) ⟨db, t⟩ =
      exec (insideTransaction hook s) ⟨db, { t with undo := [] }⟩ := by
  have hbegin := Action.exec_beginStatement (w := ⟨db, t⟩) hactive
  have hagain := Action.exec_beginStatement (w := ⟨db, { t with undo := [] }⟩) hactive
  unfold insideTransaction
  rw [exec_bind_ok hbegin, exec_bind_ok hagain]

/-- A statement in the open transaction of one session, and as a transaction of its own in another. -/
theorem twin_executeStatement (hs : ¬ s.IsControl) {a b : Database} (hab : a.Twin b)
    {t : Transaction} (hactive : t.state = .active) :
    ∃ r a' b' t', exec (executeStatement hook s) ⟨a, some t⟩ = (r, ⟨a', some t'⟩) ∧
      exec (executeStatement hook s) ⟨b, none⟩ = (r, ⟨b', none⟩) ∧
      a'.Twin b' ∧ t'.state = .active := by
  let own : Work := ⟨{ b with nextVersion := b.nextVersion + 1 },
    ⟨b.nextVersion, b.config.defaultIsolation, false, .active, none, []⟩⟩
  have hbegun : Work.Twin ⟨a, { t with undo := [] }⟩ own :=
    ⟨⟨hab.eq, hab.quiet⟩, hactive, rfl, rfl⟩
  obtain ⟨hown, hdatabase⟩ := exec_ownTransaction_eq (w := own) hook s hab.quiet rfl rfl rfl
  obtain ⟨hresult, htwin⟩ := (steady_insideTransaction hook s).same hbegun
  rw [exec_executeStatement_of_some hook hs, exec_executeStatement_of_none hook hs,
    exec_insideTransaction_fresh hook s hactive, hown, hdatabase, hresult]
  exact ⟨_, _, _, _, rfl, rfl, htwin.database, htwin.active⟩

end Connection

end SqlStore
