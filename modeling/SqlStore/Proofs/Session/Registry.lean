import SqlStore.Proofs.Query.Reading
import SqlStore.Proofs.Transaction.Release

/-!
# The registry of an engine

Whatever sessions and the host do to an engine, the registry of its triggers takes steps in the life of
triggers. So on every engine that a new one comes to, serial numbers tell the registered triggers apart.
-/

open Relation

namespace SqlStore

open Run

namespace Action

variable (hook : Hook)

/-! ## Reading -/

theorem notifies_read {α : Type} {call : Action α} (h : ∀ w, (exec call w).2 = w) :
    Moves Work.Notifies call := by
  intro w
  rw [h]
  exact refl_of Work.Notifies w

theorem notifies_catalog : Moves Work.Notifies catalog := notifies_read fun _ => rfl

theorem notifies_definition (n : ObjectName) : Moves Work.Notifies (definition n) :=
  notifies_catalog.bind fun _ => moves_ofExcept _

/-- Counting the calls of functions is no step. -/
theorem notifies_callFunction (name : String) (args : Tuple) :
    Moves Work.Notifies (callFunction name args) := by
  intro w
  rw [exec_callFunction]
  exact fun hq => ⟨hq, .refl⟩

theorem notifies_scan (n : TableName) : Moves Work.Notifies (scan hook n) := (carried_notifies hook).scan n

theorem notifies_evaluate (scope : Scope) (e : Expression) :
    Moves Work.Notifies ((services hook).evaluate scope e) :=
  Services.moves_evaluate notifies_catalog (fun _ _ => notifies_scan hook _) notifies_callFunction scope e

theorem notifies_holds (depth : Nat) (scope : Scope) (clause : String) (e : Expression) :
    Moves Work.Notifies (e.holds ((services hook).access depth).toSurroundings scope clause) :=
  Services.moves_holds notifies_catalog (fun _ _ => notifies_scan hook _) notifies_callFunction depth scope
    clause e

/-- What runs the statements of triggers does not matter to calls that fire none. -/
theorem carried_silent : Carried (fun _ => return ⟨⟩) Work.Notifies := carried_notifies _

/-! ## Statements on rows -/

theorem notifies_suppliedRows (named : Bool) (targets : Nat) (source : InsertSource) :
    Moves Work.Notifies (suppliedRows hook named targets source) := by
  rw [suppliedRows_eq]
  exact Services.moves_supplied notifies_catalog (fun _ _ => notifies_scan hook _) notifies_callFunction named
    targets source

theorem notifies_makeRow (d : TableDefinition) (targets : List Nat) (supplied : List (Option Value)) :
    Moves Work.Notifies (makeRow d targets supplied) := by
  refine moves_mapM (fun place => ?_) d.columns.zipIdx
  dsimp only
  split
  · exact moves_pure _
  · unfold defaultValue
    refine moves_ite ?_ (moves_pure _)
    exact (carried_silent.nextSequence d.fullName place.1.name).bind fun _ => moves_ofExcept _

theorem notifies_insertStatement (name : ObjectName) (columns : Option (List String))
    (source : InsertSource) : Moves Work.Notifies (insertStatement hook name columns source) := by
  refine (notifies_definition name).bind fun d => ?_
  have hrest (targets : List Nat) : Moves Work.Notifies (do
      let supplied ← suppliedRows hook columns.isSome targets.length source
      let rows ← supplied.mapM (makeRow d targets)
      let inserted ← insert hook d.fullName rows
      return Outcome.inserted inserted.length) := by
    refine (notifies_suppliedRows hook _ _ source).bind fun supplied => ?_
    refine (moves_mapM (notifies_makeRow d targets) supplied).bind fun rows => ?_
    exact ((carried_notifies hook).insert d.fullName rows).bind fun _ => moves_pure _
  cases columns with
  | some names => exact (moves_ofExcept _).bind hrest
  | none => exact (moves_pure _).bind hrest

theorem notifies_matchingRows (d : TableDefinition) (label : Option String)
    (condition : Option Expression) : Moves Work.Notifies (matchingRows hook d label condition) := by
  refine (notifies_scan hook d.fullName).bind fun rows => ?_
  cases condition with
  | none => exact moves_pure _
  | some e =>
    exact (moves_mapM (fun row => notifies_holds hook _ _ "WHERE" e) rows).bind fun _ => moves_pure _

theorem notifies_updateStatement (name : ObjectName) (label : Option String)
    (assignments : List (String × Expression)) (condition : Option Expression) :
    Moves Work.Notifies (updateStatement hook name label assignments condition) := by
  refine (notifies_definition name).bind fun d => (moves_ofExcept _).bind fun _ => ?_
  refine (moves_ofExcept _).bind fun places => ?_
  refine (notifies_matchingRows hook d label condition).bind fun rows => ?_
  refine (moves_forM fun row _ => ?_).bind fun _ => moves_pure _
  refine (moves_foldlM (fun _ _ => ?_) places row.values).bind fun values => ?_
  · exact (notifies_evaluate hook _ _).bind fun _ => moves_pure _
  · exact ((carried_notifies hook).update d.fullName row.id values).bind fun _ => moves_pure _

theorem notifies_deleteStatement (name : ObjectName) (label : Option String)
    (condition : Option Expression) :
    Moves Work.Notifies (deleteStatement hook name label condition) := by
  refine (notifies_definition name).bind fun d => (moves_ofExcept _).bind fun _ => ?_
  refine (notifies_matchingRows hook d label condition).bind fun rows => ?_
  refine (moves_forM fun row _ => ?_).bind fun _ => moves_pure _
  exact (carried_notifies hook).delete d.fullName row.id

/-! ## Statements on schemas and tables -/

theorem notifies_createSchemaStatement (name : String) (ifNotExists : Bool) :
    Moves Work.Notifies (createSchemaStatement name ifNotExists) := by
  refine (notifies_read fun _ => rfl).bind fun present => moves_ite ?_ ?_
  · exact moves_ite ((moves_throw _).bind fun _ => moves_pure _) (moves_pure _)
  · exact (carried_silent.alter _).bind fun _ => moves_pure _

theorem notifies_dropSchemaStatement (name : String) (ifExists : Bool) :
    Moves Work.Notifies (dropSchemaStatement name ifExists) := by
  refine (notifies_read fun _ => rfl).bind fun present => moves_ite ?_ ?_
  · exact (carried_silent.alter _).bind fun _ => moves_pure _
  · exact moves_ite ((moves_throw _).bind fun _ => moves_pure _) (moves_pure _)

theorem notifies_columnOf (c : ColumnSpec) : Moves Work.Notifies (columnOf hook c) := by
  unfold columnOf
  cases c.default with
  | none => exact moves_pure _
  | some e =>
    refine (moves_ofExcept _).bind fun _ => (notifies_evaluate hook [] e).bind fun v => ?_
    exact moves_ite (moves_pure _) ((moves_ofExcept _).bind fun _ => moves_pure _)

theorem notifies_createTableStatement (name : ObjectName) (columns : List ColumnSpec)
    (ifNotExists : Bool) : Moves Work.Notifies (createTableStatement hook name columns ifNotExists) := by
  refine (notifies_read fun _ => rfl).bind fun n => (notifies_read fun _ => rfl).bind fun present => ?_
  have hrest : Moves Work.Notifies (do
      let d : TableDefinition := ⟨n.schema, n.name, ← columns.mapM (columnOf hook)⟩
      ofExcept d.validate
      let present := (← definition? n).isSome
      if !(ifNotExists && present) then createTable d
      return Outcome.tableCreated n.name) := by
    refine (moves_mapM (notifies_columnOf hook) columns).bind fun cs => (moves_ofExcept _).bind fun _ => ?_
    refine (notifies_read fun _ => rfl).bind fun found => ?_
    exact moves_ite ((carried_silent.alter _).bind fun _ => moves_pure _) (moves_pure _)
  cases present with
  | true => exact hrest
  | false => exact (moves_throw _).bind fun _ => hrest

theorem notifies_presentTables (ifExists : Bool) (names : List TableName) :
    Moves Work.Notifies (presentTables ifExists names) := by
  induction names with
  | nil => exact moves_pure _
  | cons n ns ih =>
    refine (notifies_read fun _ => rfl).bind fun d => ?_
    have hrest : Moves Work.Notifies (do
        let rest ← presentTables ifExists ns
        return if d.isSome then n :: rest else rest) := ih.bind fun _ => moves_pure _
    exact moves_ite ((moves_throw _).bind fun _ => hrest) hrest

theorem notifies_dropTableStatement (names : List ObjectName) (ifExists : Bool) :
    Moves Work.Notifies (dropTableStatement names ifExists) := by
  refine (moves_mapM (fun _ => notifies_read fun _ => rfl) names).bind fun ns => ?_
  refine (notifies_presentTables ifExists ns).bind fun present => ?_
  exact (moves_forM fun n _ => Call.notifies (fun _ => return ⟨⟩) (.dropTable n)).bind fun _ => moves_pure _

theorem notifies_perform (s : Statement) : Moves Work.Notifies (perform hook s) := by
  cases s with
  | begin_ isolation => exact moves_throw _
  | commit => exact moves_throw _
  | rollback => exact moves_throw _
  | createSchema name ifNotExists => exact notifies_createSchemaStatement name ifNotExists
  | dropSchema name ifExists => exact notifies_dropSchemaStatement name ifExists
  | createTable name columns ifNotExists =>
    exact notifies_createTableStatement hook name columns ifNotExists
  | dropTable names ifExists => exact notifies_dropTableStatement names ifExists
  | insert table columns source => exact notifies_insertStatement hook table columns source
  | select q =>
    exact (Services.moves_select notifies_catalog (fun _ _ => notifies_scan hook _)
      notifies_callFunction q).bind fun _ => moves_pure _
  | update table label assignments condition =>
    exact notifies_updateStatement hook table label assignments condition
  | delete table label condition => exact notifies_deleteStatement hook table label condition

end Action

/-! ## Sessions -/

namespace Connection

/-- The database of the session takes steps in the life of triggers. -/
def Notifies (c c' : Connection) : Prop := c.database.Notifies c'.database

instance : Std.Refl Notifies := ⟨fun c => refl_of Database.Notifies c.database⟩

instance : IsTrans Connection Notifies := ⟨fun _ _ _ h k => trans_of Database.Notifies h k⟩

theorem notifies_onTransaction {α : Type} (t : Transaction) {call : Action α}
    (h : Moves Work.Notifies call) : Moves Notifies (onTransaction t call) := fun c => h ⟨c.database, t⟩

/-- Taking the number of a transaction is no step. -/
theorem notifies_begin (isolation : Isolation) (explicit : Bool) :
    Moves Notifies (onDatabase (Database.begin_ isolation explicit)) := fun _ hq => ⟨hq, .refl⟩

theorem notifies_takeTransaction : Moves Notifies takeTransaction := by
  rintro ⟨db, transaction⟩
  cases transaction <;> exact refl_of Database.Notifies db

theorem notifies_insideTransaction (hook : Hook) (s : Statement) :
    Moves Work.Notifies (insideTransaction hook s) := by
  refine (carried_notifies hook).beginStatement.bind fun _ => ?_
  refine (Action.notifies_perform hook s).attempt.bind fun result => ?_
  cases result with
  | ok outcome => exact moves_pure _
  | error e => exact (carried_notifies hook).abortStatement.bind fun _ => moves_throw _

theorem notifies_ownTransaction (hook : Hook) (s : Statement) :
    Moves Work.Notifies (ownTransaction hook s) := by
  refine (carried_notifies hook).beginStatement.bind fun _ => ?_
  refine (Action.notifies_perform hook s).attempt.bind fun result => ?_
  cases result with
  | ok outcome => exact (Call.notifies hook .commit).bind fun _ => moves_pure _
  | error e =>
    refine (carried_notifies hook).abortStatement.bind fun _ => ?_
    exact (Call.notifies hook .rollback).bind fun _ => moves_throw _

theorem notifies_executeStatement (hook : Hook) (s : Statement) :
    Moves Notifies (executeStatement hook s) := by
  by_cases hs : s.IsControl
  · cases s with
    | begin_ isolation =>
      refine moves_get.bind fun c => ?_
      have hrest : Moves Notifies (do
          let t ← onDatabase
            (Database.begin_ (isolation.getD c.database.config.defaultIsolation) true)
          modify fun c => { c with transaction := some t }
          return Outcome.begun t.version t.isolation) :=
        (notifies_begin _ _).bind fun t => Moves.bind (fun c => refl_of Notifies c) fun _ => moves_pure _
      exact moves_ite ((moves_throw _).bind fun _ => hrest) hrest
    | commit =>
      refine notifies_takeTransaction.bind fun t => ?_
      exact (notifies_onTransaction t (Call.notifies hook .commit)).bind fun _ => moves_pure _
    | rollback =>
      refine notifies_takeTransaction.bind fun t => ?_
      exact (notifies_onTransaction t (Call.notifies hook .rollback)).bind fun _ => moves_pure _
    | _ => exact hs.elim
  · rintro ⟨db, transaction⟩
    cases transaction with
    | some t =>
      rw [exec_executeStatement_of_some hook hs]
      exact notifies_insideTransaction hook s ⟨db, t⟩
    | none =>
      rw [exec_executeStatement_of_none hook hs]
      exact notifies_ownTransaction hook s ⟨{ db with nextVersion := db.nextVersion + 1 },
        ⟨db.nextVersion, db.config.defaultIsolation, false, .active, none, []⟩⟩

theorem notifies_release : Moves Notifies release := by
  rintro ⟨db, transaction⟩
  cases transaction with
  | none => exact refl_of Database.Notifies db
  | some t =>
    have hrest : Moves Notifies (do
        let _ ← (onTransaction t Action.rollback).attempt
        return PUnit.unit) :=
      (notifies_onTransaction t (Call.notifies (fun _ => return ⟨⟩) .rollback)).attempt.bind
        fun _ => moves_pure _
    exact hrest ⟨db, none⟩

end Connection

/-! ## Engines -/

namespace Engine

variable {e : Engine}

theorem notifies_step (e : Engine) (v : Event) : e.database.Notifies (e.step v).database := by
  cases v with
  | statement i s =>
    show Connection.Notifies (e.connection i) (exec (Session.executeStatement s) (e.connection i)).2
    rw [exec_executeStatement]
    exact Connection.notifies_executeStatement _ s (e.connection i)
  | release i => exact Connection.notifies_release (e.connection i)
  | register t => exact Database.notifies_register t.2 e.database
  | unregister n name => exact Database.notifies_unregister n name e.database
  | addFunction name f => exact fun hq => ⟨hq, .refl⟩
  | clock now => exact fun hq => ⟨hq, .refl⟩

/-- On an engine that a new one comes to, serial numbers tell triggers apart. -/
theorem Reachable.sound (he : e.Reachable) : e.database.registry.Sound := by
  obtain ⟨config, clock, events, rfl⟩ := he
  have hrun : ∀ (events : List Event) (e : Engine), e.database.Notifies (e.run events).database := by
    intro events
    induction events with
    | nil => exact fun e => refl_of Database.Notifies e.database
    | cons v events ih => exact fun e => trans_of Database.Notifies (notifies_step e v) (ih (e.step v))
  have hopen : (Database.open_ config clock).registry.Sound := ⟨nofun, nofun, List.nodup_nil⟩
  exact Registry.run_sound (hrun events (open_ config clock) nofun).2 hopen

end Engine

end SqlStore
