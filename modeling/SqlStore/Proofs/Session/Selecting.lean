import SqlStore.Proofs.Query.WholeRows
import SqlStore.Proofs.Session.Updating
import SqlStore.Proofs.Session.Grouping
import SqlStore.Proofs.Session.Simultaneity

/-!
# Selecting the rows to change

A deletion and an update find their rows by a loop of their own, a query by a scan, a filter and a
projection. `Action.selection` is what a deletion does before its first row goes; `SELECT *` with the same
condition is that selection with the rows read column by column. So both fail alike, and the rows that are
deleted or updated are those that the query answers with.
-/

namespace SqlStore

open Run

theorem ofExcept_of_bind {m : Type → Type} [Monad m] [LawfulMonad m] [MonadExceptOf Error m]
    [StopsAtFailure m] {α β : Type} (r : Except Error α) (f : α → Except Error β) :
    (ofExcept (r >>= f) : m β) = ofExcept r >>= fun a => ofExcept (f a) := by
  rw [ofExcept_bind]
  cases r <;> rfl

/-- The names of the columns in a query differ where those of the table do. -/
theorem TableDefinition.NamesDiffer.resultColumns {d : TableDefinition} (h : d.NamesDiffer)
    (label : Option String) : ((d.resultColumns label).map ResultColumn.name).Nodup := by
  have hnames : (d.resultColumns label).map ResultColumn.name = d.columns.map Column.name :=
    List.map_map
  rw [hnames]
  exact h

namespace Action

variable {hook : Hook} {name : ObjectName} {label : Option String} {condition : Option Expression}
  {db : Database} {t : Table} {w w' : Work} {drawn : Nat}

/-- A query of all columns selects rows and reads them column by column. -/
theorem select_rowsOf : (services hook).select (.rowsOf name label condition) = (do
    let (d, rows) ← selection hook name label condition
    let columns := d.resultColumns label
    let values ← (rows.map Row.values).mapM fun row =>
      outputRow ((services hook).access (Select.rowsOf name label condition).depth)
        [Frame.ofRow columns row] (columns.map Output.ofColumn)
    return outputRelation (columns.map Output.ofColumn) values) := by
  have hdepth : ∀ e ∈ condition, exprDepth e ≤ (Select.rowsOf name label condition).depth :=
    fun e he => Nat.le_of_lt (exprDepth_lt_depth_rowsOf name label he)
  unfold Services.select Services.runSelect selection definition
  simp only [bind_assoc]
  -- step by step: the table, the check and the rows
  refine congrArg (catalog >>= ·) (funext fun c => ?_)
  rw [Plan.ofSelect_rowsOf, ofExcept_of_bind (m := Action), bind_assoc]
  refine congrArg ((ofExcept (c name) : Action TableDefinition) >>= ·) (funext fun d => ?_)
  rw [ofExcept_of_bind (m := Action), bind_assoc]
  refine congrArg _ (funext fun _ => ?_)
  show Plan.run ((services hook).access _) [] (Plan.rowsOf d name label condition) = _
  unfold Plan.rowsOf Plan.run
  rw [run_source_rowsOf hdepth]
  simp only [bind_assoc, pure_bind]

/-- Where the columns of all tables have different names and values in every row, that gives the rows
that are selected, as they are. -/
theorem exec_select_rowsOf (hw : w.Reads db drawn) (hnamed : ∀ t ∈ db.store.tables, t.Named)
    (hwidth : ∀ t ∈ db.store.tables, t.Rectangular) :
    exec ((services hook).select (.rowsOf name label condition)) w =
      ((exec (selection hook name label condition) w).1.map fun (d, rows) =>
          outputRelation ((d.resultColumns label).map Output.ofColumn) (rows.map Row.values),
        (exec (selection hook name label condition) w).2) := by
  rw [select_rowsOf, exec_bind]
  rcases hselection : exec (selection hook name label condition) w with ⟨err | ⟨d, rows⟩, w'⟩
  · rfl
  · obtain ⟨t, -, ht, rfl, hpassing, -⟩ :=
      exists_of_selection hw (fun t ht => (hnamed t ht).keyed) hselection
    obtain ⟨hmem, -⟩ := Store.mem_of_table? ht
    have hfits : Relation.Fits ⟨t.definition.resultColumns label, rows.map Row.values⟩
        (t.definition.resultColumns label) := by
      refine ⟨rfl, fun values hvalues => ?_⟩
      obtain ⟨row, hrow, rfl⟩ := List.mem_map.mp hvalues
      rw [(hwidth t hmem).width row (hpassing.subset hrow)]
      exact (List.length_map _).symm
    have hread := exec_outputRow_columns ((services hook).access (Select.rowsOf name label condition).depth) []
      hfits ((hnamed t hmem).names.resultColumns label) w'
    dsimp only
    rw [exec_bind_ok hread]
    rfl

/-- Selecting logs nothing. -/
theorem undo_selection (hook : Hook) (name : ObjectName) (label : Option String)
    (condition : Option Expression) (hq : w.database.Quiet) :
    (exec (selection hook name label condition) w).2.transaction.undo = w.transaction.undo := by
  have hmoves : Moves (Leads Eq) (selection hook name label condition) :=
    (moves_definition name).bind fun d => (moves_ofExcept _).bind fun _ =>
      (moves_matchingRows hook d label condition).bind fun _ => moves_pure _
  exact congrArg (fun c => c.transaction.undo) (hmoves w hq).2.symm

end Action

namespace Engine

variable {e : Engine} {s : Statement} {o : Outcome}

/-- What a statement answers that logs nothing. -/
theorem answer_of_unlogged (he : e.Reachable) (i : Nat) (hs : ¬ s.IsControl)
    (hundo : (exec (Action.perform (e.connection i).database.hook s)
      (e.connection i).starting).2.transaction.undo = []) :
    e.answer i s =
      (exec (Action.perform (e.connection i).database.hook s) (e.connection i).starting).1 := by
  have hc := he.inv i
  unfold answer
  rw [exec_executeStatement]
  exact (Connection.exec_executeStatement_of_unlogged hs hc.quiet
    (fun t ht => (hc.active t ht).1) hundo).1

/-- A statement that succeeds was performed, and the store is what it left. -/
theorem performed_of_answer (he : e.Reachable) (i : Nat) (hs : ¬ s.IsControl)
    (hok : e.answer i s = .ok o) :
    ∃ w', exec (Action.perform (e.connection i).database.hook s) (e.connection i).starting =
        (.ok o, w') ∧ (e.execute i s).store = w'.database.store := by
  have hc := he.inv i
  have hrun : exec (Connection.executeStatement (e.connection i).database.hook s) (e.connection i) =
      (.ok o, _) := Prod.ext ((congrArg Prod.fst (exec_executeStatement _ _)).symm.trans hok) rfl
  obtain ⟨w', hperform, hdone⟩ :=
    Connection.performed_of_executeStatement hs hc.quiet (fun t ht => (hc.active t ht).1) hrun
  refine ⟨w', hperform, ?_⟩
  show (exec (Session.executeStatement _) (e.connection i)).2.database.store = _
  rw [exec_executeStatement, hdone]

/-- What is performed succeeds, and leaves the store as it was left then. -/
theorem answer_of_performed (he : e.Reachable) (i : Nat) (hs : ¬ s.IsControl) {w' : Work}
    (h : exec (Action.perform (e.connection i).database.hook s) (e.connection i).starting = (.ok o, w')) :
    e.answer i s = .ok o ∧ (e.execute i s).store = w'.database.store := by
  have hc := he.inv i
  have hok : e.answer i s = .ok o := by
    unfold answer
    rw [exec_executeStatement,
      Connection.executeStatement_ok_iff hs hc.quiet fun t ht => (hc.active t ht).1, h]
  obtain ⟨_, hperform, hstore⟩ := performed_of_answer he i hs hok
  cases h.symm.trans hperform
  exact ⟨hok, hstore⟩

theorem answer_query (he : e.Reachable) (i : Nat) (q : Select) :
    e.answer i (.select q) = (exec ((Action.services (e.connection i).database.hook).select q)
      (e.connection i).starting).1.map .selected := by
  have hc := he.inv i
  unfold answer
  rw [exec_executeStatement,
    Connection.exec_executeStatement_select hc.quiet fun t ht => (hc.active t ht).1]

/-- A deletion that fails while it selects rows answers with that failure. -/
theorem answer_delete_of_error (he : e.Reachable) (i : Nat) {name : ObjectName}
    {label : Option String} {condition : Option Expression} {err : Error}
    (h : (exec (Action.selection (e.connection i).database.hook name label condition)
      (e.connection i).starting).1 = .error err) :
    e.answer i (.delete name label condition) = .error err := by
  have hperform : exec (Action.perform (e.connection i).database.hook (.delete name label condition))
      (e.connection i).starting =
        (.error err, (exec (Action.selection (e.connection i).database.hook name label condition)
          (e.connection i).starting).2) := by
    show exec (Action.deleteStatement _ name label condition) _ = _
    rw [Action.deleteStatement_eq]
    exact exec_bind_error (Prod.ext h rfl)
  rw [answer_of_unlogged he i id, hperform]
  rw [hperform]
  exact (Action.undo_selection _ name label condition (reads_starting he i).quiet_work).trans
    (e.connection i).undo_starting

section

variable {i : Nat} {name : ObjectName} {label : Option String} {condition : Option Expression} {t : Table}
  {rows : List Row}

theorem answer_select_rowsOf (he : e.Reachable) (i : Nat) (name : ObjectName) (label : Option String)
    (condition : Option Expression) :
    e.answer i (.select (.rowsOf name label condition)) =
      (exec (Action.selection (e.connection i).database.hook name label condition)
        (e.connection i).starting).1.map fun (d, rows) => .selected
          (outputRelation ((d.resultColumns label).map Output.ofColumn) (rows.map Row.values)) := by
  rw [answer_query he i, Action.exec_select_rowsOf (reads_starting he i)
    (he.inv_of Table.invariant_named Table.Named.pictured i).tables
    (he.inv_of Table.invariant_rectangular Table.Rectangular.pictured i).tables]
  dsimp only
  rcases (exec (Action.selection (e.connection i).database.hook name label condition)
    (e.connection i).starting).1 with err | ⟨d, rows⟩ <;> rfl

/-- The question fails just where the selection does. -/
theorem answer_select_rowsOf_error_iff (he : e.Reachable) {err : Error} :
    e.answer i (.select (.rowsOf name label condition)) = .error err ↔
      (exec (Action.selection (e.connection i).database.hook name label condition)
        (e.connection i).starting).1 = .error err := by
  rw [answer_select_rowsOf he]
  rcases (exec (Action.selection (e.connection i).database.hook name label condition)
    (e.connection i).starting).1 with err' | ⟨d, rows⟩
  · rw [Except.map, Except.error.injEq, Except.error.injEq]
  · exact ⟨nofun, nofun⟩

/-- What a session selects for a condition: a table, and all those of its rows that the condition is true of. -/
structure Selects (e : Engine) (i : Nat) (name : ObjectName) (label : Option String)
    (condition : Option Expression) (t : Table) (rows : List Row) : Prop where
  table : e.store.table? (name.inSchema e.database.config.defaultSchema) = some t
  passing : e.database.Passing t label condition rows
  selected : (exec (Action.selection (e.connection i).database.hook name label condition)
    (e.connection i).starting).1 = .ok (t.definition, rows)

/-- An answer to the question has the values of the rows that are selected. -/
theorem exists_selects (he : e.Reachable) {r : Relation}
    (h : e.answer i (.select (.rowsOf name label condition)) = .ok (.selected r)) :
    ∃ t rows, e.Selects i name label condition t rows ∧ r.rows = rows.map Row.values := by
  rw [answer_select_rowsOf he] at h
  rcases hselection : exec (Action.selection (e.connection i).database.hook name label condition)
    (e.connection i).starting with ⟨err | ⟨d, rows⟩, w'⟩ <;> rw [hselection] at h
  · cases h
  · cases h
    obtain ⟨t, -, ht, rfl, hpassing, -⟩ :=
      Action.exists_of_selection (reads_starting he i) (he.inv i).tables hselection
    exact ⟨t, rows, ⟨ht, hpassing, congrArg Prod.fst hselection⟩, rfl⟩

/-- A deletion that succeeds removes the rows that are selected. -/
theorem Selects.deleted (h : e.Selects i name label condition t rows) (he : e.Reachable)
    (hok : e.answer i (.delete name label condition) = .ok o) :
    o = .deleted rows.length ∧ (e.execute i (.delete name label condition)).store =
      e.store.put t.definition.fullName (t.without (rows.map Row.id)) := by
  obtain ⟨w', hperform, hstore⟩ := performed_of_answer he i id hok
  obtain ⟨u, others, drawn', selected', hu, hselected, rfl, hreads⟩ :=
    Action.exists_of_deleteStatement (reads_starting he i) (he.inv i).distinct (he.inv i).tables hperform
  -- it selected the same rows of the same table
  cases h.table.symm.trans hu
  cases h.selected.symm.trans (congrArg Prod.fst hselected)
  exact ⟨rfl, hstore.trans hreads.store_eq⟩

/-- An update that succeeds rewrites the rows that are selected. -/
theorem Selects.updated (h : e.Selects i name label condition t rows) (he : e.Reachable)
    {assignments : List (String × Expression)}
    (hok : e.answer i (.update name label assignments condition) = .ok o) :
    o = .updated rows.length ∧ ∃ values, (e.execute i (.update name label assignments condition)).store =
      e.store.put t.definition.fullName (t.rewritten (rows.map Row.id) values) := by
  obtain ⟨w', hperform, hstore⟩ := performed_of_answer he i id hok
  obtain ⟨u, places, others, values, drawn', selected', hupdates, hselected, rfl, hreads⟩ :=
    Action.exists_of_updateStatement_selecting (reads_starting he i) (he.inv i).distinct (he.inv i).tables
      hperform
  cases h.table.symm.trans hupdates.table
  cases h.selected.symm.trans (congrArg Prod.fst hselected)
  exact ⟨rfl, values, hstore.trans hreads.store_eq⟩

/-- An update does not succeed where selecting rows fails. -/
theorem answer_update_ne_ok (he : e.Reachable) {err : Error}
    (h : (exec (Action.selection (e.connection i).database.hook name label condition)
      (e.connection i).starting).1 = .error err) (assignments : List (String × Expression)) (o : Outcome) :
    e.answer i (.update name label assignments condition) ≠ .ok o := by
  intro hok
  obtain ⟨w', hperform, -⟩ := performed_of_answer he i id hok
  obtain ⟨u, places, rows, values, drawn', selected', -, hselected, -⟩ :=
    Action.exists_of_updateStatement_selecting (reads_starting he i) (he.inv i).distinct (he.inv i).tables
      hperform
  rw [hselected] at h
  cases h

end

/-- Let a session of an engine that a new one comes to ask for everything of a table where a condition is
true, delete what it is true of, or update that, each in the store as it is. The question fails when the
deletion fails at its first step, which selects rows, and then the update fails as well. If it is answered,
then what a deletion removes and what an update rewrites are the rows of the answer: those of the table on
which the condition is true in the store before. They are as many as is reported, and nothing else changes. -/
theorem where_selects_alike (he : e.Reachable) (i : Nat) (name : ObjectName) (label : Option String)
    (condition : Option Expression) :
    let hook := (e.connection i).database.hook
    let selection := Action.selection hook name label condition
    let select := e.answer i (.select (.rowsOf name label condition))
    let delete := e.answer i (.delete name label condition)
    (Action.deleteStatement hook name label condition = selection >>= fun (d, rows) => do
      rows.forM fun row => Action.delete hook d.fullName row.id
      return .deleted rows.length) ∧
    (∀ err, select = .error err ↔ (exec selection (e.connection i).starting).1 = .error err) ∧
    (∀ err, select = .error err → delete = .error err ∧
      ∀ assignments o, e.answer i (.update name label assignments condition) ≠ .ok o) ∧
    ∀ r, select = .ok (.selected r) → ∃ t rows,
      e.Selects i name label condition t rows ∧ r.rows = rows.map Row.values ∧
      (∀ o, delete = .ok o → o = .deleted r.rows.length ∧
        (e.execute i (.delete name label condition)).store =
          e.store.put t.definition.fullName (t.without (rows.map Row.id))) ∧
      ∀ assignments o, e.answer i (.update name label assignments condition) = .ok o →
        o = .updated r.rows.length ∧ ∃ values,
          (e.execute i (.update name label assignments condition)).store =
            e.store.put t.definition.fullName (t.rewritten (rows.map Row.id) values) := by
  intro hook selection select delete
  refine ⟨Action.deleteStatement_eq hook name label condition, fun err => answer_select_rowsOf_error_iff he,
    fun err herr => ?_, fun r hr => ?_⟩
  · have hfails := (answer_select_rowsOf_error_iff he).mp herr
    exact ⟨answer_delete_of_error he i hfails, answer_update_ne_ok he hfails⟩
  · obtain ⟨t, rows, hselects, hrows⟩ := exists_selects he hr
    have hlength : r.rows.length = rows.length := by rw [hrows, List.length_map]
    refine ⟨t, rows, hselects, hrows, fun o hok => ?_, fun assignments o hok => ?_⟩
    · rw [hlength]
      exact hselects.deleted he hok
    · rw [hlength]
      exact hselects.updated he hok

end Engine

namespace Sample

/-- `id = (SELECT max(id) FROM items)` -/
def ofGreatestId : Option Expression :=
  some (.binary .equal (.column none "id") (.subquery greatestId))

/-- `code = code + 1` -/
def shifting : List (String × Expression) :=
  [("code", .binary .add (.column none "code") (.literal (.integer 1)))]

theorem greatest_selected :
    ∃ r t rows values,
      filled.answer 0 (.select (.rowsOf ⟨none, "items"⟩ none ofGreatestId)) = .ok (.selected r) ∧
      r.rows.length = 1 ∧ filled.Selects 0 ⟨none, "items"⟩ none ofGreatestId t rows ∧
      r.rows = rows.map Row.values ∧
      filled.answer 0 (.delete ⟨none, "items"⟩ none ofGreatestId) = .ok (.deleted 1) ∧
      (filled.execute 0 (.delete ⟨none, "items"⟩ none ofGreatestId)).store =
        filled.store.put t.definition.fullName (t.without (rows.map Row.id)) ∧
      filled.answer 0 (.update ⟨none, "items"⟩ none shifting ofGreatestId) = .ok (.updated 1) ∧
      (filled.execute 0 (.update ⟨none, "items"⟩ none shifting ofGreatestId)).store =
        filled.store.put t.definition.fullName (t.rewritten (rows.map Row.id) values) := by
  obtain ⟨r, hanswer, hlength⟩ := exists_of_answers (e := filled)
    (q := .rowsOf ⟨none, "items"⟩ none ofGreatestId) (k := fun r => r.rows.length == 1) (by decide +kernel)
  have hlength := beq_iff_eq.mp hlength
  obtain ⟨o, ho⟩ := exists_ok_of_isOk
    (r := filled.answer 0 (.delete ⟨none, "items"⟩ none ofGreatestId)) (by decide +kernel)
  obtain ⟨o', ho'⟩ := exists_ok_of_isOk
    (r := filled.answer 0 (.update ⟨none, "items"⟩ none shifting ofGreatestId)) (by decide +kernel)
  obtain ⟨-, -, -, hselected⟩ :=
    Engine.where_selects_alike filled_reachable 0 ⟨none, "items"⟩ none ofGreatestId
  obtain ⟨t, rows, hselects, hrows, hdelete, hupdate⟩ := hselected r hanswer
  obtain ⟨rfl, hdeleted⟩ := hdelete o ho
  obtain ⟨rfl, values, hupdated⟩ := hupdate shifting o' ho'
  rw [hlength] at ho ho'
  exact ⟨r, t, rows, values, hanswer, hlength, hselects, hrows, ho, hdeleted, ho', hupdated⟩

end Sample

end SqlStore
