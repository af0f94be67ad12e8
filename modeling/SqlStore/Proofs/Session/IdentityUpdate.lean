import SqlStore.Proofs.Session.Alignment
import SqlStore.Proofs.Session.Selecting
import SqlStore.Proofs.Table.Lasting

/-!
# Updates that change nothing

An update that assigns columns to themselves finds each reference at the place that is assigned, and converts and
checks each row that it selects as if it were a new one. So it changes nothing exactly if the table admits all of
these rows (`Table.Admits`). A table whose columns are all lasting admits every row that it has, whatever was
rolled back before; where a column is not, what came back from a snapshot may be refused.
-/

namespace SqlStore

open Run

/-! ## Assignments of columns to themselves -/

/-- `column = qualifier.column` for each of some columns. -/
def ownAssignments (qualifier : Option String) (columns : List String) : List (String × Expression) :=
  columns.map fun c => (c, .column qualifier c)

namespace TableDefinition

variable {d : TableDefinition} {label qualifier : Option String}

/-- A reference may name the table by its label, or by its name if it has none. -/
def NamedBy (d : TableDefinition) (label qualifier : Option String) : Prop :=
  ∀ q ∈ qualifier, q = label.getD d.name

/-- A reference to a column is found at its place. -/
theorem resolve_own (hd : d.NamesDiffer) (hq : d.NamedBy label qualifier) {i : Nat} {c : String}
    (hc : (d.columns.map Column.name)[i]? = some c) :
    ResultColumn.resolve (d.resultColumns label) qualifier c = .ok (some i) := by
  obtain ⟨hi, rfl⟩ := List.getElem?_eq_some_iff.mp hc
  have hi' : i < (d.resultColumns label).length := by simpa [resultColumns] using hi
  have hname : (d.resultColumns label)[i].name = (d.columns.map Column.name)[i] := by
    simp [resultColumns]
  rw [← hname]
  refine ResultColumn.resolve_of_fits_self (hd.resultColumns label) hi' ?_
  have htable : (d.resultColumns label)[i].table = some (label.getD d.name) := by simp [resultColumns]
  unfold ResultColumn.fits
  rw [htable, Bool.and_eq_true, Bool.or_eq_true]
  refine ⟨beq_self_eq_true _, ?_⟩
  cases qualifier with
  | none => exact .inl rfl
  | some q =>
    rw [hq q rfl]
    exact .inr (beq_self_eq_true _)

/-- So it passes the check of a clause. -/
theorem checkClause_own (hd : d.NamesDiffer) (hq : d.NamedBy label qualifier) {i : Nat} {c : String}
    (hc : (d.columns.map Column.name)[i]? = some c) (clause : String) :
    (Expr.column qualifier c : Expression).checkClause [Frame.ofColumns (d.resultColumns label)] clause =
      .ok ⟨⟩ := by
  have hbinds : Scope.binds [Frame.ofColumns (d.resultColumns label)] qualifier c = .ok true := by
    unfold Scope.binds
    rw [show ResultColumn.resolve (Frame.ofColumns (d.resultColumns label)).columns qualifier c = _ from
      resolve_own hd hq hc]
    rfl
  have hchecked : (Expr.column qualifier c : Expression).checkReference
      [Frame.ofColumns (d.resultColumns label)] = .ok ⟨⟩ := by
    show (Scope.binds _ qualifier c >>= fun _ => _) = _
    rw [hbinds]
    rfl
  show (Expr.checkReference _ (.column qualifier c) >>= fun _ => _) = _
  rw [hchecked]
  rfl

end TableDefinition

namespace Action

variable {d : TableDefinition} {label qualifier : Option String} {columns : List String}
  {places : List (Nat × Expression)}

/-- At each place stands the column that its expression refers to. -/
def OwnPlaces (d : TableDefinition) (qualifier : Option String) (places : List (Nat × Expression)) :
    Prop :=
  ∀ p ∈ places, ∃ c, (d.columns.map Column.name)[p.1]? = some c ∧ p.2 = .column qualifier c

/-- The places of different columns are found. -/
theorem exists_assignmentPlaces (hd : d.NamesDiffer) (hq : d.NamedBy label qualifier)
    (hcolumns : ∀ c ∈ columns, c ∈ d.columns.map Column.name) (hnodup : columns.Nodup) (seen : List Nat)
    (hseen : ∀ i ∈ seen, ∀ c ∈ columns, (d.columns.map Column.name)[i]? ≠ some c) :
    ∃ places, assignmentPlaces d [Frame.ofColumns (d.resultColumns label)] seen
      (ownAssignments qualifier columns) = .ok places ∧ OwnPlaces d qualifier places := by
  induction columns generalizing seen with
  | nil => exact ⟨[], rfl, fun p hp => absurd hp List.not_mem_nil⟩
  | cons c columns ih =>
    obtain ⟨hc, hcolumns⟩ := List.forall_mem_cons.mp hcolumns
    obtain ⟨hfirst, hnodup⟩ := List.nodup_cons.mp hnodup
    obtain ⟨i, hi⟩ := List.mem_iff_getElem?.mp hc
    have hfree : i ∉ seen := fun hmem => hseen i hmem c List.mem_cons_self hi
    have hothers : ∀ j ∈ i :: seen, ∀ other ∈ columns,
        (d.columns.map Column.name)[j]? ≠ some other := by
      refine List.forall_mem_cons.mpr ⟨fun other hother heq => ?_, fun j hj other hother =>
        hseen j hj other (List.mem_cons_of_mem _ hother)⟩
      -- the name at the place is that of the first column, which is not listed again
      cases hi.symm.trans heq
      exact hfirst hother
    obtain ⟨places, hplaces, hown⟩ := ih hcolumns hnodup (i :: seen) hothers
    refine ⟨(i, .column qualifier c) :: places, ?_, List.forall_mem_cons.mpr ⟨⟨c, hi, rfl⟩, hown⟩⟩
    have hrequire : (!seen.contains i) = true := by simpa using hfree
    show (d.columnIndex c >>= _) = _
    rw [(TableDefinition.columnIndex_eq_ok_iff hd).mpr hi]
    show (require (!seen.contains i) _ >>= fun _ => _) = _
    rw [hrequire]
    show ((Expr.column qualifier c : Expression).checkClause _ "UPDATE" >>= fun _ => _) = _
    rw [TableDefinition.checkClause_own hd hq hi]
    show (assignmentPlaces d _ (i :: seen) (ownAssignments qualifier columns) >>= fun rest => _) = _
    rw [hplaces]
    rfl

/-- Assigning columns to themselves gives a row back. -/
theorem exec_assigned_own (hook : Hook) (hd : d.NamesDiffer) (hq : d.NamedBy label qualifier) {row : Tuple}
    (hwidth : row.length = d.columns.length) (hplaces : OwnPlaces d qualifier places) (w : Work) :
    exec (assigned hook (d.resultColumns label) row places) w = (.ok row, w) := by
  unfold assigned
  induction places with
  | nil => rfl
  | cons p places ih =>
    obtain ⟨⟨c, hc, hp⟩, hplaces⟩ := List.forall_mem_cons.mp hplaces
    obtain ⟨hi, -⟩ := List.getElem?_eq_some_iff.mp hc
    have hi' : p.1 < row.length := by
      rw [hwidth]
      simpa using hi
    have hvalue : Scope.value [Frame.ofRow (d.resultColumns label) row] qualifier c = .ok row[p.1] :=
      Scope.value_of_resolve (TableDefinition.resolve_own hd hq hc) (List.getElem?_eq_getElem hi')
    have hevaluate : exec ((services hook).evaluate [Frame.ofRow (d.resultColumns label) row] p.2) w =
        (.ok row[p.1], w) := by
      rw [hp]
      show exec (ofExcept (Scope.value _ qualifier c)) w = _
      rw [hvalue, exec_ofExcept]
    have hset : row.set p.1 row[p.1] = row := List.set_getElem_self hi'
    rw [List.foldlM_cons, bind_assoc, exec_bind_ok hevaluate]
    simp only [pure_bind]
    rw [hset]
    exact ih hplaces

end Action

/-- The table is found by its name and by no other, and it is as tables of sessions are, whatever its values. -/
structure Database.Stores (db : Database) (t : Table) : Prop where
  distinct : db.store.Distinct
  table : db.store.table? t.definition.fullName = some t
  ordered : Table.Ordered t.rows
  names : t.definition.NamesDiffer
  width : ∀ r ∈ t.rows, r.values.length = t.definition.columns.length

namespace Database.Stores

variable {db : Database} {t : Table} {row : Row}

/-- Rewriting a row of the table with its own values. -/
theorem rewritten_self (h : db.Stores t) (hrow : row ∈ t.rows) :
    (t.rewritten [row.id] fun _ => row.values) = t := by
  rw [Table.rewritten_eq_self_iff]
  intro q hq hid
  rw [h.ordered.eq_of_id_eq hq hrow (List.mem_singleton.mp hid)]

theorem withTable_self (h : db.Stores t) : db.withTable t = db :=
  Database.withTable_self h.distinct h.table

end Database.Stores

/-! ## Updating rows to what they are -/

namespace Action

variable {db : Database} {t : Table} {w w' : Work} {drawn : Nat} {hook : Hook}
  {label qualifier : Option String} {places : List (Nat × Expression)} {rows : List Row}

/-- A row that passes the checks is put back in its place. -/
theorem exec_update_self (hook : Hook) (hw : w.Reads db drawn) (hdb : db.Stores t)
    (hnever : db.NeverRefuses t.definition.fullName .update) {row : Row} (hrow : row ∈ t.rows)
    (haccept : t.definition.accept row.values = .ok row.values)
    (hunique : t.checkUnique row.values (some row.id) = .ok ⟨⟩) :
    ∃ w', exec (update hook t.definition.fullName row.id row.values) w = (.ok row, w') ∧
      w'.Reads db drawn := by
  obtain ⟨prepared, hprepare, hprepared⟩ := exists_of_prepareWrite hw
  have hexisting : existingRow t t.definition.fullName row.id = .ok row := by
    unfold existingRow
    rw [show t.row? row.id = some row from hdb.ordered.rowIn_self hrow]
  obtain ⟨fired, hbefore, hfired⟩ :=
    hprepared.exists_of_neverRefuses hnever hook .before (some row) (some (row.withValues row.values))
  obtain ⟨stored, hput, hstored⟩ :=
    exists_of_putTable (u := t.put (row.withValues row.values)) hfired hdb.table rfl
  -- the table that is put there is the one that was there
  rw [Table.put_eq_rewritten hdb.ordered hrow, hdb.rewritten_self hrow, hdb.withTable_self] at hstored
  obtain ⟨logged, hlog, hlogged⟩ := exists_of_log hstored (.put t.definition.fullName row)
  obtain ⟨done, hafter, hdone⟩ :=
    hlogged.exists_of_neverRefuses hnever hook .after (some row) (some (row.withValues row.values))
  refine ⟨done, ?_, hdone⟩
  have hchecked : t.checkUnique (row.withValues row.values).values (some row.id) = .ok ⟨⟩ := hunique
  unfold update
  rw [exec_bind_ok hprepare, exec_bind_ok (exec_table_of_reads hprepared hdb.table),
    exec_ofExcept_bind_ok hexisting, exec_ofExcept_bind_ok haccept,
    exec_bind_ok hbefore, exec_bind_ok (exec_table_of_reads hfired hdb.table),
    exec_ofExcept_bind_ok hchecked, exec_bind_ok hput, exec_bind_ok hlog,
    exec_bind_ok hafter]
  rfl

/-- What an update does with each row that it selected. -/
def rewriteRow (hook : Hook) (d : TableDefinition) (label : Option String)
    (places : List (Nat × Expression)) (row : Row) : Action Unit := do
  let values ← assigned hook (d.resultColumns label) row.values places
  let _ ← update hook d.fullName row.id values

section

variable (hdb : db.Stores t) (hq : t.definition.NamedBy label qualifier)
  (hplaces : OwnPlaces t.definition qualifier places)

include hdb hq hplaces

/-- The loop over rows that pass the checks of an update as they are. -/
theorem exec_rewriteRows_own (hw : w.Reads db drawn)
    (hnever : db.NeverRefuses t.definition.fullName .update)
    (hrows : ∀ r ∈ rows, r ∈ t.rows ∧ t.definition.accept r.values = .ok r.values ∧
      t.checkUnique r.values (some r.id) = .ok ⟨⟩) :
    ∃ w', exec (rows.forM (rewriteRow hook t.definition label places)) w = (.ok ⟨⟩, w') ∧
      w'.Reads db drawn := by
  induction rows generalizing w with
  | nil => exact ⟨w, rfl, hw⟩
  | cons row rows ih =>
    obtain ⟨⟨hrow, haccept, hunique⟩, hrows⟩ := List.forall_mem_cons.mp hrows
    obtain ⟨updated, hupdate, hupdated⟩ := exec_update_self hook hw hdb hnever hrow haccept hunique
    obtain ⟨w', hrest, hdone⟩ := ih hupdated hrows
    have hstep : exec (rewriteRow hook t.definition label places row) w = (.ok ⟨⟩, updated) := by
      unfold rewriteRow
      rw [exec_bind_ok (exec_assigned_own hook hdb.names hq (hdb.width row hrow) hplaces w),
        exec_bind_ok hupdate]
      rfl
    refine ⟨w', ?_, hdone⟩
    show exec (rewriteRow hook t.definition label places row >>= fun _ => _) w = _
    rw [exec_bind_ok hstep]
    exact hrest

/-- If the loop succeeds and the store is what it was, each row passed the checks as it was. -/
theorem of_rewriteRows_own {u : Unit} (hw : w.Reads db drawn) (hrows : ∀ r ∈ rows, r ∈ t.rows)
    (hids : (rows.map Row.id).Nodup)
    (h : exec (rows.forM (rewriteRow hook t.definition label places)) w = (.ok u, w'))
    (hstore : w'.database.store = db.store) :
    ∀ row ∈ rows, t.definition.accept row.values = .ok row.values ∧
      t.checkUnique row.values (some row.id) = .ok ⟨⟩ := by
  induction rows generalizing w with
  | nil => exact fun row hrow => absurd hrow List.not_mem_nil
  | cons row rows ih =>
    obtain ⟨hrow, hrows⟩ := List.forall_mem_cons.mp hrows
    obtain ⟨hid, hids⟩ := List.nodup_cons.mp hids
    obtain ⟨_, updated, hstep, h⟩ := exec_bind_eq_ok h
    obtain ⟨given, evaluated, hassigned, hstep⟩ := exec_bind_eq_ok hstep
    cases (exec_assigned_own hook hdb.names hq (hdb.width row hrow) hplaces w).symm.trans hassigned
    obtain ⟨new, _, hupdate, hstep⟩ := exec_bind_eq_ok hstep
    cases hstep
    obtain ⟨old, accepted, hold, haccept, hunique, rfl, hupdated⟩ := exists_of_update hw hdb.table hupdate
    rw [show t.row? row.id = some row from hdb.ordered.rowIn_self hrow] at hold
    cases hold
    rw [Table.put_eq_rewritten hdb.ordered hrow] at hupdated
    -- in the end the row has the values that were accepted for it, and these are its own
    obtain ⟨values, drawn', hdone, -⟩ := exists_of_updateRows hupdated
      (Database.distinct_withTable hdb.distinct _) (Database.table?_withTable hdb.table rfl)
      (hdb.ordered.rewritten _ _) (Table.subset_rewritten hrows hid _) hids h
    rw [Database.withTable_rewritten hid] at hdone
    have hfound : w'.database.store.table? t.definition.fullName = some (t.rewritten
        (row.id :: rows.map Row.id) (Function.update values row.id accepted)) := by
      rw [hdone.store_eq]
      exact Database.table?_withTable hdb.table rfl
    rw [hstore, hdb.table] at hfound
    have hsame := Table.rewritten_eq_self_iff.mp (Option.some.inj hfound).symm row hrow
      List.mem_cons_self
    rw [Function.update_self] at hsame
    subst hsame
    -- so the first row left the database as it was
    rw [hdb.rewritten_self hrow, hdb.withTable_self] at hupdated
    exact List.forall_mem_cons.mpr ⟨⟨haccept, hunique⟩, ih hupdated hrows hids h⟩

end

/-- An update selects rows once its assignments are checked, and then rewrites them. -/
theorem exec_updateStatement_of_selection {name : ObjectName} {condition : Option Expression}
    {assignments : List (String × Expression)} {d : TableDefinition} {selected : Work}
    (hselection : exec (selection hook name label condition) w = (.ok (d, rows), selected))
    (hplaces : assignmentPlaces d [Frame.ofColumns (d.resultColumns label)] [] assignments = .ok places) :
    exec (updateStatement hook name label assignments condition) w =
      exec (rows.forM (rewriteRow hook d label places) >>= fun _ => pure (.updated rows.length))
        selected := by
  obtain ⟨_, named, hdefinition, h⟩ := exec_bind_eq_ok hselection
  obtain ⟨_, checked, hcheck, h⟩ := exec_bind_eq_ok h
  obtain ⟨_, matched, hrows, h⟩ := exec_bind_eq_ok h
  cases h
  unfold updateStatement
  rw [exec_bind_ok hdefinition, exec_bind_ok hcheck, exec_ofExcept_bind_ok hplaces,
    exec_bind_ok hrows]
  rfl

end Action

namespace Engine

variable {e : Engine} {i : Nat} {name : ObjectName} {label qualifier : Option String}
  {condition : Option Expression} {t : Table} {rows : List Row} {columns : List String}

theorem Reachable.stores (he : e.Reachable) {n : TableName} (ht : e.store.table? n = some t) :
    e.database.Stores t := by
  obtain ⟨hmem, hname⟩ := Store.mem_of_table? ht
  have hkeyed := (he.inv 0).tables t hmem
  refine ⟨(he.inv 0).distinct, ?_, hkeyed.ordered, ?_, ?_⟩
  · rw [hname]
    exact ht
  · exact ((he.inv_of Table.invariant_named Table.Named.pictured 0).tables t hmem).names
  · exact ((he.inv_of Table.invariant_rectangular Table.Rectangular.pictured 0).tables t hmem).width

/-- A table of lasting columns admits its rows. -/
theorem Reachable.admits (he : e.Reachable) {n : TableName} (ht : e.store.table? n = some t)
    (hlasting : t.definition.isLasting = true) {row : Row} (hrow : row ∈ t.rows) : t.Admits row := by
  obtain ⟨hmem, -⟩ := Store.mem_of_table? ht
  have htable := (he.inv_of Table.invariant_lasting Table.Lasting.pictured 0).tables t hmem
  exact (htable.sound hlasting).admits hrow

/-- The rows that the table admits are those that pass the checks of an update as they are. -/
theorem Reachable.admits_iff (he : e.Reachable) {n : TableName} (ht : e.store.table? n = some t)
    {row : Row} (hrow : row ∈ t.rows) : t.Admits row ↔
      t.definition.accept row.values = .ok row.values ∧
        t.checkUnique row.values (some row.id) = .ok ⟨⟩ := by
  obtain ⟨hmem, -⟩ := Store.mem_of_table? ht
  have htable := (he.inv_of (Table.invariant_shaped shape_kinds) (Table.Shaped.pictured shape_kinds)
    0).tables t hmem
  exact Table.admits_iff htable.rows hrow

/-- The update of columns to themselves on the rows that were selected. -/
theorem Selects.identity_update_iff (h : e.Selects i name label condition t rows) (he : e.Reachable)
    (hnever : e.database.NeverRefuses t.definition.fullName .update)
    (hq : t.definition.NamedBy label qualifier) (hnodup : columns.Nodup)
    (hcolumns : ∀ c ∈ columns, c ∈ t.definition.columns.map Column.name) :
    (e.answer i (.update name label (ownAssignments qualifier columns) condition) =
          .ok (.updated rows.length) ∧
        (e.execute i (.update name label (ownAssignments qualifier columns) condition)).store = e.store) ↔
      ∀ row ∈ rows, t.Admits row := by
  have hdb := he.stores h.table
  have hrows := h.passing.subset
  obtain ⟨places, hplaces, hown⟩ :=
    Action.exists_assignmentPlaces hdb.names hq hcolumns hnodup [] fun i hi => absurd hi List.not_mem_nil
  have hselection : exec (Action.selection (e.connection i).database.hook name label condition)
      (e.connection i).starting = (.ok (t.definition, rows), _) := Prod.ext h.selected rfl
  obtain ⟨u, drawn, hu, -, -, hselected⟩ :=
    Action.exists_of_selection (reads_starting he i) (he.inv i).tables hselection
  -- selecting comes first, and then the loop decides
  have hperform := Action.exec_updateStatement_of_selection hselection hplaces
  constructor
  · rintro ⟨hok, hstore⟩ row hrow
    obtain ⟨w', hperformed, hstore'⟩ := performed_of_answer he i id hok
    obtain ⟨_, looped, hloop, hend⟩ := exec_bind_eq_ok (hperform.symm.trans hperformed)
    cases hend
    exact (he.admits_iff h.table (hrows hrow)).mpr (Action.of_rewriteRows_own hdb hq hown hselected hrows
      (h.passing.nodup_ids hdb.ordered) hloop (hstore'.symm.trans hstore) row hrow)
  · intro hadmits
    obtain ⟨w', hloop, hdone⟩ := Action.exec_rewriteRows_own hdb hq hown hselected hnever fun row hrow =>
      ⟨hrows hrow, (he.admits_iff h.table (hrows hrow)).mp (hadmits row hrow)⟩
    rw [exec_bind_ok hloop] at hperform
    obtain ⟨hok, hstore⟩ := answer_of_performed
      (s := .update name label (ownAssignments qualifier columns) condition) he i id hperform
    exact ⟨hok, hstore.trans hdone.store_eq⟩

/-- Let a session of an engine that a new one comes to ask for the rows of a table on which a condition is true,
and be answered. Then, where no trigger of updates fails, the update that assigns different columns of the table
to themselves under this condition succeeds and changes nothing exactly if the table admits the rows of the
answer: each has the form of the definition, and holds nothing that another row holds where it may not. A table
whose columns are all lasting admits all rows. -/
theorem identity_update_keeps_store (he : e.Reachable) (i : Nat) (name : ObjectName)
    (label : Option String) (condition : Option Expression) {r : Relation}
    (hanswer : e.answer i (.select (.rowsOf name label condition)) = .ok (.selected r)) :
    ∃ t rows, e.Selects i name label condition t rows ∧ r.rows = rows.map Row.values ∧
      ∀ (qualifier : Option String) (columns : List String),
        e.database.NeverRefuses t.definition.fullName .update → t.definition.NamedBy label qualifier →
        columns.Nodup → (∀ c ∈ columns, c ∈ t.definition.columns.map Column.name) →
        let update := .update name label (ownAssignments qualifier columns) condition
        let kept := e.answer i update = .ok (.updated r.rows.length) ∧ (e.execute i update).store = e.store
        (kept ↔ ∀ row ∈ rows, t.Admits row) ∧ (t.definition.isLasting = true → kept) := by
  obtain ⟨t, rows, hselects, hrows⟩ := exists_selects he hanswer
  refine ⟨t, rows, hselects, hrows, fun qualifier columns hnever hq hnodup hcolumns => ?_⟩
  have hiff := hselects.identity_update_iff he hnever hq hnodup hcolumns
  rw [show r.rows.length = rows.length by rw [hrows, List.length_map]]
  refine ⟨hiff, fun hlasting => hiff.mpr fun row hrow => ?_⟩
  exact he.admits hselects.table hlasting (hselects.passing.subset hrow)

end Engine

namespace Sample

/-- `UPDATE items SET items.code = code, id = id` keeps both rows. -/
theorem items_kept : ∃ r, filled.answer 0 (.select (.rowsOf ⟨none, "items"⟩ none none)) = .ok (.selected r) ∧
    r.rows.length = 2 ∧
    filled.answer 0 (.update ⟨none, "items"⟩ none (ownAssignments (some "items") ["code", "id"]) none) =
      .ok (.updated 2) ∧
    (filled.execute 0 (.update ⟨none, "items"⟩ none (ownAssignments (some "items") ["code", "id"])
      none)).store = filled.store := by
  obtain ⟨r, hanswer, hlength⟩ := exists_of_answers (e := filled) (q := .rowsOf ⟨none, "items"⟩ none none)
    (k := fun r => r.rows.length == 2) (by decide +kernel)
  have hlength := beq_iff_eq.mp hlength
  obtain ⟨t, rows, hselects, -, hupdates⟩ :=
    Engine.identity_update_keeps_store filled_reachable 0 ⟨none, "items"⟩ none none hanswer
  -- what is asked of the definition is found out by looking at it
  have hchecked : (filled.store.table? ((⟨none, "items"⟩ : ObjectName).inSchema
      filled.database.config.defaultSchema)).all (fun t => t.definition.isLasting &&
        t.definition.name == "items" && t.definition.columns.map Column.name == ["id", "code"]) = true := by
    decide +kernel
  rw [hselects.table] at hchecked
  simp only [Option.all_some, Bool.and_eq_true, beq_iff_eq] at hchecked
  obtain ⟨⟨hlasting, hname⟩, hcolumns⟩ := hchecked
  have hnever := Database.neverRefuses_of_unregistered filled_unregistered t.definition.fullName .update
  have hnamed : t.definition.NamedBy none (some "items") := by
    rintro q ⟨⟩
    exact hname.symm
  obtain ⟨-, hkept⟩ := hupdates (some "items") ["code", "id"] hnever hnamed (by decide) (by
    rw [hcolumns]
    decide)
  obtain ⟨hok, hstore⟩ := hkept hlasting
  rw [hlength] at hok
  exact ⟨r, hanswer, hlength, hok, hstore⟩

/-- `CREATE TABLE documents (j JSONB UNIQUE)` -/
def createDocuments : Statement :=
  .createTable ⟨none, "documents"⟩
    [{ name := "j"
       type := ⟨.jsonb, none, false⟩
       nullable := none
       default := none
       primaryKey := false
       unique := true }] false

/-- `INSERT INTO documents VALUES (10.000000000000004e0), (10.000000000000005e0)` -/
def insertDocuments : Statement :=
  .insert ⟨none, "documents"⟩ none (.values
    [[some (.literal (.double ⟨0x4024000000000002⟩))], [some (.literal (.double ⟨0x4024000000000003⟩))]])

/-- Two documents, which a transaction removed before it was rolled back. -/
def reviving : List Event :=
  [.statement 0 createDocuments, .statement 0 insertDocuments, .statement 0 (.begin_ none),
    .statement 0 (.delete ⟨none, "documents"⟩ none none), .statement 0 .rollback]

/-- An engine with the documents that came back. -/
@[irreducible] def revived : Engine := (Engine.open_ Config.standard midnight).run reviving

theorem revived_reachable : revived.Reachable := by
  unfold revived
  exact ⟨Config.standard, midnight, reviving, rfl⟩

/-- The second document came back as the first one, and `UPDATE documents SET j = j` refuses both. -/
theorem revived_documents_refused : ¬ ∀ (e : Engine) (i : Nat) (name : ObjectName) (label : Option String)
    (condition : Option Expression) (r : Relation) (t : Table) (qualifier : Option String)
    (columns : List String), e.Reachable →
    e.answer i (.select (.rowsOf name label condition)) = .ok (.selected r) →
    e.store.table? (name.inSchema e.database.config.defaultSchema) = some t →
    e.database.NeverRefuses t.definition.fullName .update → t.definition.NamedBy label qualifier →
    columns.Nodup → (∀ c ∈ columns, c ∈ t.definition.columns.map Column.name) →
    (e.answer i (.update name label (ownAssignments qualifier columns) condition)).isOk = true := by
  intro h
  obtain ⟨r, hanswer, -⟩ := exists_of_answers (e := revived) (q := .rowsOf ⟨none, "documents"⟩ none none)
    (k := fun r => r.rows.length == 2) (by decide +kernel)
  have hfound : (revived.store.table? ((⟨none, "documents"⟩ : ObjectName).inSchema
      revived.database.config.defaultSchema)).any (fun t =>
        t.definition.columns.map Column.name == ["j"]) = true := by
    decide +kernel
  obtain ⟨t, ht, hcolumns⟩ := (Option.any_eq_true _ _).mp hfound
  have hunregistered : revived.database.registrations = [] := List.isEmpty_iff.mp (by decide +kernel)
  have hnamed : t.definition.NamedBy none none := by
    rintro q ⟨⟩
  have hcolumn : ∀ c ∈ ["j"], c ∈ t.definition.columns.map Column.name := by
    rw [beq_iff_eq.mp hcolumns]
    decide
  have hok := h revived 0 ⟨none, "documents"⟩ none none r t none ["j"] revived_reachable hanswer ht
    (Database.neverRefuses_of_unregistered hunregistered _ _) hnamed (by decide) hcolumn
  have hrefused : (revived.answer 0 (.update ⟨none, "documents"⟩ none (ownAssignments none ["j"])
      none)).isOk = false := by
    decide +kernel
  rw [hrefused] at hok
  cases hok

end Sample

end SqlStore
