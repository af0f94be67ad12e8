import SqlStore.Proofs.Query.Agreement
import SqlStore.Proofs.Table.Rewriting
import SqlStore.Proofs.Transaction.Twin

/-!
# Updating and deleting row by row

An update matches rows first, and then evaluates and stores the new values row by row. What the assignments
ask of the table in between is answered from the table as the rows before left it. A deletion selects rows in
the same way, and then removes one after the other.
-/

namespace SqlStore

open Run

namespace Work.Reads

variable {db : Database} {w : Work} {drawn : Nat}

/-- What changes in the transaction does not change what is read, while it is active. -/
theorem withTransaction (h : w.Reads db drawn) {t : Transaction} (ht : t.state = .active) :
    Reads db ⟨w.database, t⟩ drawn := ⟨h.database, h.quiet, ht⟩

/-- Putting a table in the place of the one of its name. -/
theorem withTable (h : w.Reads db drawn) (u : Table) :
    Reads (db.withTable u)
      ⟨{ w.database with store := w.database.store.put u.definition.fullName u }, w.transaction⟩
      drawn := by
  refine ⟨?_, h.quiet, h.active⟩
  have heq := h.database
  rcases w with ⟨⟨⟩, _⟩
  cases heq
  rfl

end Work.Reads

namespace Database

variable {db : Database} {t : Table}

theorem table?_withTable {u : Table} (ht : db.store.table? t.definition.fullName = some t)
    (hu : u.definition = t.definition) :
    (db.withTable u).store.table? u.definition.fullName = some u := by
  rw [← hu] at ht
  exact Store.table?_put ht rfl

theorem withTable_self (hd : db.store.Distinct)
    (ht : db.store.table? t.definition.fullName = some t) : db.withTable t = db :=
  congrArg (fun store => { db with store }) (Store.put_self hd ht)

theorem withTable_withTable {u v : Table} (h : v.definition = u.definition) :
    (db.withTable u).withTable v = db.withTable v := by
  unfold withTable
  rw [h]
  exact congrArg (fun store => { db with store }) (Store.put_put rfl)

/-- Storing a table with one row rewritten and then one with others rewritten too. -/
theorem withTable_rewritten {id : Nat} {ids : List Nat} (hid : id ∉ ids) (first : Tuple)
    (values : Nat → Tuple) :
    (db.withTable (t.rewritten [id] fun _ => first)).withTable
        ((t.rewritten [id] fun _ => first).rewritten ids values) =
      db.withTable (t.rewritten (id :: ids) (Function.update values id first)) := by
  have hdefinition : ((t.rewritten [id] fun _ => first).rewritten ids values).definition =
      (t.rewritten [id] fun _ => first).definition := rfl
  rw [withTable_withTable hdefinition, Table.rewritten_rewritten hid]

theorem distinct_withTable (hd : db.store.Distinct) (u : Table) :
    (db.withTable u).store.Distinct := by
  show (Store.put _ _ _).names.Nodup
  rw [Store.names_put rfl]
  exact hd

variable {label : Option String} {places : List (Nat × Expression)}

/-- The rows of a table on which a condition is true; each was asked at some number of function
calls. -/
def Passing (db : Database) (t : Table) (label : Option String) (condition : Option Expression)
    (rows : List Row) : Prop :=
  ∃ truth : Nat → Bool, rows = t.rows.filter (fun r => truth r.id) ∧
    ∀ r ∈ t.rows, ∃ drawn drawn',
      exec (db.reading.passes (t.definition.resultColumns label) condition r) drawn =
        (.ok (truth r.id), drawn')

theorem Passing.subset {condition : Option Expression} {rows : List Row}
    (h : db.Passing t label condition rows) : rows ⊆ t.rows := by
  obtain ⟨truth, rfl, -⟩ := h
  exact List.filter_subset_self _

theorem Passing.nodup_ids {condition : Option Expression} {rows : List Row}
    (h : db.Passing t label condition rows) (hordered : Table.Ordered t.rows) :
    (rows.map Row.id).Nodup := by
  obtain ⟨truth, rfl, -⟩ := h
  exact (hordered.filter _).nodup_ids

/-- The assignments on a row of a table give new values, at some number of function calls. -/
def Gives (db : Database) (t : Table) (label : Option String) (places : List (Nat × Expression))
    (row : Row) (new : Tuple) : Prop :=
  ∃ drawn drawn' values,
    exec (db.reading.assigned (t.definition.resultColumns label) places row.values) drawn =
      (.ok values, drawn') ∧ t.definition.accept values = .ok new

/-- Rows of a table get new values one after the other: those of each are given with the rows before
it rewritten. -/
def Sequential (db : Database) (t : Table) (label : Option String)
    (places : List (Nat × Expression)) (rows : List Row) (values : Nat → Tuple) : Prop :=
  ∀ before row after, rows = before ++ row :: after →
    (db.withTable (t.rewritten (before.map Row.id) values)).Gives t label places row (values row.id)

theorem sequential_nil {values : Nat → Tuple} : db.Sequential t label places [] values :=
  fun before row after h => (List.append_ne_nil_of_right_ne_nil before (List.cons_ne_nil row after)
    h.symm).elim

/-- The first row and then the others, which see what became of the first. -/
theorem Sequential.cons {row : Row} {rows : List Row} {first : Tuple} {values : Nat → Tuple}
    (hself : db.withTable t = db) (hfirst : db.Gives t label places row first)
    (hid : row.id ∉ rows.map Row.id)
    (hrest : (db.withTable (t.rewritten [row.id] fun _ => first)).Sequential
      (t.rewritten [row.id] fun _ => first) label places rows values) :
    db.Sequential t label places (row :: rows) (Function.update values row.id first) := by
  intro before other after h
  cases before with
  | nil =>
    cases h
    rw [List.map_nil, Table.rewritten_nil, hself, Function.update_self]
    exact hfirst
  | cons _ before =>
    obtain ⟨rfl, rfl⟩ := List.cons.inj h
    rw [List.append_eq, List.map_append, List.mem_append, not_or, List.map_cons, List.mem_cons,
      not_or] at hid
    obtain ⟨hbefore, hother, -⟩ := hid
    have hgives := hrest before other after rfl
    rw [withTable_rewritten hbefore] at hgives
    rw [List.map_cons, Function.update_of_ne (Ne.symm hother)]
    exact hgives

/-- Assignments that do not name the table give what they gave before the first row changed. -/
theorem Sequential.simultaneous {rows : List Row} {values : Nat → Tuple}
    (h : db.Sequential t label places rows values)
    (ht : db.store.table? t.definition.fullName = some t)
    (havoid : ∀ p ∈ places, ∀ name ∈ p.2.tables,
      name.inSchema db.config.defaultSchema ≠ t.definition.fullName) :
    ∀ row ∈ rows, db.Gives t label places row (values row.id) := by
  intro row hrow
  obtain ⟨before, after, hsplit⟩ := List.append_of_mem hrow
  obtain ⟨drawn, drawn', given, hgiven, haccept⟩ := h before row after hsplit
  rw [assigned_withTable (u := t.rewritten (before.map Row.id) values) ht rfl havoid] at hgiven
  exact ⟨drawn, drawn', given, hgiven, haccept⟩

/-- Assignments that call no function give what they come to in the store. -/
theorem Gives.still {row : Row} {new : Tuple} (h : db.Gives t label places row new)
    (hcalls : ∀ p ∈ places, p.2.calls = []) :
    ∃ values, db.still.assigned (t.definition.resultColumns label) places row.values = .ok values ∧
      t.definition.accept values = .ok new := by
  obtain ⟨_, _, values, hvalues, haccept⟩ := h
  rw [exec_assigned_still db hcalls] at hvalues
  exact ⟨values, (Prod.ext_iff.mp hvalues).1, haccept⟩

/-- So they give one result for a row. -/
theorem Gives.unique {row : Row} {new other : Tuple} (h : db.Gives t label places row new)
    (h' : db.Gives t label places row other) (hcalls : ∀ p ∈ places, p.2.calls = []) :
    new = other := by
  obtain ⟨given, hgiven, haccept⟩ := h.still hcalls
  obtain ⟨given', hgiven', haccept'⟩ := h'.still hcalls
  rw [hgiven] at hgiven'
  cases hgiven'
  rw [haccept] at haccept'
  exact Except.ok.inj haccept'

/-- In whatever order rows are taken, the table comes out the same. -/
theorem Sequential.rewritten_eq {rows order : List Row} {values others : Nat → Tuple}
    (h : db.Sequential t label places rows values)
    (horder : db.Sequential t label places order others) (hperm : order.Perm rows)
    (ht : db.store.table? t.definition.fullName = some t)
    (havoid : ∀ p ∈ places, ∀ name ∈ p.2.tables,
      name.inSchema db.config.defaultSchema ≠ t.definition.fullName)
    (hcalls : ∀ p ∈ places, p.2.calls = []) :
    t.rewritten (order.map Row.id) others = t.rewritten (rows.map Row.id) values := by
  refine Table.rewritten_congr (fun id => (hperm.map Row.id).mem_iff) fun id hid => ?_
  obtain ⟨row, hrow, rfl⟩ := List.mem_map.mp hid
  exact (horder.simultaneous ht havoid row hrow).unique
    (h.simultaneous ht havoid row (hperm.mem_iff.mp hrow)) hcalls

/-- What an update finds out and does: the table and the places that it names, the rows that pass, and
their new values, given one after the other. -/
structure Updates (db : Database) (name : ObjectName) (label : Option String)
    (assignments : List (String × Expression)) (condition : Option Expression) (t : Table)
    (places : List (Nat × Expression)) (rows : List Row) (values : Nat → Tuple) : Prop where
  table : db.store.table? (name.inSchema db.config.defaultSchema) = some t
  checked : Action.assignmentPlaces t.definition
    [Frame.ofColumns (t.definition.resultColumns label)] [] assignments = .ok places
  passing : db.Passing t label condition rows
  sequential : db.Sequential t label places rows values

end Database

namespace Action

variable {db : Database} {w w' : Work} {t : Table} {drawn : Nat}

/-- Reading the table of a name. -/
theorem exec_table_of_reads (hw : w.Reads db drawn)
    (ht : db.store.table? t.definition.fullName = some t) :
    exec (table t.definition.fullName) w = (.ok t, w) := by
  rw [exec_table, hw.store_eq, Store.table_eq_ok.mpr ht]

/-- Putting a table in the place of the one of its name. -/
theorem exists_of_putTable {u : Table} (hw : w.Reads db drawn)
    (ht : db.store.table? t.definition.fullName = some t) (hu : u.definition = t.definition) :
    ∃ w', exec (putTable t.definition.fullName u) w = (.ok ⟨⟩, w') ∧
      w'.Reads (db.withTable u) drawn := by
  rw [← hu] at ht ⊢
  have hchange : w.database.store.change u.definition.fullName (fun _ => u) =
      .ok (w.database.store.put u.definition.fullName u) := by
    rw [hw.store_eq]
    exact Store.change_of_table? ht
  unfold putTable
  rw [exec_changeStore, hchange]
  exact ⟨_, rfl, hw.withTable u⟩

/-- Getting ready for a change. -/
theorem exists_of_prepareWrite (hw : w.Reads db drawn) :
    ∃ w', exec prepareWrite w = (.ok ⟨⟩, w') ∧ w'.Reads db drawn := by
  obtain ⟨snapshot, hprepare⟩ := exec_prepareWrite hw.active
  exact ⟨_, hprepare, hw.withTransaction hw.active⟩

/-- Logging a change. -/
theorem exists_of_log (hw : w.Reads db drawn) (entry : Undo) :
    ∃ w', exec (log entry) w = (.ok ⟨⟩, w') ∧ w'.Reads db drawn :=
  ⟨_, rfl, hw.withTransaction hw.active⟩

/-- Firing triggers that let the statement go on. -/
theorem reads_of_fire {hook : Hook} {n : TableName} {timing : TriggerTiming}
    {operation : TableOperation} {old new : Option Row} {u : PUnit} (hw : w.Reads db drawn)
    (h : exec (fire hook n timing operation old new) w = (.ok u, w')) : w'.Reads db drawn := by
  obtain ⟨drawn', hpure, hreads⟩ := (reads_fire hook n timing operation old new).of_ok hw h
  cases hpure
  exact hreads

/-- What an update of one row did if it succeeded. -/
theorem exists_of_update {hook : Hook} {id : Nat} {values : Tuple} {new : Row}
    (hw : w.Reads db drawn) (ht : db.store.table? t.definition.fullName = some t)
    (h : exec (update hook t.definition.fullName id values) w = (.ok new, w')) :
    ∃ old accepted, t.row? id = some old ∧ t.definition.accept values = .ok accepted ∧
      t.checkUnique accepted (some id) = .ok ⟨⟩ ∧ new = old.withValues accepted ∧
      w'.Reads (db.withTable (t.put new)) drawn := by
  unfold update at h
  obtain ⟨prepared, hprepare, hprepared⟩ := exists_of_prepareWrite hw
  rw [exec_bind_ok hprepare, exec_bind_ok (exec_table_of_reads hprepared ht)] at h
  obtain ⟨old, hold, h⟩ := exec_ofExcept_bind_eq_ok h
  obtain ⟨accepted, haccept, h⟩ := exec_ofExcept_bind_eq_ok h
  obtain ⟨_, fired, hbefore, h⟩ := exec_bind_eq_ok h
  have hfired := reads_of_fire hprepared hbefore
  -- the table did not change while triggers fired
  rw [exec_bind_ok (exec_table_of_reads hfired ht)] at h
  obtain ⟨_, hunique, h⟩ := exec_ofExcept_bind_eq_ok h
  obtain ⟨stored, hput, hstored⟩ :=
    exists_of_putTable (u := t.put (old.withValues accepted)) hfired ht rfl
  obtain ⟨logged, hlog, hlogged⟩ := exists_of_log hstored (.put t.definition.fullName old)
  rw [exec_bind_ok hput, exec_bind_ok hlog] at h
  obtain ⟨_, done, hafter, h⟩ := exec_bind_eq_ok h
  cases h
  exact ⟨old, accepted, existingRow_eq_ok hold, haccept, hunique, rfl, reads_of_fire hlogged hafter⟩

/-- The loop over the rows of an update, whatever rows those are. -/
theorem exists_of_updateRows {hook : Hook} {label : Option String}
    {places : List (Nat × Expression)} {rows : List Row} {u : PUnit} (hw : w.Reads db drawn)
    (hd : db.store.Distinct) (ht : db.store.table? t.definition.fullName = some t)
    (hordered : Table.Ordered t.rows) (hrows : ∀ r ∈ rows, r ∈ t.rows)
    (hids : (rows.map Row.id).Nodup)
    (h : exec (rows.forM fun row => do
      let values ← assigned hook (t.definition.resultColumns label) row.values places
      let _ ← update hook t.definition.fullName row.id values) w = (.ok u, w')) :
    ∃ values drawn', w'.Reads (db.withTable (t.rewritten (rows.map Row.id) values)) drawn' ∧
      db.Sequential t label places rows values := by
  induction rows generalizing db t w drawn with
  | nil =>
    cases h
    refine ⟨fun _ => [], drawn, ?_, Database.sequential_nil⟩
    rw [List.map_nil, Table.rewritten_nil, Database.withTable_self hd ht]
    exact hw
  | cons row rows ih =>
    obtain ⟨hrow, hrows⟩ := List.forall_mem_cons.mp hrows
    obtain ⟨hid, hids⟩ := List.nodup_cons.mp hids
    obtain ⟨_, updated, hstep, h⟩ := exec_bind_eq_ok h
    obtain ⟨given, evaluated, hassigned, hstep⟩ := exec_bind_eq_ok hstep
    obtain ⟨drawn', hgiven, hevaluated⟩ := (reads_assigned hook _ places _).of_ok hw hassigned
    obtain ⟨new, _, hupdate, hstep⟩ := exec_bind_eq_ok hstep
    cases hstep
    obtain ⟨old, first, hold, haccept, -, rfl, hupdated⟩ := exists_of_update hevaluated ht hupdate
    -- what the number found is the row itself
    rw [show t.row? row.id = some row from hordered.rowIn_self hrow] at hold
    cases hold
    rw [Table.put_eq_rewritten hordered hrow] at hupdated
    obtain ⟨values, drawn'', hdone, hrest⟩ := ih hupdated (Database.distinct_withTable hd _)
      (Database.table?_withTable ht rfl) (hordered.rewritten _ _) (Table.subset_rewritten hrows hid _) hids h
    refine ⟨Function.update values row.id first, drawn'', ?_, ?_⟩
    · rw [Database.withTable_rewritten hid] at hdone
      exact hdone
    · exact .cons (Database.withTable_self hd ht) ⟨_, _, given, hgiven, haccept⟩ hid hrest

/-- Matching rows if that succeeds. -/
theorem exists_of_matchingRows {hook : Hook} {label : Option String}
    {condition : Option Expression} {rows : List Row} (hw : w.Reads db drawn)
    (ht : db.store.table? t.definition.fullName = some t) (hordered : Table.Ordered t.rows)
    (h : exec (matchingRows hook t.definition label condition) w = (.ok rows, w')) :
    ∃ drawn', db.Passing t label condition rows ∧ w'.Reads db drawn' := by
  obtain ⟨scanned, found, hscan, h⟩ := exec_bind_eq_ok h
  obtain ⟨drawn', hread, hfound⟩ := (reads_scan hook t.definition.fullName).of_ok hw hscan
  rw [Store.table_eq_ok.mpr ht] at hread
  cases hread
  cases condition with
  | none =>
    cases h
    refine ⟨drawn, ⟨fun _ => true, (List.filter_true _).symm, ?_⟩, hfound⟩
    exact fun r _ => ⟨0, 0, rfl⟩
  | some e =>
    obtain ⟨kept, asked, hkept, h⟩ := exec_bind_eq_ok h
    cases h
    obtain ⟨drawn', hasked, hreads⟩ := (mirrors_mapM fun r _ =>
      reads_passes hook (t.definition.resultColumns label) (some e) r).of_ok hfound hkept
    obtain ⟨truth, hrows, htruth⟩ := Table.exists_of_kept (exec_mapM_eq_ok hasked) hordered.nodup_ids
    exact ⟨drawn', ⟨truth, hrows, htruth⟩, hreads⟩

theorem exists_of_definition {name : ObjectName} {d : TableDefinition} (hw : w.Reads db drawn)
    (h : exec (definition name) w = (.ok d, w')) :
    ∃ t, db.store.table? (name.inSchema db.config.defaultSchema) = some t ∧ d = t.definition ∧
      w' = w := by
  have hcatalog : exec catalog w = (.ok fun n =>
      (w.database.store.table (n.inSchema w.database.config.defaultSchema)).map Table.definition,
        w) := rfl
  have hconfig : w.database.config = db.config := by
    rw [hw.database]
  unfold definition at h
  rw [exec_bind_ok hcatalog, exec_ofExcept, hw.store_eq, hconfig] at h
  obtain ⟨t, ht, rfl⟩ := Except.exists_of_map_eq_ok (Prod.ext_iff.mp h).1
  exact ⟨t, Store.table_eq_ok.mp ht, rfl, (Prod.ext_iff.mp h).2.symm⟩

/-- The table of a name and its rows on which a condition is true. -/
def selection (hook : Hook) (name : ObjectName) (label : Option String)
    (condition : Option Expression) : Action (TableDefinition × List Row) := do
  let d ← definition name
  ofExcept (condition.forM (·.checkClause [Frame.ofColumns (d.resultColumns label)] "WHERE"))
  return (d, ← matchingRows hook d label condition)

/-- What is selected: the rows that pass in the table of the name. -/
theorem exists_of_selection {hook : Hook} {name : ObjectName} {label : Option String}
    {condition : Option Expression} {d : TableDefinition} {rows : List Row} (hw : w.Reads db drawn)
    (hkeyed : ∀ t ∈ db.store.tables, t.Keyed)
    (h : exec (selection hook name label condition) w = (.ok (d, rows), w')) :
    ∃ t drawn', db.store.table? (name.inSchema db.config.defaultSchema) = some t ∧
      d = t.definition ∧ db.Passing t label condition rows ∧ w'.Reads db drawn' := by
  obtain ⟨d, named, hdefinition, h⟩ := exec_bind_eq_ok h
  obtain ⟨t, ht, rfl, hnamed⟩ := exists_of_definition hw hdefinition
  rw [hnamed] at h
  have ht' : db.store.table? t.definition.fullName = some t := by
    rw [(Store.mem_of_table? ht).2]
    exact ht
  obtain ⟨_, -, h⟩ := exec_ofExcept_bind_eq_ok h
  obtain ⟨rows, matched, hrows, h⟩ := exec_bind_eq_ok h
  cases h
  obtain ⟨drawn', hpassing, hmatched⟩ :=
    exists_of_matchingRows hw ht' (hkeyed t (Store.mem_of_table? ht).1).ordered hrows
  exact ⟨t, drawn', ht, rfl, hpassing, hmatched⟩

/-- The expressions of the places are those of the assignments. -/
theorem mem_assignments {d : TableDefinition} {scope : Scope} {seen : List Nat}
    {assignments : List (String × Expression)} {places : List (Nat × Expression)}
    (h : assignmentPlaces d scope seen assignments = .ok places) :
    ∀ p ∈ places, ∃ a ∈ assignments, a.2 = p.2 := by
  induction assignments generalizing seen places with
  | nil =>
    cases h
    exact nofun
  | cons a assignments ih =>
    obtain ⟨i, -, h⟩ := Except.exists_of_bind_eq_ok h
    obtain ⟨_, -, h⟩ := Except.exists_of_bind_eq_ok h
    obtain ⟨_, -, h⟩ := Except.exists_of_bind_eq_ok h
    obtain ⟨rest, hrest, h⟩ := Except.exists_of_bind_eq_ok h
    cases h
    refine List.forall_mem_cons.mpr ⟨⟨a, List.mem_cons_self, rfl⟩, fun p hp => ?_⟩
    obtain ⟨b, hb, heq⟩ := ih hrest p hp
    exact ⟨b, List.mem_cons_of_mem a hb, heq⟩

/-- What an update did if it succeeded: it selected rows, and those it changed. -/
theorem exists_of_updateStatement_selecting {hook : Hook} {name : ObjectName} {label : Option String}
    {assignments : List (String × Expression)} {condition : Option Expression} {o : Outcome}
    (hw : w.Reads db drawn) (hd : db.store.Distinct) (hkeyed : ∀ t ∈ db.store.tables, t.Keyed)
    (h : exec (updateStatement hook name label assignments condition) w = (.ok o, w')) :
    ∃ t places rows values drawn' selected,
      db.Updates name label assignments condition t places rows values ∧
      exec (selection hook name label condition) w = (.ok (t.definition, rows), selected) ∧
      o = .updated rows.length ∧
      w'.Reads (db.withTable (t.rewritten (rows.map Row.id) values)) drawn' := by
  obtain ⟨d, named, hdefinition, h⟩ := exec_bind_eq_ok h
  obtain ⟨_, checked, hcheck, h⟩ := exec_bind_eq_ok h
  obtain ⟨places, hplaces, h⟩ := exec_ofExcept_bind_eq_ok h
  obtain ⟨rows, selected, hrows, h⟩ := exec_bind_eq_ok h
  have hselection : exec (selection hook name label condition) w = (.ok (d, rows), selected) := by
    unfold selection
    rw [exec_bind_ok hdefinition, exec_bind_ok hcheck, exec_bind_ok hrows]
    rfl
  obtain ⟨t, drawn', ht, rfl, hpassing, hselected⟩ := exists_of_selection hw hkeyed hselection
  have ht' : db.store.table? t.definition.fullName = some t := by
    rw [(Store.mem_of_table? ht).2]
    exact ht
  obtain ⟨_, updated, hupdate, h⟩ := exec_bind_eq_ok h
  cases h
  have hordered := (hkeyed t (Store.mem_of_table? ht).1).ordered
  obtain ⟨values, drawn'', hdone, hsequential⟩ := exists_of_updateRows hselected hd ht' hordered
    hpassing.subset (hpassing.nodup_ids hordered) hupdate
  exact ⟨t, places, rows, values, drawn'', selected, ⟨ht, hplaces, hpassing, hsequential⟩, hselection, rfl,
    hdone⟩

/-- What an update did if it succeeded. -/
theorem exists_of_updateStatement {hook : Hook} {name : ObjectName} {label : Option String}
    {assignments : List (String × Expression)} {condition : Option Expression} {o : Outcome}
    (hw : w.Reads db drawn) (hd : db.store.Distinct) (hkeyed : ∀ t ∈ db.store.tables, t.Keyed)
    (h : exec (updateStatement hook name label assignments condition) w = (.ok o, w')) :
    ∃ t places rows values drawn',
      db.Updates name label assignments condition t places rows values ∧
      o = .updated rows.length ∧
      w'.Reads (db.withTable (t.rewritten (rows.map Row.id) values)) drawn' := by
  obtain ⟨t, places, rows, values, drawn', -, hupdates, -, ho, hdone⟩ :=
    exists_of_updateStatement_selecting hw hd hkeyed h
  exact ⟨t, places, rows, values, drawn', hupdates, ho, hdone⟩

end Action

/-! ## Deleting

Nothing but the table changes on the way, and it only loses those rows: what is left of it stands in its
order. -/

namespace Action

variable {hook : Hook} {db : Database} {w w' : Work} {t : Table} {drawn : Nat} {name : ObjectName}
  {label : Option String} {condition : Option Expression}

/-- What removing one row did if it succeeded. -/
theorem exists_of_delete {id : Nat} {u : PUnit} (hw : w.Reads db drawn)
    (ht : db.store.table? t.definition.fullName = some t)
    (h : exec (delete hook t.definition.fullName id) w = (.ok u, w')) :
    ∃ old, t.row? id = some old ∧ w'.Reads (db.withTable (t.without [id])) drawn := by
  unfold delete at h
  obtain ⟨prepared, hprepare, hprepared⟩ := exists_of_prepareWrite hw
  rw [exec_bind_ok hprepare, exec_bind_ok (exec_table_of_reads hprepared ht)] at h
  obtain ⟨old, hold, h⟩ := exec_ofExcept_bind_eq_ok h
  obtain ⟨_, fired, hbefore, h⟩ := exec_bind_eq_ok h
  have hfired := reads_of_fire hprepared hbefore
  -- the table did not change while triggers fired
  rw [exec_bind_ok (exec_table_of_reads hfired ht), Table.remove_eq_without] at h
  obtain ⟨stored, hput, hstored⟩ := exists_of_putTable (u := t.without [id]) hfired ht rfl
  obtain ⟨logged, hlog, hlogged⟩ := exists_of_log hstored (.put t.definition.fullName old)
  rw [exec_bind_ok hput, exec_bind_ok hlog] at h
  exact ⟨old, existingRow_eq_ok hold, reads_of_fire hlogged h⟩

/-- The loop over the rows of a deletion. -/
theorem reads_of_deleteRows {rows : List Row} {u : PUnit} (hw : w.Reads db drawn)
    (hd : db.store.Distinct) (ht : db.store.table? t.definition.fullName = some t)
    (h : exec (rows.forM fun row => delete hook t.definition.fullName row.id) w = (.ok u, w')) :
    w'.Reads (db.withTable (t.without (rows.map Row.id))) drawn := by
  induction rows generalizing db t w with
  | nil =>
    cases h
    rw [List.map_nil, Table.without_nil, Database.withTable_self hd ht]
    exact hw
  | cons row rows ih =>
    obtain ⟨_, removed, hstep, h⟩ := exec_bind_eq_ok h
    obtain ⟨-, -, hremoved⟩ := exists_of_delete hw ht hstep
    have hrest := ih hremoved (Database.distinct_withTable hd _) (Database.table?_withTable ht rfl) h
    have hdefinition : ((t.without [row.id]).without (rows.map Row.id)).definition =
        (t.without [row.id]).definition := rfl
    rw [Database.withTable_withTable hdefinition, Table.without_without] at hrest
    exact hrest

/-- A deletion selects rows first. -/
theorem deleteStatement_eq (hook : Hook) (name : ObjectName) (label : Option String)
    (condition : Option Expression) : deleteStatement hook name label condition = (do
      let (d, rows) ← selection hook name label condition
      rows.forM fun row => delete hook d.fullName row.id
      return .deleted rows.length) := by
  unfold deleteStatement selection
  simp only [bind_assoc, pure_bind]

/-- What a deletion did if it succeeded: it selected rows, and those it removed. -/
theorem exists_of_deleteStatement {o : Outcome} (hw : w.Reads db drawn) (hd : db.store.Distinct)
    (hkeyed : ∀ t ∈ db.store.tables, t.Keyed)
    (h : exec (deleteStatement hook name label condition) w = (.ok o, w')) :
    ∃ t rows drawn' selected,
      db.store.table? (name.inSchema db.config.defaultSchema) = some t ∧
      exec (selection hook name label condition) w = (.ok (t.definition, rows), selected) ∧
      o = .deleted rows.length ∧ w'.Reads (db.withTable (t.without (rows.map Row.id))) drawn' := by
  rw [deleteStatement_eq] at h
  obtain ⟨⟨d, rows⟩, selected, hselection, h⟩ := exec_bind_eq_ok h
  obtain ⟨t, drawn', ht, rfl, -, hselected⟩ := exists_of_selection hw hkeyed hselection
  have ht' : db.store.table? t.definition.fullName = some t := by
    rw [(Store.mem_of_table? ht).2]
    exact ht
  obtain ⟨_, deleted, hdelete, h⟩ := exec_bind_eq_ok h
  cases h
  exact ⟨t, rows, drawn', selected, ht, hselection, rfl, reads_of_deleteRows hselected hd ht' hdelete⟩

end Action

end SqlStore
