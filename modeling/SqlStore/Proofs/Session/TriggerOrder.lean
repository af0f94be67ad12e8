import SqlStore.Proofs.Session.Engine
import SqlStore.Proofs.Session.Sample
import SqlStore.Proofs.Transaction.Firings
import SqlStore.Proofs.Transaction.Twin

/-!
# The order in which triggers fire

A change of a row fires the triggers in front of it while the table holds the row as it was, and the
ones behind it while the table holds it as it is; a scan fires both around it and changes nothing. The
schedule of each call on rows is written down from the store in which the call starts, and
`triggers_fire_in_order` says that the call goes through it.
-/

open Relation

namespace SqlStore

open Run

/-! ## Schedules of the calls on rows -/

/-- There is the table, and this is what it stores under a number. -/
def Store.Holds (s : Store) (n : TableName) (id : Nat) (row : Option Row) : Prop :=
  ∃ t, s.table? n = some t ∧ t.row? id = row

namespace Moment

/-- The triggers in front of a change of a row. The table still holds the row as it was. -/
def before (n : TableName) (operation : TableOperation) (id : Nat) (old new : Option Row) : Moment :=
  ⟨⟨n, .before, operation⟩, old, new, fun s => s.Holds n id old⟩

/-- The triggers behind a change of a row. The table holds the row as it is now. -/
def after (n : TableName) (operation : TableOperation) (id : Nat) (old new : Option Row) : Moment :=
  ⟨⟨n, .after, operation⟩, old, new, fun s => s.Holds n id new⟩

/-- What is to fire for a row that is inserted. -/
def ofInserted (n : TableName) (row : Row) : List Moment :=
  [before n .insert row.id none (some row), after n .insert row.id none (some row)]

/-- The triggers at one end of a scan. The store is the one in which the scan started. -/
def scanned (n : TableName) (timing : TriggerTiming) (store : Store) : Moment :=
  ⟨⟨n, timing, .select⟩, none, none, fun s => s = store⟩

end Moment

/-- A row is changed, if a check between its triggers allows it. -/
def Schedule.change (n : TableName) (operation : TableOperation) (id : Nat) (old new : Option Row)
    (allowed : Except Error Unit) : Schedule :=
  .moment (.before n operation id old new) <| .check allowed fun _ =>
    .moment (.after n operation id old new) .done

/-- The next row goes into a table. -/
def Table.insertion (n : TableName) (t : Table) (values : Tuple) : Schedule :=
  .change n .insert t.nextId none (some ⟨t.nextId, values⟩) (t.allocate.2.checkUnique values none)

/-- Rows go into a table one after the other, each one as the table accepts it. -/
def Table.insertions (n : TableName) : Table → List Tuple → Schedule
  | _, [] => .done
  | t, given :: rest => .check (t.definition.accept given) fun values =>
    (t.insertion n values).andThen (insertions n (t.allocate.2.put ⟨t.nextId, values⟩) rest)

namespace Store

/-- Rows are inserted. -/
def inserting (s : Store) (n : TableName) (rows : List Tuple) : Schedule :=
  .check (s.table n) fun t => t.insertions n rows

/-- A row is updated. -/
def updating (s : Store) (n : TableName) (id : Nat) (given : Tuple) : Schedule :=
  .check (s.table n) fun t => .check (Action.existingRow t n id) fun old =>
    .check (t.definition.accept given) fun values =>
      .change n .update id (some old) (some (old.withValues values))
        (t.checkUnique values (some id))

/-- A row is deleted. -/
def deleting (s : Store) (n : TableName) (id : Nat) : Schedule :=
  .check (s.table n) fun t => .check (Action.existingRow t n id) fun old =>
    .change n .delete id (some old) none (.ok ())

/-- A table is scanned. -/
def scanning (s : Store) (n : TableName) : Schedule :=
  .moment (.scanned n .before s) <| .check (s.table n) fun _ =>
    .moment (.scanned n .after s) .done

end Store

/-! ## Calls that fire nothing -/

instance : IsTrans Work Silent where
  trans _ _ _ h k :=
    ⟨k.trace_eq.trans h.trace_eq, k.registrations_eq.trans h.registrations_eq⟩

namespace Action

variable {registered : List Registration} {hook : Hook} {c : Core} {n : TableName} {β : Type}
  {Q : β → Work → Prop} {s : Schedule}

theorem silent_ensureActive : Moves Silent ensureActive := by
  refine moves_get.bind fun w => ?_
  dsimp only
  split
  · exact moves_pure _
  · exact moves_throw _
  · exact moves_throw _

theorem silent_prepareWrite : Moves Silent prepareWrite := by
  refine silent_ensureActive.bind fun _ => moves_get.bind fun w => ?_
  split
  · exact fun _ => ⟨rfl, rfl⟩
  · exact moves_pure _

theorem silent_putTable (n : TableName) (t : Table) : Moves Silent (putTable n t) := by
  intro w
  unfold putTable
  rw [exec_changeStore]
  split <;> exact ⟨rfl, rfl⟩

theorem silent_log (u : Undo) : Moves Silent (log u) := fun _ => ⟨rfl, rfl⟩

theorem table_of_none {store : Store} (ht : store.table? n = none) :
    store.table n = .error n.missing := by
  unfold Store.table
  rw [ht]

/-- Reading a table in front of a call. -/
theorem plays_table {rest : Table → Action β} {next : Table → Schedule}
    (h : ∀ t, c.store.table? n = some t → Plays registered hook (At c) (rest t) (next t) Q) :
    Plays registered hook (At c) (table n >>= rest) (.check (c.store.table n) next) Q := by
  refine plays_read ?_ fun t ht => h t (Store.table_eq_ok.mp ht)
  rintro w ⟨rfl, -⟩
  exact exec_table n w

/-- Reading a table that is known. -/
theorem plays_known {t : Table} (ht : c.store.table? n = some t) {rest : Table → Action β}
    (h : Plays registered hook (At c) (rest t) s Q) :
    Plays registered hook (At c) (table n >>= rest) s Q := by
  have hplays : Plays registered hook (At c) (table n >>= rest)
      (.check (c.store.table n) fun _ => s) Q := plays_table fun u hu => by
    rw [ht] at hu
    cases hu
    exact h
  rw [Store.table_eq_ok.mpr ht] at hplays
  exact hplays

/-- Reading a table that is not there. -/
theorem plays_missing (ht : c.store.table? n = none) {rest : Table → Action β} :
    Plays registered hook (At c) (table n >>= rest) ⟨[], some n.missing⟩ Q := by
  have hplays : Plays registered hook (At c) (table n >>= rest)
      (.check (c.store.table n) fun _ => .done) Q := plays_table fun t hsome => by
    rw [ht] at hsome
    cases hsome
  rw [table_of_none ht] at hplays
  exact hplays

theorem plays_putTable {t : Table} (ht : c.store.table? n = some t) (u : Table)
    {rest : Unit → Action β} (h : Plays registered hook (At (c.put n u)) (rest ()) s Q) :
    Plays registered hook (At c) (putTable n u >>= rest) s Q :=
  Plays.after (silent_putTable n u) (meets_putTable ht u) fun _ => h

theorem plays_log (u : Undo) {rest : Unit → Action β}
    (h : Plays registered hook (At (c.log (some u))) (rest ()) s Q) :
    Plays registered hook (At c) (log u >>= rest) s Q :=
  Plays.after (silent_log u) (meets_log u) fun _ => h

/-- An active transaction gets ready for a change, and the store stays. -/
theorem plays_prepareWrite (hactive : c.transaction.state = .active) {rest : Unit → Action β}
    (h : ∀ d : Core, d.store = c.store → Plays registered hook (At d) (rest ()) s Q) :
    Plays registered hook (At c) (prepareWrite >>= rest) s Q := by
  refine Plays.after (M := fun _ w => ∃ d, d.store = c.store ∧ At d w) silent_prepareWrite ?_ ?_
  · rintro w ⟨rfl, hq⟩
    obtain ⟨snapshot, hrun⟩ := exec_prepareWrite hactive
    rw [hrun]
    exact ⟨⟨w.database.store, { w.transaction with snapshot }⟩, rfl, rfl, hq⟩
  · rintro - w ⟨d, hd, hw⟩
    exact h d hd w hw

/-! ## The calls on rows -/

theorem plays_insertOne {t : Table} (ht : c.store.table? n = some t) (hk : t.Keyed)
    (given : Tuple) :
    Plays registered hook (At c) (insertOne hook n given)
      (.check (t.definition.accept given) (t.insertion n)) fun inserted w =>
        ∃ values, t.definition.accept given = .ok values ∧
          t.insertion n values = ⟨Moment.ofInserted n inserted.1, none⟩ ∧
          ∃ d, At d w ∧ d.store.table? n = some (t.allocate.2.put ⟨t.nextId, values⟩) := by
  refine plays_known ht (plays_check fun values hvalues => ?_)
  let row : Row := ⟨t.nextId, values⟩
  have hname : t.allocate.2.definition.fullName = n := (Store.mem_of_table? ht).2
  have hallocated := Store.table?_put ht hname
  refine plays_putTable ht _ (Plays.fire (c := c.put n t.allocate.2) ?_ ?_)
  · -- the number was given out, and nothing is stored under it yet
    exact ⟨t.allocate.2, hallocated, hk.row?_nextId⟩
  refine plays_known hallocated (plays_check fun _ hunique => ?_)
  have hput := Store.table?_put hallocated (u := t.allocate.2.put row) hname
  refine plays_putTable hallocated _ (plays_log _ (Plays.fire ?_ ?_))
  · exact ⟨t.allocate.2.put row, hput, Table.row?_put_self⟩
  have hschedule : t.insertion n values = ⟨Moment.ofInserted n row, none⟩ := by
    unfold Table.insertion Schedule.change
    rw [hunique]
    rfl
  exact plays_pure fun w hw => ⟨values, hvalues, hschedule, _, hw, hput⟩

/-- Rows that go in one after the other. If all do, each of them had its moments, and no others were. -/
theorem plays_insertAll {t : Table} (ht : c.store.table? n = some t) (hk : t.Keyed)
    (rows : List Tuple) :
    Plays registered hook (At c) (rows.mapM (insertOne hook n)) (t.insertions n rows)
      fun inserted w => inserted.length = rows.length ∧
        (t.insertions n rows).moments = inserted.flatMap (fun p => Moment.ofInserted n p.1) ∧
        ∃ d, At d w ∧ (d.store.table? n).isSome := by
  induction rows generalizing c t with
  | nil =>
    refine plays_pure fun w hw => ⟨rfl, rfl, c, hw, ?_⟩
    rw [ht]
    rfl
  | cons given rows ih =>
    rw [List.mapM_cons]
    have hfirst : Plays registered hook (At c) (insertOne hook n given) _ _ :=
      plays_insertOne ht hk given
    unfold Table.insertions
    cases haccept : t.definition.accept given with
    | error e =>
      rw [haccept] at hfirst
      refine hfirst.bind (t := .done) fun inserted => ?_
      rintro w ⟨values, hvalues, -⟩
      cases hvalues
    | ok values =>
      rw [haccept] at hfirst
      refine hfirst.bind fun inserted => ?_
      rintro w ⟨_, ⟨⟩, hschedule, d, hw, hd⟩ hreg
      have hnext : (t.allocate.2.put ⟨t.nextId, values⟩).Keyed :=
        (hk.grown (Table.Grown.allocate t)).put hk.nextId_pos (Nat.lt_succ_self _)
      refine (ih hd hnext).last (fun others => plays_pure ?_) w hw hreg
      rintro w ⟨hlength, hmoments, hd⟩
      refine ⟨congrArg (· + 1) hlength, ?_, hd⟩
      show ((t.insertion n values).andThen _).moments = _
      rw [hschedule, Schedule.andThen_of_none rfl, hmoments]
      rfl

theorem plays_insert (hactive : c.transaction.state = .active)
    (hk : ∀ t ∈ c.store.tables, t.Keyed) (rows : List Tuple) :
    Plays registered hook (At c) (insert hook n rows) (c.store.inserting n rows) fun inserted _ =>
      inserted.length = rows.length ∧
        (c.store.inserting n rows).moments = inserted.flatMap (Moment.ofInserted n) := by
  refine plays_prepareWrite hactive fun d hd => ?_
  rw [← hd] at hk ⊢
  cases ht : d.store.table? n with
  | some t =>
    have hkeyed := hk t (Store.mem_of_table? ht).1
    have hinserting : d.store.inserting n rows = t.insertions n rows := by
      unfold Store.inserting
      rw [Store.table_eq_ok.mpr ht]
      rfl
    rw [hinserting]
    refine (plays_insertAll ht hkeyed rows).last fun inserted => ?_
    -- recording the keys fires nothing
    rintro w ⟨hlength, hmoments, e, hw, hsome⟩
    obtain ⟨u, hu⟩ := Option.isSome_iff_exists.mp hsome
    refine plays_known hu (plays_putTable hu _ (plays_log _ ?_)) w hw
    refine plays_pure fun _ _ => ⟨(List.length_map _).trans hlength, ?_⟩
    rw [hmoments, List.flatMap_map]
  | none =>
    have hinserting : d.store.inserting n rows = ⟨[], some n.missing⟩ := by
      unfold Store.inserting
      rw [table_of_none ht]
      rfl
    rw [hinserting]
    -- the first row finds no table, and neither do the keys if there are no rows
    cases rows with
    | nil =>
      refine Plays.after (M := fun _ => At d) (moves_pure []) (meets_pure fun _ hw => hw) fun _ => ?_
      exact plays_missing ht
    | cons given rows =>
      rw [List.mapM_cons]
      exact Plays.refused (Plays.refused (plays_missing ht))

theorem plays_update (hactive : c.transaction.state = .active) (id : Nat) (given : Tuple) :
    Plays registered hook (At c) (update hook n id given) (c.store.updating n id given)
      fun _ _ => True := by
  refine plays_prepareWrite hactive fun d hd => ?_
  rw [← hd]
  refine plays_table fun t ht => plays_check fun old hold => plays_check fun values _ => ?_
  obtain ⟨rfl, hrow⟩ := row?_of_existingRow hold
  refine Plays.fire ⟨t, ht, hrow⟩ (plays_known ht (plays_check fun _ _ => ?_))
  have hput := Store.table?_put ht (u := t.put (old.withValues values)) (Store.mem_of_table? ht).2
  refine plays_putTable ht _ (plays_log _ (Plays.fire ?_ (plays_pure fun _ _ => trivial)))
  exact ⟨_, hput, Table.row?_put_self⟩

theorem plays_delete (hactive : c.transaction.state = .active) (id : Nat) :
    Plays registered hook (At c) (delete hook n id) (c.store.deleting n id) fun _ _ => True := by
  refine plays_prepareWrite hactive fun d hd => ?_
  rw [← hd]
  refine plays_table fun t ht => plays_check fun old hold => ?_
  obtain ⟨rfl, hrow⟩ := row?_of_existingRow hold
  refine Plays.fire ⟨t, ht, hrow⟩ (plays_known ht ?_)
  have hremove := Store.table?_put ht (u := t.remove old.id) (Store.mem_of_table? ht).2
  refine plays_putTable ht _ (plays_log _ ?_)
  exact (plays_fire n _ _ _ _ ⟨_, hremove, Table.row?_remove_self⟩).weaken fun _ _ _ => trivial

theorem plays_scan (hactive : c.transaction.state = .active) :
    Plays registered hook (At c) (scan hook n) (c.store.scanning n) fun _ _ => True := by
  have hready : ∀ w, At c w → exec ensureActive w = (.ok ⟨⟩, w) := by
    rintro w ⟨rfl, -⟩
    exact exec_ensureActive hactive
  refine (plays_read hready fun _ _ => ?_ : Plays registered hook (At c) (scan hook n)
    (.check (.ok ⟨⟩) fun _ => c.store.scanning n) _)
  unfold Store.scanning
  refine Plays.fire ?_ (plays_table fun t _ => Plays.fire ?_ ?_)
  · rfl
  · rfl
  · exact plays_pure fun _ _ => trivial

end Action

/-! ## The theorem -/

/-- A store that a call on a transaction can find: a statement of a session has made it, step by step, of
the store of an engine that a new one comes to. -/
def Store.Reachable (s : Store) : Prop :=
  ∃ e : Engine, e.Reachable ∧ ∃ i d, ReflTransGen Does (e.connection i).core d ∧ d.store = s

theorem Engine.Reachable.store {e : Engine} (h : e.Reachable) : e.store.Reachable :=
  ⟨e, h, 0, _, .refl, rfl⟩

theorem Store.Reachable.keyed {s : Store} (h : s.Reachable) : ∀ t ∈ s.tables, t.Keyed := by
  obtain ⟨e, he, i, d, hsteps, rfl⟩ := h
  have hcore : (e.connection i).core.Inv Table.Keyed :=
    (he.inv i).core fun _ _ ht => ht.pictured
  exact (inv_of_run (Does.inv Table.invariant_keyed) hsteps hcore).tables

/-- The triggers that a call fires, which are exactly those that are recorded, follow a schedule. -/
def Action.FiresAlong {α : Type} (hook : Hook) (call : Action α) (w : Work) (s : Schedule) : Prop :=
  ∃ fs, Fires hook call w fs (exec call w).1 (exec call w).2 ∧
    (exec call w).2.database.trace = w.database.trace ++ fs.map Firing.event ∧
    Follows w.database.registrations s fs (exec call w).1

theorem Plays.firesAlong {hook : Hook} {w : Work} {α : Type} {call : Action α} {s : Schedule}
    {Q : α → Work → Prop} (h : Plays w.database.registrations hook (At w.core) call s Q)
    (hquiet : w.database.Quiet) :
    call.FiresAlong hook w s ∧ ∀ a, (exec call w).1 = .ok a → Q a (exec call w).2 := by
  obtain ⟨fs, r, w', hfires, -, hfollows, hQ⟩ := h w ⟨rfl, hquiet⟩ rfl
  obtain ⟨hrun, htrace⟩ := hfires.sound
  unfold Action.FiresAlong
  rw [hrun]
  exact ⟨⟨fs, hfires, htrace, hfollows⟩, hQ⟩

open SqlStore.Action in
/-- With triggers that run no statements, each call on an active transaction fires along its schedule:
an insertion row by row, each row with the triggers in front of it while nothing is stored under its
number and the ones behind it while the row is stored; an update and a deletion with the triggers in
front of them while the old row is stored and the ones behind them while the new one is, or none; a scan
with the triggers at both of its ends. -/
theorem triggers_fire_in_order (hook : Hook) {w : Work} (hstore : w.database.store.Reachable)
    (hquiet : w.database.Quiet) (hactive : w.transaction.state = .active) (n : TableName) :
    (∀ rows, (insert hook n rows).FiresAlong hook w (w.database.store.inserting n rows) ∧
        ∀ inserted, (exec (insert hook n rows) w).1 = .ok inserted →
          inserted.length = rows.length ∧ (w.database.store.inserting n rows).moments =
            inserted.flatMap (Moment.ofInserted n)) ∧
      (∀ id values,
        (update hook n id values).FiresAlong hook w (w.database.store.updating n id values)) ∧
      (∀ id, (delete hook n id).FiresAlong hook w (w.database.store.deleting n id)) ∧
      (scan hook n).FiresAlong hook w (w.database.store.scanning n) := by
  refine ⟨fun rows => ?_, fun id values => ?_, fun id => ?_, ?_⟩
  · exact (plays_insert hactive hstore.keyed rows).firesAlong hquiet
  · exact ((plays_update hactive id values).firesAlong hquiet).1
  · exact ((plays_delete hactive id).firesAlong hquiet).1
  · exact ((plays_scan hactive).firesAlong hquiet).1

namespace Sample

/-- A trigger on insertions that runs nothing and fails when it is called that often. -/
def watcher (name table : String) (timing : TriggerTiming) (failing : Nat) : QuietTrigger where
  val :=
    { definition := ⟨"public", name, table, timing, .insert⟩
      react := fun calls =>
        ⟨none, if calls.length = failing then some (.execution "enough") else none⟩ }
  property _ := rfl

/-- The engine with two triggers in front of insertions into `items` and one behind them. The second
one in front fails with the second row; a call counts from the registration of a trigger. -/
def watched : Engine :=
  filled.run [.register (watcher "first" "items" .before 0),
    .register (watcher "elsewhere" "others" .before 0),
    .register (watcher "last" "items" .after 0),
    .register (watcher "second" "items" .before 3)]

/-- The transaction of a single statement on it. -/
def watching : Work := ⟨watched.database, ⟨1, .readCommitted, false, .active, none, []⟩⟩

/-- Two rows: after the first one, the second one is refused by a trigger in front of it. -/
theorem insertion_fires_in_order :
    watching.database.store.Reachable ∧ watching.database.Quiet ∧
      watching.transaction.state = .active ∧
      (Action.insert (fun _ => pure ()) ⟨"public", "items"⟩
        [[.integer 3, .integer 30], [.integer 4, .integer 40]]).FiresAlong (fun _ => pure ()) watching
        (watching.database.store.inserting ⟨"public", "items"⟩
          [[.integer 3, .integer 30], [.integer 4, .integer 40]]) ∧
      (exec (Action.insert (fun _ => pure ()) ⟨"public", "items"⟩
        [[.integer 3, .integer 30], [.integer 4, .integer 40]]) watching).2.database.trace.map
          TriggerEvent.name =
        ["first", "elsewhere", "last", "second"] ++ ["first", "second", "last", "first", "second"] := by
  have hreachable : watched.Reachable := filled_reachable.run _
  have hstore : watching.database.store.Reachable := hreachable.store
  have hquiet : watching.database.Quiet := (hreachable.inv 0).quiet
  refine ⟨hstore, hquiet, rfl, ?_, by decide +kernel⟩
  exact ((triggers_fire_in_order (fun _ => pure ()) hstore hquiet rfl _).1 _).1

end Sample

end SqlStore
