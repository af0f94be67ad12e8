import SqlStore.Proofs.Query.Prepared
import SqlStore.Proofs.Query.Reading
import SqlStore.Proofs.Session.Sample
import SqlStore.Proofs.Table.Shape

/-!
# Plans and their results

The columns of a query's results are worked out twice: when it is planned, over the tree of the plan, and
when it is run, from source to source. On every engine that a new one comes to, both agree, at every place
of the plan: rows of tables have one value for each column of the definition, and every step hands on what
the plan says of it. What planning checked about names therefore holds when rows are read, and a query that
asks no queries inside its expressions fails on values only.
-/

namespace SqlStore

open Run

/-- A transaction at work on a database that reads as the given one. -/
def Work.IsReading (db : Database) (w : Work) : Prop := ∃ drawn, w.Reads db drawn

theorem Error.IsTrigger.isOperational {err : Error} (h : err.IsTrigger) : err.IsOperational := by
  cases err <;> first
    | exact trivial
    | exact h.elim

namespace Action

variable {db : Database} {E : Error → Prop}

/-! ## What queries ask -/

theorem ends_fire (hE : ∀ err, err.IsTrigger → E err) (hook : Hook) (n : TableName)
    (timing : TriggerTiming) (operation : TableOperation) (old new : Option Row) :
    Ends (Work.IsReading db) (fire hook n timing operation old new) (fun _ => True) E := by
  rintro w ⟨drawn, hw⟩
  obtain ⟨r, trace, hfire, hfailure⟩ := hw.exec_fire hook n timing operation old new
  rw [hfire]
  refine ⟨⟨drawn, hw.record trace⟩, ?_⟩
  cases r with
  | ok u => exact trivial
  | error err => exact hE err (hfailure err rfl)

/-- A scan answers the rows of the table, if there is the table and no trigger stops it. -/
theorem ends_scan (htrigger : ∀ err, err.IsTrigger → E err) {n : TableName}
    (hmissing : ∀ err, db.store.table n = .error err → E err) (hook : Hook) :
    Ends (Work.IsReading db) (scan hook n)
      (fun rows => ∃ t, db.store.table n = .ok t ∧ rows = t.rows) E := by
  have hactive : Ends (Work.IsReading db) ensureActive (fun _ => True) E := by
    rintro w ⟨drawn, hw⟩
    rw [exec_ensureActive hw.active]
    exact ⟨⟨drawn, hw⟩, trivial⟩
  have htable : Ends (Work.IsReading db) (table n) (fun t => db.store.table n = .ok t) E := by
    rintro w ⟨drawn, hw⟩
    rw [exec_table, hw.store_eq]
    refine ⟨⟨drawn, hw⟩, ?_⟩
    cases ht : db.store.table n with
    | ok t => exact rfl
    | error err => exact hmissing err ht
  have hfire (timing : TriggerTiming) : Ends (Work.IsReading db)
      (fire hook n timing .select none none) (fun _ => True) E :=
    ends_fire htrigger hook n timing .select none none
  refine hactive.bind fun _ _ => (hfire .before).bind fun _ _ => htable.bind fun t ht => ?_
  exact (hfire .after).bind fun _ _ => ends_pure ⟨t, ht, rfl⟩

/-- A call counts, and it answers as the function does. -/
theorem ends_callFunction {Q : Value → Prop} {name : String} {args : Tuple}
    (hQ : ∀ drawn v, { db with drawn }.callFunction name args = .ok v → Q v)
    (hE : ∀ drawn err, { db with drawn }.callFunction name args = .error err → E err) :
    Ends (Work.IsReading db) (callFunction name args) Q E := by
  rintro w ⟨drawn, hw⟩
  rw [exec_callFunction]
  refine ⟨⟨drawn + 1, hw.count⟩, ?_⟩
  have hresult : w.database.callFunction name args = { db with drawn }.callFunction name args := by
    rw [hw.database]
    rfl
  rw [hresult]
  cases hcall : { db with drawn }.callFunction name args with
  | ok v => exact hQ drawn v hcall
  | error err => exact hE drawn err hcall

/-- What an expression asks leaves a transaction that reads as before. -/
theorem asks_ending (hook : Hook) (depth : Nat) (e : Expression) :
    e.Asks (ending (Work.IsReading db) fun _ => True) ((services hook).access depth).toSurroundings
      ((services hook).access depth).toSurroundings := by
  have hcatalog : Ends (Work.IsReading db) catalog (fun _ => True) (fun _ => True) := by
    intro w hw
    rw [exec_catalog]
    exact ⟨hw, trivial⟩
  have hscan (schema name : String) : Ends (Work.IsReading db) (scan hook ⟨schema, name⟩)
      (fun _ => True) (fun _ => True) :=
    (ends_scan (fun _ _ => trivial) (fun _ _ => trivial) hook).mono (fun _ _ => trivial) fun _ h => h
  exact Services.asks_access (s := services hook) (r := services hook) (fun _ => trivial) hcatalog
    hscan (fun _ _ => ends_callFunction (fun _ _ _ => trivial) fun _ _ _ => trivial) depth e

/-- However evaluating an expression ends, the transaction reads as before. -/
theorem ends_evaluate (hook : Hook) (depth : Nat) (scope : Scope) (e : Expression) :
    Ends (Work.IsReading db) (e.evaluate ((services hook).access depth).toSurroundings scope)
      (fun _ => True) (fun _ => True) :=
  parallel_evaluate (L := ending (Work.IsReading db) fun _ => True) (fun _ => trivial)
    (asks_ending hook depth e) scope

end Action

namespace Database

variable {db : Database}

theorem exists_of_catalog (hdistinct : db.store.Distinct) {name : ObjectName} {d : TableDefinition}
    (h : db.catalog name = .ok d) :
    ∃ t ∈ db.store.tables, t.definition = d ∧ db.store.table ⟨d.schema, d.name⟩ = .ok t := by
  obtain ⟨t, ht, rfl⟩ := Except.exists_of_map_eq_ok h
  obtain ⟨hmem, -⟩ := Store.mem_of_table? (Store.table_eq_ok.mp ht)
  exact ⟨t, hmem, rfl, Store.table_eq_ok.mpr (hdistinct.table?_of_mem hmem)⟩

/-- The table of a plan answers rows of the width that the plan knows. -/
theorem ends_scan {E : Error → Prop} (hE : ∀ err, err.IsTrigger → E err)
    (hdistinct : db.store.Distinct) (hwidth : ∀ t ∈ db.store.tables, t.Rectangular) (hook : Hook)
    (depth : Nat) {name : ObjectName} {d : TableDefinition} (hd : db.catalog name = .ok d) :
    Ends (Work.IsReading db) (((Action.services hook).access depth).scan d.schema d.name)
      (fun rows => ∀ r ∈ rows, r.values.length = d.columns.length) E := by
  obtain ⟨t, hmem, rfl, ht⟩ := exists_of_catalog hdistinct hd
  rw [Services.scan_access]
  refine (Action.ends_scan hE ?_ hook).mono ?_ fun _ h => h
  · intro err herr
    cases ht.symm.trans herr
  · rintro _ ⟨u, hu, rfl⟩
    cases ht.symm.trans hu
    exact (hwidth t hmem).width

end Database

/-- The failures of a query that was checked: those on values, and those that functions of the host
give. -/
def Database.Fails (db : Database) (err : Error) : Prop := err.IsOperational ∨ db.HostFails err

namespace Engine

variable {e : Engine} {outer : Scope} {q : Select} {p : Plan}

/-- The tables that a plan scans on a reachable engine are as wide as the plan knows. -/
theorem Reachable.supported_of_madeOf (h : e.Reachable) (hook : Hook) (depth : Nat)
    (hp : p.MadeOf e.database.catalog q) :
    p.Supported (Work.IsReading e.database) (fun _ => True) ((Action.services hook).access depth)
      outer := by
  have hinv := h.inv_of Table.invariant_rectangular Table.Rectangular.pictured 0
  refine Plan.supported_of_scans (fun _ => trivial) (fun x scope => ?_) fun d hd => ?_
  · exact Action.ends_evaluate hook depth scope x
  · obtain ⟨body, -, name, -, hd⟩ := hp.scans d hd
    exact Database.ends_scan (fun _ _ => trivial) hinv.distinct hinv.tables hook depth hd

theorem Reachable.supported (h : e.Reachable) (hook : Hook) (depth : Nat)
    (hp : Plan.ofSelect e.database.catalog outer q = .ok p) :
    p.Supported (Work.IsReading e.database) (fun _ => True) ((Action.services hook).access depth)
      outer :=
  h.supported_of_madeOf hook depth (Plan.madeOf_ofSelect hp)

/-- What a query of plain levels evaluates was checked. -/
theorem Reachable.supported_of_plain (h : e.Reachable) (hook : Hook) (depth : Nat)
    (hp : Plan.ofSelect e.database.catalog outer q = .ok p) (hq : ∀ body ∈ q.levels, body.Plain)
    (houter : outer.Filled) :
    p.Supported (Work.IsReading e.database) e.database.Fails ((Action.services hook).access depth)
      outer := by
  have hinv := h.inv_of Table.invariant_rectangular Table.Rectangular.pictured 0
  refine Plan.supported_ofSelect (operations_operational.mono fun _ => Or.inl) (fun name args => ?_)
    houter (fun name d hd => ?_) hq hp
  · rw [Services.call_access]
    refine Action.ends_callFunction (fun _ _ _ => trivial) fun drawn err herr => ?_
    exact Database.failsWith_callFunction { e.database with drawn } name args err herr
  · exact Database.ends_scan (fun _ herr => Or.inl herr.isOperational) hinv.distinct hinv.tables hook
      depth hd

/-- Plan a query on an engine that a new one comes to, inside any outer scope, and run the plan, or one of
the plans inside it, in a transaction at work there. Results have the columns, by table and name, that the
plan says, and every row has as many values. If moreover the query asks no queries inside its expressions
and has no `*` at any of its levels, and the rows of the outer scope have their values, then its plan never
fails on a name, on an aggregate without a group or with a broken invariant, unless a function of the host
answered with that failure. -/
theorem plan_runs_as_laid_out (h : e.Reachable) {hook : Hook} {depth : Nat}
    (hp : Plan.ofSelect e.database.catalog outer q = .ok p) {w : Work} {drawn : Nat}
    (hw : w.Reads e.database drawn) :
    (∀ node ∈ p.nodes, ∀ r w',
      exec (node.run ((Action.services hook).access depth) outer) w = (.ok r, w') →
        r.columns.map (fun c => (c.table, c.name)) =
            node.columns.map (fun c => (c.table, c.name)) ∧
          ∀ row ∈ r.rows, row.length = node.columns.length) ∧
      ((∀ body ∈ q.levels, body.Plain) → outer.Filled → ∀ err w',
        exec (p.run ((Action.services hook).access depth) outer) w = (.error err, w') →
          err.IsNaming → e.database.HostFails err) := by
  refine ⟨fun node hnode r w' hrun => ?_, fun hq houter err w' hrun hnaming => ?_⟩
  · have hends := Plan.ends_run (operations_of_forall fun _ => trivial) ⟨trivial, fun _ => trivial⟩
      ((h.supported hook depth hp).of_node hnode) w ⟨drawn, hw⟩
    rw [hrun] at hends
    exact ⟨hends.2.keys, hends.2.width⟩
  · have hends := Plan.ends_run (operations_operational.mono fun _ => Or.inl)
      (Plan.counting_operational.mono fun _ => Or.inl)
      (h.supported_of_plain hook depth hp hq houter) w ⟨drawn, hw⟩
    rw [hrun] at hends
    exact hends.2.resolve_left fun hoperational => hoperational.not_isNaming hnaming

end Engine

namespace Sample

/-- `SELECT code, max(id) FROM items GROUP BY code ORDER BY count(*)`, with a hidden sort column. -/
def greatest : Select :=
  .mk
    { distinct := false
      items := [.expr (.column none "code") none,
        .expr (.aggregate .max false (some (.column none "id"))) none]
      sources := [.table ⟨none, "items"⟩ none]
      filter := none
      groupBy := [.column none "code"]
      having := none
      orderBy := [⟨.aggregate .count false none, false, none⟩]
      limit := none
      offset := none }

/-- The transaction of a single statement on the filled engine. -/
def reading : Work := ⟨filled.database, ⟨1, .readCommitted, false, .active, none, []⟩⟩

/-- What queries in it ask. -/
def asking : Access Action := (Action.services fun _ => return ⟨⟩).access 1

theorem greatest_runs_as_laid_out :
    ∃ p r w, Plan.ofSelect filled.database.catalog [] greatest = .ok p ∧ p.nodes.length = 4 ∧
      exec (p.run asking []) reading = (.ok r, w) ∧ r.columns.length = 2 ∧ r.rows.length = 2 ∧
      (∀ node ∈ p.nodes, ∀ r w, exec (node.run asking []) reading = (.ok r, w) →
        r.columns.map (fun c => (c.table, c.name)) =
            node.columns.map (fun c => (c.table, c.name)) ∧
          ∀ row ∈ r.rows, row.length = node.columns.length) ∧
      ∀ err w, exec (p.run asking []) reading = (.error err, w) → err.IsNaming →
        filled.database.HostFails err := by
  have hreads : reading.Reads filled.database filled.database.drawn :=
    ⟨rfl, (filled_reachable.inv 0).quiet, rfl⟩
  have hplain : ∀ body ∈ greatest.levels, body.Plain := by
    refine List.forall_mem_singleton.mpr ⟨?_, ?_⟩
    · simp [SelectBody.expressions, SelectBody.conditions, FromItem.conditions,
        SelectItem.expression?, Expr.queries, Expr.subexpressions, Expr.optionParts, Expr.ownQuery?]
    · simp [SelectItem.expression?]
  -- the plan and its run are computed
  have hcomputed : (Plan.ofSelect filled.database.catalog [] greatest).toOption.any (fun p =>
      p.nodes.length == 4 && (exec (p.run asking []) reading).1.toOption.any fun r =>
        r.columns.length == 2 && r.rows.length == 2) = true := by
    decide +kernel
  obtain ⟨p, hp⟩ := exists_ok_of_isOk
    (r := Plan.ofSelect filled.database.catalog [] greatest) (by decide +kernel)
  simp only [hp, Except.toOption, Option.any_some, Bool.and_eq_true, beq_iff_eq] at hcomputed
  obtain ⟨hnodes, hran⟩ := hcomputed
  rcases hrun : exec (p.run asking []) reading with ⟨err | r, w⟩ <;> rw [hrun] at hran
  · cases hran
  · simp only [Option.any_some, Bool.and_eq_true, beq_iff_eq] at hran
    exact ⟨p, r, w, hp, hnodes, hrun, hran.1, hran.2,
      (Engine.plan_runs_as_laid_out filled_reachable hp hreads).1,
      (Engine.plan_runs_as_laid_out filled_reachable hp hreads).2 hplain
        (List.forall_mem_nil _)⟩

end Sample

end SqlStore
