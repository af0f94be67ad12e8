import SqlStore.Proofs.Query.Reordering
import SqlStore.Proofs.Session.DerivedTable
import SqlStore.Proofs.Table.Shape

/-!
# Answers of grouped queries

What a session is answered does not depend on the triggers that a query fires, unless one of them fails, and
with functions that draw nothing it is a value of the database. So two engines can be compared by their
databases: where these hold the same rows of a table in different order, a query that groups them is
answered alike, as long as the queries inside it are.
-/

namespace SqlStore

open Run

namespace Connection

variable {hook : Hook} {q : Select}

/-- A query of a session is answered as it is by itself. -/
theorem exec_executeStatement_select {c : Connection} (hq : c.database.Quiet)
    (hactive : ∀ t ∈ c.transaction, t.state = .active) :
    (exec (executeStatement hook (.select q)) c).1 =
      (exec ((Action.services hook).select q) c.starting).1.map .selected := by
  have hcore := (Action.moves_select hook q c.starting (quiet_starting hq)).2
  have hperform : exec (Action.perform hook (.select q)) c.starting =
      ((exec ((Action.services hook).select q) c.starting).1.map .selected,
        (exec ((Action.services hook).select q) c.starting).2) := by
    show exec ((Action.services hook).select q >>= fun r => pure (Outcome.selected r)) c.starting = _
    rw [exec_bind]
    rcases exec ((Action.services hook).select q) c.starting with ⟨err | r, w'⟩ <;> rfl
  -- a query logs nothing
  have hundo : (exec (Action.perform hook (.select q)) c.starting).2.transaction.undo = [] := by
    rw [hperform, ← undo_starting c]
    exact congrArg (fun d => d.transaction.undo) hcore.symm
  rw [(exec_executeStatement_of_unlogged id hq hactive hundo).1, hperform]

end Connection

/-- A query that calls only such functions, on a transaction at work: it fails as a trigger does, or it comes
to what the database gives while it stays as it is. -/
theorem Action.select_fixed (hook : Hook) {db : Database} {q : Select} {w : Work} {drawn : Nat}
    (hw : w.Reads db drawn) (hcalls : ∀ name ∈ q.functionsUpTo (q.depth + 1), db.Deterministic name) :
    (∃ err, (exec ((services hook).select q) w).1 = .error err ∧ err.IsTrigger) ∨
      (exec ((services hook).select q) w).1 = db.fixed.select q := by
  have hreads := Services.parallel_select (L := mirroring (Work.Reads db) Error.IsTrigger)
    (s := services hook) (r := db.reading) total_mirroring reads_catalog (fun _ _ => reads_scan hook _)
    reads_callFunction q
  refine (hreads w drawn hw).imp id fun hsame => ?_
  exact hsame.1.trans (db.exec_select_fixed hcalls drawn)

namespace Engine

variable {e e' : Engine} {i j : Nat} {q : Select}

/-- What a query is answered: a failure of a trigger, or what the database gives. -/
theorem answer_select (he : e.Reachable) (i : Nat)
    (hcalls : ∀ name ∈ q.functionsUpTo (q.depth + 1), e.database.Deterministic name) :
    (∃ err, e.answer i (.select q) = .error err ∧ err.IsTrigger) ∨
      e.answer i (.select q) = (e.database.fixed.select q).map .selected := by
  have hc := he.inv i
  unfold answer
  rw [exec_executeStatement,
    Connection.exec_executeStatement_select hc.quiet fun t ht => (hc.active t ht).1]
  rcases Action.select_fixed (e.connection i).database.hook (reads_starting he i) hcalls with
    ⟨err, herr, htrigger⟩ | hsame
  · rw [herr]
    exact Or.inl ⟨err, rfl, htrigger⟩
  · rw [hsame]
    exact Or.inr rfl

/-- The rows of a table are of the types of its columns. -/
theorem Reachable.typed (he : e.Reachable) {name : ObjectName} {d : TableDefinition}
    (hd : e.database.catalog name = .ok d) {rows : List Tuple} (hrows : e.database.rowsOf name = .ok rows)
    (label : Option String) : ∀ row ∈ rows, TypedRow (d.resultColumns label) row := by
  have hinv := he.inv_of (Table.invariant_shaped shape_kinds) (Table.Shaped.pictured shape_kinds) 0
  obtain ⟨t, ht, rfl⟩ := Except.exists_of_map_eq_ok hd
  obtain ⟨u, hu, rfl⟩ := Except.exists_of_map_eq_ok hrows
  cases ht.symm.trans hu
  obtain ⟨hmem, -⟩ := Store.mem_of_table? (Store.table_eq_ok.mp ht)
  refine List.forall_mem_map.mpr fun r hr => List.forall₂_map_left_iff.mpr ?_
  refine (List.forall₂_map_left_iff.mp ((hinv.tables t hmem).rows r hr)).imp fun c v hv => ?_
  rintro _ ⟨⟩
  exact hv

/-- Let two engines that new ones come to hold the same rows of a table in different order, with the same
definitions, functions and clock. A query over that table that groups by columns of discrete kinds and that
aggregates by counting and by extremes of such columns is answered with the same rows by both, or it fails on
both: if the queries inside it are determined by the groups, if its functions draw nothing, and unless a
trigger fails. -/
theorem answer_grouped (he : e.Reachable) (he' : e'.Reachable) {name : ObjectName}
    (h : e.database.Reordered e'.database name) {body : SelectBody Select} {label : Option String}
    {d : TableDefinition} {g : Grouping} (hq : e.database.Groups body name label d g)
    (hqueries : ∀ rows, e.database.rowsOf name = .ok rows →
      e.database.Determined e'.database body label d g rows)
    (hcalls : ∀ name ∈ (Select.mk body).functionsUpTo ((Select.mk body).depth + 1),
      e.database.Deterministic name)
    (htrigger : ∀ err, e.answer i (.select (.mk body)) = .error err → ¬ err.IsTrigger)
    (htrigger' : ∀ err, e'.answer j (.select (.mk body)) = .error err → ¬ err.IsTrigger) :
    Alike Eq (e.answer i (.select (.mk body))) (e'.answer j (.select (.mk body))) := by
  have hcalls' : ∀ name ∈ (Select.mk body).functionsUpTo ((Select.mk body).depth + 1),
      e'.database.Deterministic name := fun name hname => h.deterministic (hcalls name hname)
  rcases answer_select he i hcalls with ⟨err, herr, hfired⟩ | hanswer
  · exact absurd hfired (htrigger err herr)
  rcases answer_select he' j hcalls' with ⟨err, herr, hfired⟩ | hanswer'
  · exact absurd hfired (htrigger' err herr)
  obtain ⟨t, ht, -⟩ := Except.exists_of_map_eq_ok hq.table
  have hrows : e.database.rowsOf name = .ok (t.rows.map Row.values) := by
    unfold Database.rowsOf
    rw [ht]
    rfl
  rw [hanswer, hanswer']
  refine Alike.map (R := Eq) ?_ (congrArg Outcome.selected)
  exact Database.alike_select h hq hrows (he.typed hq.table hrows label) (hqueries _ hrows)

end Engine

/-! ## Rows of integers -/

theorem Except.eq_ok_of_toOption {ε α : Type} {r : Except ε α} {a : α} (h : r.toOption = some a) :
    r = .ok a := by
  cases r with
  | error err => cases h
  | ok b =>
    cases h
    rfl

/-- Two queries are answered, with the same rows in some order. -/
inductive Outcome.SameRows : Outcome → Outcome → Prop where
  | selected {r r' : Relation} (h : r.rows.Perm r'.rows) : SameRows (.selected r) (.selected r')

namespace Sample

/-- The integer that a value is. -/
def integer? : Value → Option Int32
  | .integer n => some n
  | _ => none

/-- The integers of rows that hold nothing else. -/
def integers? (rows : List Tuple) : Option (List (List Int32)) := rows.mapM (List.mapM integer?)

/-- Whether two databases with one table hold the same rows of integers there, in some order, can be
computed. -/
def reorders (db db' : Database) (name : ObjectName) : Bool :=
  match db.store.tables, db'.store.tables, db.rowsOf name, db'.rowsOf name with
  | [t], [u], .ok rows, .ok rows' =>
    db.config.defaultSchema == db'.config.defaultSchema && db.clock == db'.clock &&
      (db.functions.isEmpty && db'.functions.isEmpty) &&
      (t.definition.same u.definition &&
        (t.definition.columns ++ u.definition.columns).all (·.default.isNone)) &&
      ((integers? rows).isSome && (integers? rows').isSome &&
        ((integers? rows).getD []).isPerm ((integers? rows').getD []))
  | _, _, _, _ => false

theorem eq_of_mapM_some {α β : Type} {f : α → Option β} {g : β → α}
    (hf : ∀ {a b}, f a = some b → a = g b) {as : List α} {bs : List β} (h : as.mapM f = some bs) :
    as = bs.map g := by
  induction as generalizing bs with
  | nil =>
    cases h
    rfl
  | cons a as ih =>
    rw [List.mapM_cons] at h
    obtain ⟨b, hb, h⟩ := Option.bind_eq_some_iff.mp h
    obtain ⟨bs', hbs, h⟩ := Option.bind_eq_some_iff.mp h
    cases h
    rw [List.map_cons, hf hb, ih hbs]

theorem eq_of_integers? {rows : List Tuple} {nss : List (List Int32)} (h : integers? rows = some nss) :
    rows = nss.map (List.map .integer) := by
  have hvalue : ∀ {v : Value} {n}, integer? v = some n → v = .integer n := by
    intro v n hv
    cases v <;> cases hv
    rfl
  exact eq_of_mapM_some (fun hrow => eq_of_mapM_some hvalue hrow) h

/-- Definitions without defaults that count as the same are equal. -/
theorem definition_eq_of_same {c d : TableDefinition} (h : c.same d = true)
    (hnone : ∀ column ∈ c.columns ++ d.columns, column.default = none) : c = d := by
  have hcolumns := TableDefinition.forall₂_of_same h
  rcases c with ⟨_, _, cs⟩
  rcases d with ⟨_, _, ds⟩
  simp only [TableDefinition.same, Bool.and_eq_true, beq_iff_eq] at h
  obtain ⟨⟨⟨rfl, rfl⟩, -⟩, -⟩ := h
  obtain ⟨hleft, hright⟩ := List.forall_mem_append.mp hnone
  refine congrArg (TableDefinition.mk _ _) ?_
  dsimp only at hcolumns hleft hright
  clear hnone
  induction hcolumns with
  | nil => rfl
  | @cons c d _ _ hsame _ ih =>
    obtain ⟨hc, hcs⟩ := List.forall_mem_cons.mp hleft
    obtain ⟨hd, hds⟩ := List.forall_mem_cons.mp hright
    have heq := Column.eq_of_same hsame
    rw [hd, ← hc] at heq
    rw [heq, ih hcs hds]

theorem reordered_of_reorders {db db' : Database} {name : ObjectName}
    (h : reorders db db' name = true) : db.Reordered db' name := by
  unfold reorders at h
  split at h
  · next t u rows rows' ht hu hrows hrows' =>
    simp only [Bool.and_eq_true, beq_iff_eq] at h
    obtain ⟨⟨⟨⟨hschema, hclock⟩, hfunctions, hfunctions'⟩, hsame, hnone⟩, ⟨hsome, hsome'⟩, hperm⟩ := h
    obtain ⟨nss, hnss⟩ := Option.isSome_iff_exists.mp hsome
    obtain ⟨nss', hnss'⟩ := Option.isSome_iff_exists.mp hsome'
    rw [hnss, hnss', Option.getD_some, Option.getD_some, List.isPerm_iff] at hperm
    have hdefinition : t.definition = u.definition :=
      definition_eq_of_same hsame fun column hcolumn =>
        Option.isNone_iff_eq_none.mp (List.all_eq_true.mp hnone column hcolumn)
    exact
      { schema := hschema
        definitions := by rw [ht, hu, List.map_singleton, List.map_singleton, hdefinition]
        functions := by rw [List.isEmpty_iff.mp hfunctions, List.isEmpty_iff.mp hfunctions']
        clock := hclock
        rows := by
          rw [hrows, hrows', eq_of_integers? hnss, eq_of_integers? hnss']
          exact hperm.map _ }
  · cases h

/-- `CREATE TABLE pairs (a INTEGER, b INTEGER)` -/
def createPairs : Statement :=
  .createTable ⟨none, "pairs"⟩ [column "a" false false, column "b" false false] false

/-- `INSERT INTO pairs VALUES (...)` -/
def insertPairs (pairs : List (Int32 × Int32)) : Statement :=
  .insert ⟨none, "pairs"⟩ none
    (.values (pairs.map fun p => [some (.literal (.integer p.1)), some (.literal (.integer p.2))]))

/-- An engine with some pairs. -/
@[irreducible] def paired (pairs : List (Int32 × Int32)) : Engine :=
  (Engine.open_ Config.standard midnight).run
    [.statement 0 createPairs, .statement 0 (insertPairs pairs)]

theorem paired_reachable (pairs : List (Int32 × Int32)) : (paired pairs).Reachable := by
  unfold paired
  exact ⟨Config.standard, midnight, _, rfl⟩

/-- A query over the pairs. -/
def overPairs (items : List Expression) (filter having : Option Expression) : SelectBody Select :=
  { distinct := false
    items := items.map fun e => .expr e none
    sources := [.table ⟨none, "pairs"⟩ none]
    filter
    groupBy := [.column none "a"]
    having
    orderBy := []
    limit := none
    offset := none }

/-- The table and the grouping of a query, as far as it is planned. -/
def grouping? (db : Database) (body : SelectBody Select) (name : ObjectName) :
    Option (TableDefinition × Grouping) := do
  let d ← (db.catalog name).toOption
  let p ← (Plan.ofSelect db.catalog [] (.mk body)).toOption
  return (d, ← p.grouping?)

/-- Whether a query groups and aggregates columns of discrete kinds can be computed. -/
theorem exists_groups (db : Database) {body : SelectBody Select} {name : ObjectName}
    (hbody : body.OverTable name none) {k : TableDefinition → Grouping → Bool}
    (h : ((grouping? db body name).any fun (d, g) =>
      g.keys.all (·.isDiscrete (d.resultColumns none)) &&
        g.expressions.all (·.comparesDiscrete (d.resultColumns none)) && k d g) = true) :
    ∃ d g, db.Groups body name none d g ∧ k d g = true := by
  obtain ⟨⟨d, g⟩, hfound, hchecks⟩ := (Option.any_eq_true _ _).mp h
  obtain ⟨_, hd, hfound⟩ := Option.bind_eq_some_iff.mp hfound
  obtain ⟨p, hp, hfound⟩ := Option.bind_eq_some_iff.mp hfound
  obtain ⟨_, hg, hfound⟩ := Option.bind_eq_some_iff.mp hfound
  cases hfound
  simp only [Bool.and_eq_true, List.all_eq_true] at hchecks
  exact ⟨d, g,
    { overTable := hbody
      table := Except.eq_ok_of_toOption hd
      planned := ⟨p, Except.eq_ok_of_toOption hp, hg⟩
      keys := hchecks.1.1
      comparing := hchecks.1.2 }, hchecks.2⟩

/-- `(SELECT ...)` without sources. -/
def scalar (e : Expression) : Expression :=
  .subquery (.mk
    { distinct := false
      items := [.expr e none]
      sources := []
      filter := none
      groupBy := []
      having := none
      orderBy := []
      limit := none
      offset := none })

/-- `SELECT a, count(*), max(b), coalesce((SELECT a), 0) FROM pairs WHERE b > 0 GROUP BY a HAVING min(b) < 5` -/
def counting : SelectBody Select :=
  overPairs
    [.column none "a", .aggregate .count false none, .aggregate .max false (some (.column none "b")),
      .call "coalesce" [scalar (.column none "a"), .literal (.integer 0)]]
    (some (.binary .greater (.column none "b") (.literal (.integer 0))))
    (some (.binary .less (.aggregate .min false (some (.column none "b"))) (.literal (.integer 5))))

/-- `SELECT a, (SELECT b) FROM pairs GROUP BY a` -/
def leaking : SelectBody Select :=
  overPairs [.column none "a", scalar (.column none "b")] none none

/-- Three pairs, and the same pairs from the last to the first. -/
def forth : Engine := paired [(1, 2), (1, 3), (2, 5)]

def back : Engine := paired [(2, 5), (1, 3), (1, 2)]

theorem forth_reachable : forth.Reachable := paired_reachable _

theorem back_reachable : back.Reachable := paired_reachable _

theorem forth_back : forth.database.Reordered back.database ⟨none, "pairs"⟩ :=
  reordered_of_reorders (by decide +kernel)

theorem counting_grouped : ∃ r, forth.answer 0 (.select (.mk counting)) = .ok (.selected r) ∧
    back.answer 0 (.select (.mk counting)) = .ok (.selected r) ∧ r.rows.length = 1 := by
  obtain ⟨d, g, hq, hchecks⟩ := exists_groups forth.database
    (show counting.OverTable ⟨none, "pairs"⟩ none from ⟨rfl, rfl, rfl, rfl⟩) (k := fun d g =>
      (g.expressions.all fun e => e.queries.all
        (Select.refersTo (Expr.namesGroup (d.resultColumns none) g.keys) (Select.mk counting).depth)) &&
      ((counting.filter.toList ++ g.expressions).all fun e => e.queries.all fun q =>
        (q.tablesUpTo (Select.mk counting).depth).isEmpty)) (by decide +kernel)
  simp only [Bool.and_eq_true, List.all_eq_true, List.isEmpty_iff] at hchecks
  obtain ⟨r, hanswer, hrows⟩ := exists_of_answers (e := forth) (q := .mk counting)
    (k := fun r => r.rows.length == 1) (by decide +kernel)
  have hback : (back.answer 0 (.select (.mk counting))).isOk = true := by decide +kernel
  have hcalls : (Select.mk counting).functionsUpTo ((Select.mk counting).depth + 1) = ["coalesce"] := by
    decide +kernel
  have halike := Engine.answer_grouped (i := 0) (j := 0) forth_reachable back_reachable
    forth_back hq (fun rows hrows => Database.determined_of_refersTo forth_back
      ⟨forth_reachable.typed hq.table hrows none, hq.keys⟩ hchecks.1
      fun e he q hmem n hn => by
        rw [hchecks.2 e he q hmem] at hn
        cases hn)
    (fun name hname => by
      rw [hcalls, List.mem_singleton] at hname
      cases hname
      exact Database.deterministic_of_ne (by decide) (by decide))
    (fun err herr => by
      rw [hanswer] at herr
      cases herr)
    (fun err herr => by
      rw [herr] at hback
      cases hback)
  obtain ⟨_, hsame, rfl⟩ := halike.exists_of_ok hanswer
  exact ⟨r, hanswer, hsame, beq_iff_eq.mp hrows⟩

/-- A query inside may read what is not grouped: the answers differ with the order of the rows. -/
theorem leaking_grouped_fails :
    ¬ ∀ (e e' : Engine) (i j : Nat) (body : SelectBody Select) (name : ObjectName)
      (label : Option String) (d : TableDefinition) (g : Grouping), e.Reachable → e'.Reachable →
      e.database.Reordered e'.database name → e.database.Groups body name label d g →
      (∀ name ∈ (Select.mk body).functionsUpTo ((Select.mk body).depth + 1),
        e.database.Deterministic name) →
      (∀ err, e.answer i (.select (.mk body)) = .error err → ¬ err.IsTrigger) →
      (∀ err, e'.answer j (.select (.mk body)) = .error err → ¬ err.IsTrigger) →
      Alike Outcome.SameRows (e.answer i (.select (.mk body))) (e'.answer j (.select (.mk body))) := by
  intro h
  obtain ⟨d, g, hq, -⟩ := exists_groups forth.database
    (show leaking.OverTable ⟨none, "pairs"⟩ none from ⟨rfl, rfl, rfl, rfl⟩) (k := fun _ _ => true)
    (by decide +kernel)
  obtain ⟨r, hanswer, hrows⟩ := exists_of_answers (e := forth) (q := .mk leaking)
    (k := fun r => integers? r.rows == some [[1, 2], [2, 5]]) (by decide +kernel)
  obtain ⟨r', hanswer', hrows'⟩ := exists_of_answers (e := back) (q := .mk leaking)
    (k := fun r => integers? r.rows == some [[1, 3], [2, 5]]) (by decide +kernel)
  have hcalls : (Select.mk leaking).functionsUpTo ((Select.mk leaking).depth + 1) = [] := by
    decide +kernel
  have halike := h forth back 0 0 leaking ⟨none, "pairs"⟩ none d g forth_reachable back_reachable
    forth_back hq (fun name hname => by
      rw [hcalls] at hname
      cases hname)
    (fun err herr => by
      rw [hanswer] at herr
      cases herr)
    (fun err herr => by
      rw [hanswer'] at herr
      cases herr)
  rw [hanswer, hanswer'] at halike
  obtain ⟨hperm⟩ := halike
  rw [eq_of_integers? (beq_iff_eq.mp hrows), eq_of_integers? (beq_iff_eq.mp hrows')] at hperm
  have hinjective : Function.Injective (List.map Value.integer) :=
    List.map_injective_iff.mpr fun _ _ h => Value.integer.inj h
  exact absurd ((List.map_perm_map_iff hinjective).mp hperm) (by decide)

end Sample

end SqlStore
