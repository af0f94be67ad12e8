import SqlStore.Proofs.Query.Inference
import SqlStore.Proofs.Session.DerivedTable
import SqlStore.Proofs.Table.Shape

/-!
# Types of answers

A query is planned with types for some of its columns. On every engine that a new one comes to, rows of
tables have values of the kinds of their columns, and from there the values of a plan's results are of the
kinds that `Plan.kinds` finds. Where every step of a plan is decided, these are the kinds of the types that
planning inferred. A step that is not may give a column of text documents, or one of numbers text.
-/

namespace SqlStore

open Run
open SqlStore.Expr (Answers Yields)

namespace Action

variable {db : Database}

/-- A function answers with a value of the kinds that are foretold. -/
theorem yields_callFunction (hdb : db.KeepsFunctions) (name : String) {kss : List (List DataType)}
    {args : Tuple} (hargs : AmongAll kss args) :
    Yields (Work.IsReading db) (callFunction name args) (Value.Among (callKinds name kss)) := by
  refine ends_callFunction (fun drawn v hcall => ?_) fun _ _ _ => trivial
  have hkeeps : { db with drawn }.KeepsFunctions := hdb
  exact Database.gives_callFunction hkeeps name hargs v hcall

theorem answers (hdb : db.KeepsFunctions) (hook : Hook) (depth : Nat) :
    Answers (Work.IsReading db) ((services hook).access depth).toSurroundings where
  query q scope := (asks_ending hook depth (.exists_ q)).query q (Expr.mem_queries_of_own rfl) scope
  call name kss args hargs := by
    rw [Services.call_access]
    exact yields_callFunction hdb name hargs

end Action

/-- Every value in a column of known type is NULL or of the kind of that type. -/
def Relation.OfTypes (r : Relation) (columns : List ResultColumn) : Prop :=
  ∀ row ∈ r.rows, List.Forall₂ (fun (c : ResultColumn) (v : Value) =>
    ∀ t s, c.datatype = some t → v.datatype = some s → s = t.kind) columns row

namespace Engine

variable {e : Engine} {outer : Scope} {q : Select} {p : Plan}

/-- The rows of a table are of the kinds of its columns. -/
theorem Reachable.yields_scan (he : e.Reachable) (hook : Hook) (depth : Nat) {name : ObjectName}
    {d : TableDefinition} (hd : e.database.catalog name = .ok d) :
    Yields (Work.IsReading e.database) (((Action.services hook).access depth).scan d.schema d.name)
      fun rows => ∀ r ∈ rows, AmongAll d.kinds r.values := by
  have hinv := he.inv_of (Table.invariant_shaped shape_kinds) (Table.Shaped.pictured shape_kinds) 0
  obtain ⟨t, hmem, rfl, ht⟩ := Database.exists_of_catalog hinv.distinct hd
  rw [Services.scan_access]
  refine (Action.ends_scan (fun _ _ => trivial) (fun _ _ => trivial) hook).mono ?_ fun _ h => h
  rintro _ ⟨u, hu, rfl⟩
  cases ht.symm.trans hu
  exact (hinv.tables t hmem).rows

/-- Run a plan of a query in a transaction at work on an engine that a new one comes to: its results are of
the kinds that are known of it. -/
theorem Reachable.knows (he : e.Reachable) (hdb : e.database.KeepsFunctions) {hook : Hook} {depth : Nat}
    (hp : Plan.ofSelect e.database.catalog outer q = .ok p) {w w' : Work} {drawn : Nat}
    (hw : w.Reads e.database drawn) {r : Relation}
    (hrun : exec (p.run ((Action.services hook).access depth) outer) w = (.ok r, w')) : r.Knows p := by
  have hyields : Yields (Work.IsReading e.database) (p.run ((Action.services hook).access depth) outer)
      (·.Knows p) := by
    refine Plan.yields_run (Action.answers hdb hook depth) fun d hd => ?_
    obtain ⟨body, -, name, -, hd⟩ := (Plan.madeOf_ofSelect hp).scans d hd
    exact he.yields_scan hook depth hd
  have hends := hyields w ⟨drawn, hw⟩
  rw [hrun] at hends
  exact hends.2

/-- Let a session of an engine that a new one comes to answer a query, where no function of the host has
the name of one that every database has. If every step of the query's plan is decided, then each value of
the answer in a column for which planning inferred a type is NULL or of the kind of that type. -/
theorem answer_ofTypes (he : e.Reachable) (hdb : e.database.KeepsFunctions) (i : Nat)
    (hp : Plan.ofSelect e.database.catalog [] q = .ok p)
    (hdecided : ∀ node ∈ p.nodes, node.decided = true) {r : Relation}
    (h : e.answer i (.select q) = .ok (.selected r)) : r.OfTypes p.columns := by
  have hw : (e.connection i).starting.Reads e.database e.database.drawn := reads_starting he i
  obtain ⟨_, hr, ⟨⟩⟩ := (select_ok_iff he i).mp h
  obtain ⟨p', hp', hrun⟩ := Action.exists_of_select_ok (Prod.ext hr rfl)
  have hcatalog : (e.connection i).starting.database.catalog = e.database.catalog := by
    rw [hw.database]
    rfl
  cases (hcatalog ▸ hp').symm.trans hp
  have hknows := he.knows hdb hp hw hrun
  have htyped : TypesHold p.columns p.kinds := Plan.typed_ofSelect hp hdecided
  intro row hrow
  -- place by place: the column's kinds are of its type, and the value is of these kinds
  refine List.forall₂_iff_get.mpr ⟨(hknows.fits.width row hrow).symm, fun j hcolumn hvalue t s ht hs => ?_⟩
  obtain ⟨hlength, hkinds⟩ := List.forall₂_iff_get.mp (hknows.rows row hrow)
  obtain ⟨-, htypes⟩ := List.forall₂_iff_get.mp htyped
  have hj : j < p.kinds.length := by omega
  exact List.mem_singleton.mp (htypes j hcolumn hj t ht (hkinds j hj hvalue s hs))

end Engine

namespace Sample

/-- `SELECT max(id), coalesce(code, 0) || '!' FROM items GROUP BY code` -/
def labelled : Select :=
  .mk
    { distinct := false
      items := [.expr (.aggregate .max false (some (.column none "id"))) none,
        .expr (.binary .concat (.call "coalesce" [.column none "code", .literal (.integer 0)])
          (.literal (.text "!"))) none]
      sources := [.table ⟨none, "items"⟩ none]
      filter := none
      groupBy := [.column none "code"]
      having := none
      orderBy := []
      limit := none
      offset := none }

/-- A query without sources. -/
def alone (e : Expression) (label : Option String) (filter : Option Expression) : Select :=
  .mk
    { distinct := false
      items := [.expr e label]
      sources := []
      filter
      groupBy := []
      having := none
      orderBy := []
      limit := none
      offset := none }

/-- `SELECT (CASE WHEN TRUE THEN JSONB '[1]' END) || '[2]'` -/
def guessing : Select :=
  alone (.binary .concat (.cases none [(.literal (.boolean true),
    .cast (.literal (.text "[1]")) .jsonb)] none) (.literal (.text "[2]"))) none none

/-- `SELECT a FROM (SELECT 1 AS a WHERE FALSE) AS t RIGHT JOIN (SELECT 'x' AS a) AS u USING (a)` -/
def merging : Select :=
  .mk
    { distinct := false
      items := [.expr (.column none "a") none]
      sources := [.join .right
        (.derived (alone (.literal (.integer 1)) (some "a") (some (.literal (.boolean false)))) (some "t"))
        (.derived (alone (.literal (.text "x")) (some "a") none) (some "u")) (.using_ ["a"])]
      filter := none
      groupBy := []
      having := none
      orderBy := []
      limit := none
      offset := none }

/-- The plan of a query on the filled engine. -/
def planned (q : Select) : Except Error Plan := Plan.ofSelect filled.database.catalog [] q

theorem filled_keepsFunctions : filled.database.KeepsFunctions := by
  have hnone : filled.database.functions.isEmpty = true := by decide +kernel
  intro name f hf
  rw [List.isEmpty_iff.mp hnone] at hf
  cases hf

theorem labelled_ofTypes :
    ∃ p r, planned labelled = .ok p ∧
      p.columns.map ResultColumn.datatype = [some .integer, some .text] ∧
      filled.answer 0 (.select labelled) = .ok (.selected r) ∧ r.rows.length = 2 ∧
      r.OfTypes p.columns := by
  obtain ⟨p, hp⟩ := exists_ok_of_isOk (r := planned labelled) (by decide +kernel)
  have hplan : (planned labelled).toOption.any (fun p => p.nodes.all Plan.decided &&
      p.columns.map ResultColumn.datatype == [some .integer, some .text]) = true := by
    decide +kernel
  simp only [hp, Except.toOption, Option.any_some, Bool.and_eq_true, beq_iff_eq] at hplan
  obtain ⟨r, hanswer, hrows⟩ := exists_of_answers (e := filled) (q := labelled)
    (k := fun r => r.rows.length == 2) (by decide +kernel)
  exact ⟨p, r, hp, hplan.2, hanswer, beq_iff_eq.mp hrows, Engine.answer_ofTypes filled_reachable
    filled_keepsFunctions 0 hp (List.all_eq_true.mp hplan.1) hanswer⟩

/-- Whether a query gives one value, of a kind that is not its column's, can be computed. -/
def mistyped (q : Select) (t s : DataType) : Bool :=
  (planned q).toOption.any (fun p => p.columns.map ResultColumn.datatype == [some t]) &&
    answers filled q fun r => r.rows.map (List.map Value.datatype) == [[some s]]

theorem exists_of_mistyped {q : Select} {t s : DataType} (h : mistyped q t s = true) (hne : s ≠ t.kind) :
    ∃ p r, planned q = .ok p ∧ filled.answer 0 (.select q) = .ok (.selected r) ∧
      ¬ r.OfTypes p.columns := by
  unfold mistyped at h
  obtain ⟨htypes, hanswers⟩ := Bool.and_eq_true_iff.mp h
  obtain ⟨r, hanswer, hkinds⟩ := exists_of_answers hanswers
  cases hp : planned q with
  | error err =>
    rw [hp] at htypes
    cases htypes
  | ok p =>
    rw [hp] at htypes
    obtain ⟨c, hc, ht⟩ := List.map_eq_singleton_iff.mp (beq_iff_eq.mp htypes)
    obtain ⟨row, hr, hrow⟩ := List.map_eq_singleton_iff.mp (beq_iff_eq.mp hkinds)
    obtain ⟨v, rfl, hs⟩ := List.map_eq_singleton_iff.mp hrow
    refine ⟨p, r, rfl, hanswer, fun hall => ?_⟩
    have hplace := hall [v] (by rw [hr]; exact List.mem_cons_self)
    rw [hc] at hplace
    cases hplace with
    | cons hkind _ => exact hne (hkind t s ht hs)

/-- A document in a column of text, and a text in one of integers. -/
theorem guessed_types_fail :
    filled.Reachable ∧ filled.database.KeepsFunctions ∧
      (∃ p r, Plan.ofSelect filled.database.catalog [] guessing = .ok p ∧
        filled.answer 0 (.select guessing) = .ok (.selected r) ∧ ¬ r.OfTypes p.columns) ∧
      ∃ p r, Plan.ofSelect filled.database.catalog [] merging = .ok p ∧
        filled.answer 0 (.select merging) = .ok (.selected r) ∧ ¬ r.OfTypes p.columns := by
  refine ⟨filled_reachable, filled_keepsFunctions, ?_, ?_⟩
  · exact exists_of_mistyped (t := .text) (s := .jsonb) (by decide +kernel) (by decide)
  · exact exists_of_mistyped (t := .integer) (s := .text) (by decide +kernel) (by decide)

end Sample

end SqlStore
