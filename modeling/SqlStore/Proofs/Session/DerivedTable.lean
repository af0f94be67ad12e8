import SqlStore.Proofs.Query.Everything
import SqlStore.Proofs.Session.Layout

/-!
# Queries as tables

A query that was answered can stand in the place of a table. Selecting everything from it gives the rows
of the query in their order, under the same names, as long as the names of its columns differ; where two
of them are equal it fails with the first row, and only an empty result comes through.
-/

namespace SqlStore

open Run

namespace Connection

variable {hook : Hook} {s : Statement} {o : Outcome}

theorem exec_insideTransaction_ok_iff {w : Work} (hactive : w.transaction.state = .active) :
    (exec (insideTransaction hook s) w).1 = .ok o ↔ (exec (Action.perform hook s)
      { w with transaction := { w.transaction with undo := [] } }).1 = .ok o := by
  constructor
  · intro h
    exact congrArg Prod.fst (exec_insideTransaction_eq_ok hactive (Prod.ext h rfl))
  · intro h
    exact congrArg Prod.fst (exec_insideTransaction_ok hactive (Prod.ext h rfl))

/-- A statement succeeds if its transaction performs it. -/
theorem executeStatement_ok_iff (hs : ¬ s.IsControl) {c : Connection} (hq : c.database.Quiet)
    (hactive : ∀ t ∈ c.transaction, t.state = .active) :
    (exec (executeStatement hook s) c).1 = .ok o ↔
      (exec (Action.perform hook s) c.starting).1 = .ok o := by
  obtain ⟨w, hw, hstart, hresult, -⟩ := exists_inside hook hs hq hactive
  rw [hresult, ← hstart]
  exact exec_insideTransaction_ok_iff hw

end Connection

namespace Action

variable {hook : Hook} {q : Select} {r : Relation} {w w' : Work}

theorem perform_select_ok_iff {o : Outcome} :
    (exec (perform hook (.select q)) w).1 = .ok o ↔
      ∃ r, (exec ((services hook).select q) w).1 = .ok r ∧ o = .selected r := by
  show (exec ((services hook).select q >>= fun r => pure (Outcome.selected r)) w).1 = _ ↔ _
  rw [exec_bind]
  rcases exec ((services hook).select q) w with ⟨err | r, w'⟩
  · exact ⟨nofun, nofun⟩
  · constructor
    · rintro ⟨⟩
      exact ⟨r, rfl, rfl⟩
    · rintro ⟨_, ⟨⟩, rfl⟩
      rfl

/-- A query is planned and its plan is run. -/
theorem exec_select {p : Plan} (hp : Plan.ofSelect w.database.catalog [] q = .ok p) :
    exec ((services hook).select q) w = exec (p.run ((services hook).access q.depth) []) w := by
  show exec (catalog >>= fun c => ofExcept (Plan.ofSelect c [] q) >>= fun plan =>
    plan.run ((services hook).access q.depth) []) w = _
  rw [exec_bind_ok (exec_catalog w), hp]
  rfl

theorem exists_of_select_ok (h : exec ((services hook).select q) w = (.ok r, w')) :
    ∃ p, Plan.ofSelect w.database.catalog [] q = .ok p ∧
      exec (p.run ((services hook).access q.depth) []) w = (.ok r, w') := by
  have hrun : exec (catalog >>= fun c => ofExcept (Plan.ofSelect c [] q) >>= fun plan =>
    plan.run ((services hook).access q.depth) []) w = (.ok r, w') := h
  rw [exec_bind_ok (exec_catalog w)] at hrun
  exact exec_ofExcept_bind_eq_ok hrun

end Action

namespace Engine

variable {e : Engine}

theorem select_ok_iff (he : e.Reachable) (i : Nat) {q : Select} {o : Outcome} :
    e.answer i (.select q) = .ok o ↔ ∃ r,
      (exec ((Action.services (e.connection i).database.hook).select q)
        (e.connection i).starting).1 = .ok r ∧ o = .selected r := by
  have hc := he.inv i
  unfold answer
  rw [exec_executeStatement, Connection.executeStatement_ok_iff id hc.quiet
    (fun t ht => (hc.active t ht).1), Action.perform_select_ok_iff]

theorem reads_starting (he : e.Reachable) (i : Nat) :
    (e.connection i).starting.Reads e.database e.database.drawn := by
  have hc := he.inv i
  unfold Connection.starting
  cases ht : (e.connection i).transaction with
  | none => exact ⟨rfl, hc.quiet, rfl⟩
  | some t => exact ⟨rfl, hc.quiet, (hc.active t ht).1⟩

theorem Reachable.fits (he : e.Reachable) {hook : Hook} {depth : Nat} {outer : Scope} {q : Select}
    {p : Plan} (hp : Plan.ofSelect e.database.catalog outer q = .ok p) {w w' : Work} {drawn : Nat}
    (hw : w.Reads e.database drawn) {r : Relation}
    (hrun : exec (p.run ((Action.services hook).access depth) outer) w = (.ok r, w')) :
    r.Fits p.columns := by
  have hends := Plan.ends_run (operations_of_forall fun _ => trivial) ⟨trivial, fun _ => trivial⟩
    (he.supported hook depth hp) w ⟨drawn, hw⟩
  rw [hrun] at hends
  exact hends.2

/-- Let a session of an engine that a new one comes to answer a query. If the names of the columns of the
answer differ or it has no rows, then everything selected from the query as a table is the same rows in
the same order under the same names; otherwise that fails. -/
theorem select_everything (he : e.Reachable) (i : Nat) {q : Select} {r : Relation}
    (h : e.answer i (.select q) = .ok (.selected r)) (label : Option String) :
    (r.rows = [] ∨ (r.columns.map ResultColumn.name).Nodup →
        ∃ r', e.answer i (.select (q.everything label)) = .ok (.selected r') ∧ r'.rows = r.rows ∧
          r'.columns.map ResultColumn.name = r.columns.map ResultColumn.name) ∧
      (¬ (r.rows = [] ∨ (r.columns.map ResultColumn.name).Nodup) →
        ∃ err, e.answer i (.select (q.everything label)) = .error err) := by
  let s := Action.services (e.connection i).database.hook
  let w := (e.connection i).starting
  have hw : w.Reads e.database e.database.drawn := reads_starting he i
  obtain ⟨_, hr, ⟨⟩⟩ := (select_ok_iff he i).mp h
  obtain ⟨p, hp, hrun⟩ := Action.exists_of_select_ok (Prod.ext hr rfl)
  have hcatalog : w.database.catalog = e.database.catalog := by
    rw [hw.database]
    rfl
  have hfits : r.Fits p.columns := he.fits (hcatalog ▸ hp) hw hrun
  -- the query as a table is planned alike, and run with more depth than it needs
  have hplan : Plan.ofSelect w.database.catalog [] (q.everything label) = .ok
      ((Plan.derived p label).project ((relabel label p.columns).map Output.ofColumn)) := by
    rw [Plan.ofSelect_everything, hp]
    rfl
  rw [s.run_access_succ hp, ← depth_everything q label] at hrun
  have heverything : exec (s.select (q.everything label)) w = _ :=
    (Action.exec_select hplan).trans (exec_run_everything label hrun)
  have hrelabelled : Relation.Fits ⟨relabel label r.columns, r.rows⟩ (relabel label p.columns) :=
    hfits.relabel label
  have hnames : (relabel label p.columns).map ResultColumn.name = r.columns.map ResultColumn.name := by
    rw [map_name_relabel, map_name_of_keys hfits.keys]
  constructor
  · intro hdiffer
    rw [hrelabelled.readBy_eq_ok (hnames ▸ hdiffer)] at heverything
    refine ⟨_, (select_ok_iff he i).mpr ⟨_, congrArg Prod.fst heverything, rfl⟩, rfl, ?_⟩
    rw [← hnames]
    refine (map_name_of_keys (keys_fillTypes _ _)).trans ?_
    rw [List.map_map, List.map_map]
    rfl
  · intro hsame
    cases hanswer : e.answer i (.select (q.everything label)) with
    | error err => exact ⟨err, rfl⟩
    | ok o =>
      obtain ⟨r', hr', -⟩ := (select_ok_iff he i).mp hanswer
      obtain ⟨rows, hrows, -⟩ :=
        Except.exists_of_map_eq_ok ((congrArg Prod.fst heverything).symm.trans hr')
      have htable : ∀ c ∈ relabel label p.columns, c.table = label := by
        intro c hc
        obtain ⟨d, -, rfl⟩ := List.mem_map.mp hc
        rfl
      exact absurd (hnames ▸ hrelabelled.of_readBy htable hrows) hsame

end Engine

namespace Sample

/-- `SELECT code, id FROM items ORDER BY id DESC` -/
def backwards : Select :=
  .mk
    { distinct := false
      items := [.expr (.column none "code") none, .expr (.column none "id") none]
      sources := [.table ⟨none, "items"⟩ none]
      filter := none
      groupBy := []
      having := none
      orderBy := [⟨.column none "id", true, none⟩]
      limit := none
      offset := none }

/-- `SELECT 1 AS a, 2 AS a` -/
def twins : Select :=
  .mk
    { distinct := false
      items := [.expr (.literal (.integer 1)) (some "a"), .expr (.literal (.integer 2)) (some "a")]
      sources := []
      filter := none
      groupBy := []
      having := none
      orderBy := []
      limit := none
      offset := none }

/-- Whether a query is answered with a relation of a kind can be computed. -/
def answers (e : Engine) (q : Select) (kind : Relation → Bool) : Bool :=
  match e.answer 0 (.select q) with
  | .ok (.selected r) => kind r
  | _ => false

theorem exists_of_answers {e : Engine} {q : Select} {k : Relation → Bool}
    (h : answers e q k = true) : ∃ r, e.answer 0 (.select q) = .ok (.selected r) ∧ k r = true := by
  unfold answers at h
  split at h
  · next r hanswer => exact ⟨r, hanswer, h⟩
  · cases h

theorem everything_backwards :
    ∃ r r', filled.answer 0 (.select backwards) = .ok (.selected r) ∧ r.rows.length = 2 ∧
      filled.answer 0 (.select (backwards.everything (some "s"))) = .ok (.selected r') ∧
      r'.rows = r.rows ∧
      r'.columns.map ResultColumn.name = r.columns.map ResultColumn.name := by
  obtain ⟨r, hanswer, hkind⟩ := exists_of_answers (e := filled) (q := backwards)
    (k := fun r => r.columns.map ResultColumn.name == ["code", "id"] && r.rows.length == 2)
    (by decide +kernel)
  simp only [Bool.and_eq_true, beq_iff_eq] at hkind
  have hdiffer : r.rows = [] ∨ (r.columns.map ResultColumn.name).Nodup := by
    right
    rw [hkind.1]
    decide
  obtain ⟨r', hr'⟩ :=
    (Engine.select_everything filled_reachable 0 hanswer (some "s")).1 hdiffer
  exact ⟨r, r', hanswer, hkind.2, hr'⟩

/-- Two columns of one name: as a table the query cannot be read. -/
theorem everything_of_twins_fails :
    ¬ ∀ (e : Engine) (i : Nat) (q : Select) (r : Relation), e.Reachable →
      e.answer i (.select q) = .ok (.selected r) →
      ∃ r', e.answer i (.select (q.everything (some "s"))) = .ok (.selected r') ∧ r'.rows = r.rows ∧
        r'.columns.map ResultColumn.name = r.columns.map ResultColumn.name := by
  intro h
  obtain ⟨r, hanswer, -⟩ := exists_of_answers (e := filled) (q := twins) (k := fun _ => true)
    (by decide +kernel)
  obtain ⟨r', hr', -⟩ := h filled 0 twins r filled_reachable hanswer
  have hfails : (filled.answer 0 (.select (twins.everything (some "s")))).isOk = false := by
    decide +kernel
  rw [hr'] at hfails
  cases hfails

end Sample

end SqlStore
