import SqlStore.Proofs.Query.Agreement
import SqlStore.Proofs.Query.Grouping
import SqlStore.Proofs.Query.OuterScope

/-!
# Grouped queries over rows in another order

A filter keeps the same rows, whatever order they come in. Grouped by keys of discrete kinds, they make the
same groups in the same order, each with its rows in some order, and what a query gives of a group does not
depend on that order. So the results are equal, and not only as a collection.
-/

namespace SqlStore

variable {a b : Access (Except Error)} {outer : Scope} {columns : List ResultColumn}
variable {keys : List Expression} {known rows rows' : List Tuple} {e : Expression}

/-! ## Filters -/

/-- An expression that is evaluated row by row, with queries that come to the same at every row. -/
def Expr.RowByRow (a b : Access (Except Error)) (outer : Scope) (columns : List ResultColumn)
    (known : List Tuple) (e : Expression) : Prop :=
  ∀ q ∈ e.queries, ∀ row ∈ known,
    Alike Eq (a.query q (.ofRow columns row :: outer)) (b.query q (.ofRow columns row :: outer))

theorem Expr.RowByRow.alike_holds (h : e.RowByRow a b outer columns known) (hcall : a.call = b.call)
    {row : Tuple} (hrow : row ∈ known) (clause : String) :
    Alike Eq (e.holds a.toSurroundings (.ofRow columns row :: outer) clause)
      (e.holds b.toSurroundings (.ofRow columns row :: outer) clause) := by
  have hevaluable : Expr.Evaluable .alike a.toSurroundings b.toSurroundings fun scope e =>
      scope = .ofRow columns row :: outer ∧ e.RowByRow a b outer columns known :=
    { operations := operations_of_forall fun _ => trivial
      operand := fun hok _ hx => ⟨hok.1, fun q hq => hok.2 q (mem_queries_of_operand hx hq)⟩
      argument := by
        rintro scope f distinct e rows row' ⟨rfl, -⟩ hgroup -
        cases hgroup
      column := fun _ _ => trivial
      grouped := fun _ _ => trivial
      query := by
        rintro scope e q ⟨rfl, he⟩ hq
        exact he q (mem_queries_of_own hq) row hrow
      call := fun _ values => alike_of_eq (congrFun (congrFun hcall _) values) }
  exact Expr.parallel_holds hevaluable ⟨rfl, h⟩ clause

theorem alike_filterRows (he : e.RowByRow a b outer columns rows) (hcall : a.call = b.call)
    (hperm : rows.Perm rows') :
    Alike (fun kept kept' => kept.Perm kept' ∧ kept ⊆ rows) (filterRows a outer columns e rows)
      (filterRows b outer columns e rows') := by
  refine (alike_mapM_perm hperm fun row hrow => he.alike_holds hcall hrow "WHERE").bind ?_
  intro kept kept' hkept
  refine ⟨(hkept.filter _).map _, fun row hrow => ?_⟩
  obtain ⟨⟨_, passes⟩, hmem, rfl⟩ := List.mem_map.mp hrow
  exact (List.of_mem_zip (List.mem_filter.mp hmem).1).1

/-! ## Groups -/

/-- The kinds of the values under grouping keys. -/
theorem exists_kinds_of_keys (hg : Groupable columns keys known) :
    ∃ kinds : List (List DataType), (∀ ks ∈ kinds, ∃ k ∈ DataType.discrete, ks = [k]) ∧
      ∀ row ∈ known, AmongAll kinds (keyOf columns keys row) := by
  have hkeys := hg.keys
  have htyped := hg.typed
  clear hg
  induction keys with
  | nil => exact ⟨[], nofun, fun _ _ => .nil⟩
  | cons key keys ih =>
    obtain ⟨hkey, hkeys⟩ := List.forall_mem_cons.mp hkeys
    obtain ⟨t, hkind⟩ := Expr.exists_of_isDiscrete hkey
    obtain ⟨kinds, hkinds, hrows⟩ := ih hkeys
    refine ⟨[t.kind] :: kinds, List.forall_mem_cons.mpr ⟨⟨_, hkind.discrete, rfl⟩, hkinds⟩, ?_⟩
    exact fun row hrow => .cons (hkind.among (htyped row hrow)) (hrows row hrow)

theorem evaluate_keys (hg : Groupable columns keys known) {row : Tuple} (hrow : row ∈ known) :
    keys.mapM (fun key => key.evaluate a.toSurroundings (.ofRow columns row :: outer)) =
      .ok (keyOf columns keys row) := by
  refine Except.mapM_eq_ok_map fun key hkey => ?_
  obtain ⟨t, hkind⟩ := Expr.exists_of_isDiscrete (hg.keys key hkey)
  exact hkind.evaluate (f := .ofRow columns row) (hg.typed row hrow) _ _

/-- The groups of rows whose keys have values. -/
theorem groupRows_eq_ok (hg : Groupable columns keys known) (hsubset : rows ⊆ known)
    (hkeys : keys.isEmpty = false) :
    groupRows a outer columns keys rows =
      .ok (((rows.map fun row => (keyOf columns keys row, row)).foldl
        (fun groups (key, row) => addToGroup Value.compareTuples key row groups) []).map Prod.snd) := by
  have hkeyed : rows.mapM (fun row => do
      let key ← keys.mapM fun e : Expression =>
        e.evaluate a.toSurroundings (Frame.ofRow columns row :: outer)
      return (key, row)) = (.ok (rows.map fun row => (keyOf columns keys row, row)) : Except Error _) := by
    refine Except.mapM_eq_ok_map fun row hrow => ?_
    rw [evaluate_keys hg (hsubset hrow)]
    rfl
  unfold groupRows
  rw [hkeys, if_neg Bool.false_ne_true, hkeyed]
  rfl

/-- Rows in another order make the same groups. -/
theorem alike_groupRows (hg : Groupable columns keys known) (hsubset : rows ⊆ known)
    (hperm : rows.Perm rows') :
    Alike (List.Forall₂ (SameGroup columns keys known)) (groupRows a outer columns keys rows)
      (groupRows b outer columns keys rows') := by
  cases hkeys : keys.isEmpty with
  | true =>
    unfold groupRows
    rw [hkeys]
    cases List.isEmpty_iff.mp hkeys
    exact .cons ⟨hperm, hsubset, fun _ _ _ _ => rfl⟩ .nil
  | false =>
    have hsubset' : rows' ⊆ known := fun _ hrow => hsubset (hperm.mem_iff.mpr hrow)
    rw [groupRows_eq_ok hg hsubset hkeys, groupRows_eq_ok hg hsubset' hkeys]
    obtain ⟨kinds, hkinds, hamong⟩ := exists_kinds_of_keys hg
    have ho := Value.ordersOn_tuples hkinds
    have hkeyed : ∀ x ∈ rows.map fun row => (keyOf columns keys row, row),
        AmongAll kinds x.1 ∧ x.2 ∈ rows ∧ keyOf columns keys x.2 = x.1 :=
      List.forall_mem_map.mpr fun row hrow => ⟨hamong row (hsubset hrow), hrow, rfl⟩
    have hsame := sameGroups_of_perm ho (hperm.map fun row => (keyOf columns keys row, row))
      fun x hx => (hkeyed x hx).1
    have hgroups := forall_groups ho (P := fun key row => row ∈ rows ∧ keyOf columns keys row = key)
      hkeyed
    refine List.forall₂_map_left_iff.mpr (List.forall₂_map_right_iff.mpr ?_)
    refine ((List.forall₂_and_left _ _).mpr ⟨hgroups, hsame⟩).imp ?_
    rintro g g' ⟨⟨-, hmembers⟩, -, hrows⟩
    exact
      { perm := hrows
        subset := fun row hrow => hsubset (hmembers row hrow).1
        keyed := fun row hrow row' hrow' => (hmembers row hrow).2.trans (hmembers row' hrow').2.symm }

/-- The results of a group do not depend on the order of its rows. -/
theorem alike_groupOutput (h : SameGroup columns keys known rows rows') (hg : Groupable columns keys known)
    (hcall : a.call = b.call) {having : Option Expression} {outputs : List Output}
    (hhaving : ∀ e ∈ having, e.Grouped a b outer columns keys known)
    (houtputs : ∀ o ∈ outputs, o.expr.Grouped a b outer columns keys known) :
    Alike Eq (groupOutput a outer columns having outputs rows)
      (groupOutput b outer columns having outputs rows') := by
  have hrow : Alike Eq (outputRow a (.ofGroup columns rows :: outer) outputs)
      (outputRow b (.ofGroup columns rows' :: outer) outputs) :=
    alike_mapM_self fun o ho => h.alike_evaluate hg hcall (houtputs o ho)
  have hpassing : ∀ passes : Bool,
      Alike Eq
        (if passes then (return some (← outputRow a (.ofGroup columns rows :: outer) outputs))
          else return none)
        (if passes then (return some (← outputRow b (.ofGroup columns rows' :: outer) outputs))
          else return none) := by
    intro passes
    exact Parallel.alike.ite (Parallel.alike.bind hrow fun _ => Parallel.alike.pure _)
      (Parallel.alike.pure _)
  unfold groupOutput
  cases having with
  | none => exact Parallel.alike.bind (Parallel.alike.pure true) hpassing
  | some e =>
    refine Parallel.alike.bind ?_ hpassing
    refine Parallel.alike.bind (h.alike_evaluate hg hcall (hhaving e rfl)) fun v => ?_
    exact Parallel.alike.bind (alike_self _) fun _ => Parallel.alike.pure _

/-! ## Plans -/

/-- Relations with the same columns and the same rows in some order. -/
structure Relation.SameRows (r r' : Relation) : Prop where
  columns : r.columns = r'.columns
  rows : r.rows.Perm r'.rows

/-- What a plan groups, by which keys, and what it gives of the groups. -/
structure Grouping where
  source : Plan
  keys : List Expression
  having : Option Expression
  outputs : List Output

namespace Grouping

/-- The grouping as a plan. -/
def plan (g : Grouping) : Plan := .group g.source g.keys g.having g.outputs

/-- What is evaluated of each group. -/
def expressions (g : Grouping) : List Expression := g.having.toList ++ g.outputs.map Output.expr

/-- A grouping whose source gives the same rows in another order. -/
theorem alike_run {g : Grouping} (hcall : a.call = b.call)
    (hsource : Alike (fun r r' : Relation => r.SameRows r' ∧ Groupable r.columns g.keys r.rows ∧
      ∀ e ∈ g.expressions, e.Grouped a b outer r.columns g.keys r.rows)
        (g.source.run a outer) (g.source.run b outer)) :
    Alike Eq (g.plan.run a outer) (g.plan.run b outer) := by
  unfold plan Plan.run
  refine hsource.bind ?_
  rintro ⟨columns, rows⟩ ⟨_, rows'⟩ ⟨⟨rfl, hperm⟩, hgroupable, hgrouped⟩
  obtain ⟨hhaving, houtputs⟩ := List.forall_mem_append.mp hgrouped
  refine (alike_groupRows hgroupable (List.Subset.refl rows) hperm).bind fun hgroups => ?_
  refine Alike.bind (R := Eq) ?_ ?_
  · refine (alike_mapM (hgroups.imp fun _ _ hsame => ?_)).mono fun hrows => List.forall₂_eq_eq_eq ▸ hrows
    refine alike_groupOutput hsame hgroupable hcall (fun e he => hhaving e (Option.mem_toList.mpr he)) ?_
    exact fun o ho => houtputs o.expr (List.mem_map_of_mem ho)
  · rintro results _ rfl
    exact alike_self _

end Grouping

namespace Plan

variable {p : Plan} {g : Grouping}

/-- The grouping of a plan, whose results may be made distinct. -/
def grouping? : Plan → Option Grouping
  | group source keys having outputs => some ⟨source, keys, having, outputs⟩
  | distinct source => source.grouping?
  | _ => none

theorem alike_run_grouping (h : p.grouping? = some g)
    (hg : Alike Eq (g.plan.run a outer) (g.plan.run b outer)) :
    Alike Eq (p.run a outer) (p.run b outer) := by
  induction p with
  | group source keys having outputs =>
    cases h
    exact hg
  | distinct source ih => exact Parallel.alike.bind (ih h) fun r => Parallel.alike.pure _
  | _ => cases h

end Plan

/-! ## Queries over one table -/

/-- A query over one table, without ORDER BY, OFFSET and LIMIT. -/
structure SelectBody.OverTable (body : SelectBody Select) (name : ObjectName) (label : Option String) :
    Prop where
  sources : body.sources = [.table name label]
  orderBy : body.orderBy = []
  offset : body.offset = none
  limit : body.limit = none

namespace Plan

variable {catalog : Catalog} {body : SelectBody Select} {name : ObjectName} {label : Option String}
variable {p : Plan} {g : Grouping}

theorem exists_of_ofSelect (hbody : body.OverTable name label)
    (hp : ofSelect catalog outer (.mk body) = .ok p) :
    ∃ d, catalog name = .ok d ∧ ofClauses body (scan d label) outer = .ok p := by
  rcases body with ⟨_, _, sources, _, _, _, _, _, _⟩
  cases hbody.sources
  obtain ⟨plans, hplans, hp⟩ := Except.exists_of_bind_eq_ok hp
  obtain ⟨source, hsource, hplans⟩ := Except.exists_of_bind_eq_ok hplans
  obtain ⟨d, hd, hsource⟩ := Except.exists_of_bind_eq_ok hsource
  cases hsource
  cases hplans
  exact ⟨d, hd, hp⟩

/-- The grouping of a plan that is made of clauses. -/
theorem of_grouping?_plan {c : Clauses} {sources : Plan} (hbody : body.OverTable name label)
    (hsorting : c.sorting = []) (houtputs : c.outputs = c.visible)
    (hg : (c.plan body sources).grouping? = some g) :
    c.grouped body = true ∧ g = ⟨Clauses.source body sources, c.keys, body.having, c.visible⟩ := by
  have hresults : (c.results body sources).grouping? = some g := by
    unfold Clauses.plan Clauses.finish at hg
    rw [hsorting, houtputs, hbody.offset, hbody.limit] at hg
    simp only [List.isEmpty_nil, if_true, Clauses.bounding, gt_iff_lt, Nat.lt_irrefl, if_false] at hg
    split at hg <;> exact hg
  unfold Clauses.results at hresults
  split at hresults
  · next hgrouped =>
    cases hresults
    exact ⟨hgrouped, houtputs ▸ rfl⟩
  · cases hresults

/-- What such a query groups are the rows of the table that pass WHERE, and what it gives of a group passed
the check. -/
theorem exists_of_grouping? (hbody : body.OverTable name label)
    (hp : ofSelect catalog outer (.mk body) = .ok p) (hg : p.grouping? = some g) :
    ∃ d, catalog name = .ok d ∧ g.source = Clauses.source body (scan d label) ∧
      ∀ e ∈ g.expressions, e.checkGrouped sameExpression g.keys (d.resultColumns label) = .ok ⟨⟩ := by
  obtain ⟨d, hd, hclauses⟩ := exists_of_ofSelect hbody hp
  obtain ⟨c, hc, rfl⟩ := exists_of_ofClauses hclauses
  have hsorting := hc.sorting
  rw [hbody.orderBy] at hsorting
  obtain ⟨houtputs, hnone⟩ := Prod.ext_iff.mp (Except.ok.inj hsorting)
  obtain ⟨hgrouped, rfl⟩ := of_grouping?_plan hbody hnone.symm houtputs.symm hg
  have hchecked : ∀ e ∈ body.having.toList ++ c.visible.map Output.expr,
      (c.shape body (scan d label) outer).checkGrouping e = .ok ⟨⟩ := by
    refine List.forall_mem_append.mpr ⟨fun e he => ?_, List.forall_mem_map.mpr hc.visibleGrouped⟩
    exact hc.havingGrouped e (Option.mem_toList.mp he)
  refine ⟨d, hd, rfl, fun e he => ?_⟩
  have hcheck := hchecked e he
  rwa [Shape.checkGrouping, Clauses.shape, hgrouped, if_pos rfl] at hcheck

end Plan

/-! ## Two databases -/

/-- The rows of a table, as far as there is the table. -/
def Database.rowsOf (db : Database) (name : ObjectName) : Except Error (List Tuple) :=
  (db.store.table (name.inSchema db.config.defaultSchema)).map fun t => t.rows.map Row.values

/-- Two databases with the same definitions and functions hold the same rows of a table, in some order. -/
structure Database.Reordered (db db' : Database) (name : ObjectName) : Prop where
  schema : db.config.defaultSchema = db'.config.defaultSchema
  definitions : db.store.tables.map Table.definition = db'.store.tables.map Table.definition
  functions : db.functions = db'.functions
  clock : db.clock = db'.clock
  rows : Alike List.Perm (db.rowsOf name) (db'.rowsOf name)

namespace Database.Reordered

variable {db db' : Database} {name : ObjectName}

theorem catalog_eq (h : db.Reordered db' name) : db.catalog = db'.catalog := by
  have hfound : ∀ (s : Store) (n : TableName), (s.table n).map Table.definition =
      match (s.tables.map Table.definition).find? (·.fullName == n) with
      | some d => .ok d
      | none => .error n.missing := by
    intro s n
    rw [List.find?_map]
    unfold Store.table Store.table?
    show _ = (match Option.map _ (s.tables.find? fun t => t.definition.fullName == n) with
      | some d => (Except.ok d : Except Error TableDefinition)
      | none => .error n.missing)
    cases s.tables.find? fun t => t.definition.fullName == n <;> rfl
  funext n
  unfold catalog
  rw [hfound, hfound, h.definitions, h.schema]

theorem call_eq (h : db.Reordered db' name) : db.fixed.call = db'.fixed.call := by
  show Database.callFunction _ = Database.callFunction _
  unfold callFunction
  dsimp only
  rw [h.functions, h.clock]

/-- A function that draws nothing in one of them draws nothing in the other. -/
theorem deterministic (h : db.Reordered db' name) {function : String}
    (hdraws : db.Deterministic function) : db'.Deterministic function := by
  have hsame : ∀ drawn args, { db' with drawn }.callFunction function args =
      { db with drawn }.callFunction function args := by
    intro drawn args
    unfold callFunction
    dsimp only
    rw [h.functions, h.clock]
  intro drawn drawn' args
  rw [hsame, hsame]
  exact hdraws drawn drawn' args

end Database.Reordered

namespace Database

variable {db db' : Database} {name : ObjectName} {d : TableDefinition} {depth : Nat}

/-- The scan of a table that a name stands for. -/
theorem run_scan_fixed (hd : db.catalog name = .ok d) (label : Option String) (depth : Nat)
    (outer : Scope) :
    (Plan.scan d label).run (db.fixed.access depth) outer =
      (db.rowsOf name).map fun rows => ⟨d.resultColumns label, rows⟩ := by
  obtain ⟨t, ht, rfl⟩ := Except.exists_of_map_eq_ok hd
  have hname : t.definition.fullName = name.inSchema db.config.defaultSchema :=
    (Store.mem_of_table? (Store.table_eq_ok.mp ht)).2
  unfold Plan.run rowsOf
  rw [Services.scan_access]
  show (do
    let rows ← (do return (← db.store.table t.definition.fullName).rows : Except Error (List Row))
    return ⟨t.definition.resultColumns label, rows.map Row.values⟩ : Except Error Relation) = _
  rw [hname, ht]
  rfl

/-- A query over one table that groups by columns of discrete kinds, and that aggregates by counting and
by extremes of such columns. -/
structure Groups (db : Database) (body : SelectBody Select) (name : ObjectName) (label : Option String)
    (d : TableDefinition) (g : Grouping) : Prop where
  overTable : body.OverTable name label
  table : db.catalog name = .ok d
  planned : ∃ p, Plan.ofSelect db.catalog [] (.mk body) = .ok p ∧ p.grouping? = some g
  keys : ∀ key ∈ g.keys, key.isDiscrete (d.resultColumns label) = true
  comparing : ∀ e ∈ g.expressions, e.comparesDiscrete (d.resultColumns label) = true

/-- The queries inside such a query come to the same in two databases: those of WHERE at every row of the
table, and those that are asked of a group whichever of its rows comes first. -/
structure Determined (db db' : Database) (body : SelectBody Select) (label : Option String)
    (d : TableDefinition) (g : Grouping) (rows : List Tuple) : Prop where
  filter : ∀ e ∈ body.filter, e.RowByRow (db.fixed.access (Select.mk body).depth)
    (db'.fixed.access (Select.mk body).depth) [] (d.resultColumns label) rows
  grouped : ∀ e ∈ g.expressions, ∀ q ∈ e.queries, ∀ group group',
    SameGroup (d.resultColumns label) g.keys rows group group' →
      Alike Eq ((db.fixed.access (Select.mk body).depth).query q [.ofGroup (d.resultColumns label) group])
        ((db'.fixed.access (Select.mk body).depth).query q [.ofGroup (d.resultColumns label) group'])

variable {body : SelectBody Select} {label : Option String} {g : Grouping} {rows : List Tuple}

/-- Two databases, for queries that name only tables with the same rows under the same keys in both. -/
theorem Reordered.agree (h : db.Reordered db' name) :
    Services.Agree .alike db.fixed db'.fixed (fun n => ∀ d, db.catalog n = .ok d →
      db.fixed.scan d.schema d.name = db'.fixed.scan d.schema d.name) fun _ => True where
  total _ := trivial
  catalog := ⟨db.catalog, rfl, h.catalog_eq ▸ rfl, fun _ d hsame hd => alike_of_eq (hsame d hd)⟩
  call name _ args := alike_of_eq (congrFun (congrFun h.call_eq name) args)

/-- Queries that see only the grouping keys of the query around them, and that name no table whose rows
differ, are determined by the groups. -/
theorem determined_of_refersTo (h : db.Reordered db' name)
    (hg : Groupable (d.resultColumns label) g.keys rows)
    (hrefers : ∀ e ∈ g.expressions, ∀ q ∈ e.queries,
      q.refersTo (Expr.namesGroup (d.resultColumns label) g.keys) (Select.mk body).depth = true)
    (htables : ∀ e ∈ body.filter.toList ++ g.expressions, ∀ q ∈ e.queries,
      ∀ n ∈ q.tablesUpTo (Select.mk body).depth, ∀ d, db.catalog n = .ok d →
        db.fixed.scan d.schema d.name = db'.fixed.scan d.schema d.name) :
    db.Determined db' body label d g rows where
  filter e he q hq row _ := by
    refine h.agree.query _ q _ (htables e ?_ q hq) fun _ _ => trivial
    exact List.mem_append_left _ (Option.mem_toList.mpr he)
  grouped e he q hq group group' hgroup := by
    refine h.agree.query_inside _ q rfl (fun table name hnamed => alike_of_eq ?_) (hrefers e he q hq)
      (htables e (List.mem_append_right _ he) q hq) fun _ _ => trivial
    exact congrArg ofExcept (hgroup.value_of_namesGroup hg hnamed)

/-- The rows that are grouped, in two databases. -/
theorem alike_run_source (h : db.Reordered db' name) (hd : db.catalog name = .ok d)
    (hrows : db.rowsOf name = .ok rows)
    (hfilter : ∀ e ∈ body.filter,
      e.RowByRow (db.fixed.access depth) (db'.fixed.access depth) [] (d.resultColumns label) rows) :
    Alike (fun r r' : Relation => r.SameRows r' ∧ r.columns = d.resultColumns label ∧ r.rows ⊆ rows)
      ((Plan.Clauses.source body (.scan d label)).run (db.fixed.access depth) [])
      ((Plan.Clauses.source body (.scan d label)).run (db'.fixed.access depth) []) := by
  obtain ⟨rows', hrows', hperm⟩ := h.rows.exists_of_ok hrows
  have hcall : (db.fixed.access depth).call = (db'.fixed.access depth).call := by
    rw [Services.call_access, Services.call_access, h.call_eq]
  have hscan := run_scan_fixed hd label depth []
  have hscan' := run_scan_fixed (h.catalog_eq ▸ hd) label depth []
  rw [hrows] at hscan
  rw [hrows'] at hscan'
  unfold Plan.Clauses.source
  cases hbody : body.filter with
  | none =>
    dsimp only
    rw [hscan, hscan']
    exact ⟨⟨rfl, hperm⟩, rfl, List.Subset.refl rows⟩
  | some e =>
    have hkept := alike_filterRows (hfilter e hbody) hcall hperm
    dsimp only
    unfold Plan.run
    rw [hscan, hscan']
    exact hkept.bind fun hrows => ⟨⟨rfl, hrows.1⟩, rfl, hrows.2⟩

/-- The answer to a grouped query, in two databases with the rows of its table in different order. -/
theorem alike_select (h : db.Reordered db' name) (hq : db.Groups body name label d g)
    (hrows : db.rowsOf name = .ok rows) (htyped : ∀ row ∈ rows, TypedRow (d.resultColumns label) row)
    (hqueries : db.Determined db' body label d g rows) :
    Alike Eq (db.fixed.select (.mk body)) (db'.fixed.select (.mk body)) := by
  obtain ⟨p, hp, hg⟩ := hq.planned
  obtain ⟨d', hd', hsource, hchecked⟩ := Plan.exists_of_grouping? hq.overTable hp hg
  cases hd'.symm.trans hq.table
  have hcall : (db.fixed.access (Select.mk body).depth).call =
      (db'.fixed.access (Select.mk body).depth).call := by
    rw [Services.call_access, Services.call_access, h.call_eq]
  have hrun : Alike Eq (p.run (db.fixed.access (Select.mk body).depth) [])
      (p.run (db'.fixed.access (Select.mk body).depth) []) := by
    refine Plan.alike_run_grouping hg (Grouping.alike_run hcall ?_)
    rw [hsource]
    refine (alike_run_source h hq.table hrows hqueries.filter).mono ?_
    rintro ⟨_, kept⟩ r' ⟨hsame, rfl, hkept⟩
    refine ⟨hsame, ⟨fun row hrow => htyped row (hkept hrow), hq.keys⟩, fun e he => ?_⟩
    exact
      { checked := hchecked e he
        comparing := hq.comparing e he
        query := fun q hmem group group' hgroup =>
          hqueries.grouped e he q hmem group group'
            ⟨hgroup.perm, List.Subset.trans hgroup.subset hkept, hgroup.keyed⟩ }
  show Alike Eq (ofExcept (Plan.ofSelect db.catalog [] (.mk body)) >>= fun plan => _)
    (ofExcept (Plan.ofSelect db'.catalog [] (.mk body)) >>= fun plan => _)
  rw [← h.catalog_eq, hp]
  exact hrun

end Database

end SqlStore
