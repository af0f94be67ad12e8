import SqlStore.Proofs.Query.Depth
import SqlStore.Proofs.Query.Layout

/-!
# Everything from a query

`SELECT * FROM (q)` writes the columns of `q` out as references by name and reads each row through them.
Where the names differ, a row comes back as it is; where two of them are equal, one reference fits two
columns and no row can be read.
-/

namespace SqlStore

open Run

/-- The clauses of `SELECT * FROM (q) AS label`. -/
def SelectBody.everything (q : Select) (label : Option String) : SelectBody Select where
  distinct := false
  items := [.all]
  sources := [.derived q label]
  filter := none
  groupBy := []
  having := none
  orderBy := []
  limit := none
  offset := none

/-- `SELECT * FROM (q) AS label` -/
def Select.everything (q : Select) (label : Option String) : Select := .mk (.everything q label)

theorem depth_everything (q : Select) (label : Option String) :
    (q.everything label).depth = q.depth + 1 := by
  simp [Select.everything, SelectBody.everything, Select.depth, bodyDepth, itemsDepth, itemDepth, sourcesDepth, sourceDepth,
    optionDepth, listDepth, orderDepth]

theorem hasAggregate_ofColumn (c : ResultColumn) : (Output.ofColumn c).expr.hasAggregate = false :=
  rfl

namespace Plan

/-- Without grouping every expression of a result will do. -/
theorem forM_checkGrouping {shape : Shape} (h : shape.grouped = false) (outputs : List Output) :
    (outputs.forM fun o => shape.checkGrouping o.expr) = .ok ⟨⟩ := by
  unfold Shape.checkGrouping
  rw [h]
  induction outputs with
  | nil => rfl
  | cons o outputs ih => exact ih

theorem ofClauses_everything (q : Select) (label : Option String) (sources : Plan) (outer : Scope) :
    ofClauses (.everything q label) sources outer =
      .ok (sources.project (sources.columns.map Output.ofColumn)) := by
  have hplain : (sources.columns.map Output.ofColumn).any (·.expr.hasAggregate) = false := by
    rw [List.any_map]
    exact List.any_eq_false.mpr fun c _ => by simp [hasAggregate_ofColumn]
  have hitems : [SelectItem.all].mapM (Output.ofItem false sources.columns
      (Frame.ofColumns sources.columns :: outer)) =
        .ok [sources.columns.map Output.ofColumn] := rfl
  unfold ofClauses SelectBody.everything
  simp only [List.isEmpty_cons, hitems]
  simp only [List.mapM_nil, bind, Except.bind, pure, Except.pure, List.flatten_singleton, hplain]
  rw [forM_checkGrouping rfl]
  -- nothing is sorted, bounded or hidden
  simp [Option.forM, sortKeys, bounded, pure, Except.pure]

/-- The plan reads every column of the derived table by its name. -/
theorem ofSelect_everything (catalog : Catalog) (outer : Scope) (q : Select)
    (label : Option String) :
    ofSelect catalog outer (q.everything label) = (ofSelect catalog outer q).map fun p =>
      project (derived p label) ((relabel label p.columns).map Output.ofColumn) := by
  rw [Select.everything, ofSelect, SelectBody.everything, ofBody, ofSources, ofSource, ofSources]
  cases ofSelect catalog outer q with
  | error err => rfl
  | ok p => exact ofClauses_everything q label (derived p label) outer

end Plan

/-! ## Reading columns by name -/

namespace ResultColumn

variable {cs : List ResultColumn} {table : Option String}

/-- A reference that fits two columns is ambiguous. -/
theorem resolve_of_fits {i j : Nat} {name : String} (hij : i < j) (hj : j < cs.length)
    (hi : fits table name cs[i] = true) (hfits : fits table name cs[j] = true) :
    resolve cs table name =
      .error (.execution ("column reference " ++ quoteName name ++ " is ambiguous")) := by
  unfold resolve
  cases hfind : cs.findIdx? (fits table name) with
  | none =>
    have hnone := List.findIdx?_eq_none_iff.mp hfind cs[i] (List.getElem_mem _)
    rw [hi] at hnone
    cases hnone
  | some k =>
    obtain ⟨hk, -, hfirst⟩ := List.findIdx?_eq_some_iff_getElem.mp hfind
    -- the first fit does not come behind the one at `i`, so the one at `j` comes behind it
    have hki : k ≤ i := Nat.le_of_not_lt fun hik => hfirst i hik hi
    have hmem : cs[j] ∈ cs.drop (k + 1) :=
      List.mem_drop_iff_getElem.mpr ⟨j - (k + 1), by omega, by congr 1; omega⟩
    dsimp only
    rw [if_pos (List.any_eq_true.mpr ⟨cs[j], hmem, hfits⟩)]

/-- Columns of one table can each be read by name only if their names differ. -/
theorem nodup_of_resolve (htable : ∀ c ∈ cs, c.table = table)
    (h : ∀ c ∈ cs, ∃ o, resolve cs c.table c.name = .ok o) : (cs.map name).Nodup := by
  refine List.pairwise_map.mpr (List.pairwise_iff_getElem.mpr fun i j hi hj hij hname => ?_)
  obtain ⟨o, ho⟩ := h cs[i] (List.getElem_mem hi)
  have hself : fits cs[i].table cs[i].name cs[i] = true := by simp [fits]
  have hother : fits cs[i].table cs[i].name cs[j] = true := by
    have ht : cs[j].table = cs[i].table :=
      (htable _ (List.getElem_mem hj)).trans (htable _ (List.getElem_mem hi)).symm
    simp [fits, hname, ht]
  rw [resolve_of_fits hij hj hself hother] at ho
  cases ho

/-- Where names differ, a column is found at its place, whether the reference names its table or not. -/
theorem resolve_of_fits_self (h : (cs.map name).Nodup) {i : Nat} (hi : i < cs.length)
    (hself : fits table cs[i].name cs[i] = true) : resolve cs table cs[i].name = .ok (some i) := by
  have hfits : ∀ j (hj : j < cs.length), fits table cs[i].name cs[j] = true → j = i := by
    intro j hj hfits
    have hname : cs[j].name = cs[i].name := by
      simp only [fits, Bool.and_eq_true, beq_iff_eq] at hfits
      exact hfits.1
    have hj' : j < (cs.map name).length := by simpa using hj
    have hi' : i < (cs.map name).length := by simpa using hi
    have hnames : (cs.map name)[j] = (cs.map name)[i] := by simpa using hname
    exact (List.Nodup.getElem_inj_iff h).mp hnames
  have hfind : cs.findIdx? (fits table cs[i].name) = some i := by
    refine List.findIdx?_eq_some_iff_getElem.mpr ⟨hi, hself, fun j hji hj => ?_⟩
    have := hfits j (by omega) hj
    omega
  have hrest : (cs.drop (i + 1)).any (fits table cs[i].name) = false := by
    refine List.any_eq_false.mpr fun c hc hfit => ?_
    obtain ⟨j, hj, rfl⟩ := List.mem_drop_iff_getElem.mp hc
    have := hfits (i + 1 + j) (by omega) (by simpa using hfit)
    omega
  unfold resolve
  rw [hfind]
  dsimp only
  rw [hrest]
  rfl

/-- A reference that names the table. -/
theorem resolve_getElem (h : (cs.map name).Nodup) {i : Nat} (hi : i < cs.length) :
    resolve cs cs[i].table cs[i].name = .ok (some i) := resolve_of_fits_self h hi (by simp [fits])

end ResultColumn

section

variable {columns cs : List ResultColumn} {row : Tuple} {outer : Scope}

/-- Where names differ, the references to all columns give the row. -/
theorem mapM_value_eq_ok (hkeys : columns.map ResultColumn.key = cs.map ResultColumn.key)
    (hwidth : row.length = cs.length) (h : (cs.map ResultColumn.name).Nodup) :
    cs.mapM (fun c => Scope.value (Frame.ofRow columns row :: outer) c.table c.name) = .ok row := by
  refine Except.mapM_eq_ok_of_forall₂ (List.forall₂_iff_get.mpr ⟨hwidth.symm, fun i hi hrow => ?_⟩)
  refine Scope.value_of_resolve ?_ (List.getElem?_eq_getElem hrow)
  exact (ResultColumn.resolve_of_keys hkeys _ _).trans (ResultColumn.resolve_getElem h hi)

/-- The references to all columns of one table give something only where names differ. -/
theorem nodup_of_mapM_value (hkeys : columns.map ResultColumn.key = cs.map ResultColumn.key)
    {table : Option String} (htable : ∀ c ∈ cs, c.table = table) {values : Tuple}
    (h : cs.mapM (fun c => Scope.value (Frame.ofRow columns row :: outer) c.table c.name) =
      .ok values) : (cs.map ResultColumn.name).Nodup := by
  refine ResultColumn.nodup_of_resolve htable fun c hc => ?_
  obtain ⟨v, -, hv⟩ := exists_of_mem_forall₂ (Except.forall₂_of_mapM_eq_ok h).flip hc
  obtain ⟨o, ho, -⟩ := Except.exists_of_bind_eq_ok hv
  exact ⟨o, (ResultColumn.resolve_of_keys hkeys _ _).symm.trans ho⟩

end

/-! ## Running -/

theorem map_name_relabel (label : Option String) (columns : List ResultColumn) :
    (relabel label columns).map ResultColumn.name = columns.map ResultColumn.name := by
  unfold relabel
  rw [List.map_map]
  rfl

theorem map_name_of_keys {cs ds : List ResultColumn}
    (h : cs.map ResultColumn.key = ds.map ResultColumn.key) :
    cs.map ResultColumn.name = ds.map ResultColumn.name := by
  have hnames := congrArg (List.map Prod.snd) h
  rwa [List.map_map, List.map_map] at hnames

section

variable {σ : Type} {a : Access (Run σ)} {outer : Scope} {p : Plan} {r : Relation} {s s' : σ}

/-- Reading columns has no effect. -/
theorem exec_outputRow_ofColumn (a : Access (Run σ)) (scope : Scope) (cs : List ResultColumn)
    (s : σ) : exec (outputRow a scope (cs.map Output.ofColumn)) s =
      (cs.mapM fun c => scope.value c.table c.name, s) := by
  have hcolumn (c : ResultColumn) (s : σ) :
      exec ((Output.ofColumn c).expr.evaluate a.toSurroundings scope) s =
        (scope.value c.table c.name, s) := by
    show exec (Expr.evaluate a.toSurroundings scope (.column c.table c.name)) s = _
    rw [Expr.evaluate, exec_ofExcept]
  unfold outputRow
  rw [List.mapM_map]
  exact Parallel.constant.mapM (fun c _ => hcolumn c) s

/-- The rows of a relation, read through references to columns. -/
def Relation.readBy (r : Relation) (outer : Scope) (cs : List ResultColumn) :
    Except Error (List Tuple) :=
  r.rows.mapM fun row =>
    cs.mapM fun c => Scope.value (Frame.ofRow r.columns row :: outer) c.table c.name

/-- A relation that fits columns comes back whole if their names differ, and always if it is empty. -/
theorem Relation.Fits.readBy_eq_ok {cs : List ResultColumn} (hfits : r.Fits cs)
    (h : r.rows = [] ∨ (cs.map ResultColumn.name).Nodup) : r.readBy outer cs = .ok r.rows := by
  have hrows : r.readBy outer cs = .ok (r.rows.map id) := by
    rcases h with hempty | hnodup
    · unfold readBy
      rw [hempty]
      rfl
    · exact Except.mapM_eq_ok_map fun row hrow =>
        mapM_value_eq_ok hfits.keys (hfits.width row hrow) hnodup
  rw [hrows, List.map_id]

/-- If it comes back and is not empty, the names of the columns of its one table differ. -/
theorem Relation.Fits.of_readBy {cs : List ResultColumn} (hfits : r.Fits cs)
    {table : Option String} (htable : ∀ c ∈ cs, c.table = table) {rows : List Tuple}
    (h : r.readBy outer cs = .ok rows) :
    r.rows = [] ∨ (cs.map ResultColumn.name).Nodup := by
  rcases hcases : r.rows with _ | ⟨row, rest⟩
  · exact .inl rfl
  · -- the first row can be read only if the names differ
    have hmem : row ∈ r.rows := by
      rw [hcases]
      exact List.mem_cons_self
    obtain ⟨values, -, hvalues⟩ :=
      exists_of_mem_forall₂ (Except.forall₂_of_mapM_eq_ok h).flip hmem
    exact .inr (nodup_of_mapM_value hfits.keys htable hvalues)

/-- What running everything from a plan comes to. -/
theorem exec_run_everything (label : Option String) (hrun : exec (p.run a outer) s = (.ok r, s')) :
    exec ((Plan.project (.derived p label) ((relabel label p.columns).map Output.ofColumn)).run a
        outer) s =
      ((Relation.readBy ⟨relabel label r.columns, r.rows⟩ outer (relabel label p.columns)).map
        (outputRelation ((relabel label p.columns).map Output.ofColumn)), s') := by
  have hderived : exec ((Plan.derived p label).run a outer) s =
      (.ok ⟨relabel label r.columns, r.rows⟩, s') := exec_bind_ok hrun
  have hrows := (Parallel.constant (σ := σ)).mapM fun row (_ : row ∈ r.rows) =>
    exec_outputRow_ofColumn a (Frame.ofRow (relabel label r.columns) row :: outer)
      (relabel label p.columns)
  show exec ((Plan.derived p label).run a outer >>= _) s = _
  rw [exec_bind_ok hderived, exec_bind, hrows s']
  unfold Relation.readBy
  generalize (r.rows.mapM _ : Except Error (List Tuple)) = rows
  cases rows <;> rfl

end

end SqlStore
