import SqlStore.Proofs.Query.Clauses
import SqlStore.Proofs.Query.Everything

/-!
# Whole rows of a table

`SELECT * FROM t WHERE e` checks its condition against the columns of the table, filters a scan of the table
and reads the rows that are left through references to all columns. Where the names of the columns differ, it
gives the rows that the condition keeps as they are.
-/

namespace SqlStore

open Run

/-- The clauses of `SELECT * FROM name AS label WHERE condition`. -/
def SelectBody.rowsOf (name : ObjectName) (label : Option String) (condition : Option Expression) :
    SelectBody Select where
  distinct := false
  items := [.all]
  sources := [.table name label]
  filter := condition
  groupBy := []
  having := none
  orderBy := []
  limit := none
  offset := none

/-- `SELECT * FROM name AS label WHERE condition` -/
def Select.rowsOf (name : ObjectName) (label : Option String) (condition : Option Expression) : Select :=
  .mk (.rowsOf name label condition)

namespace Plan

variable {name : ObjectName} {label : Option String} {condition : Option Expression}

/-- What is planned for it: the kept rows of a scan, read through all columns. -/
def rowsOf (d : TableDefinition) (name : ObjectName) (label : Option String)
    (condition : Option Expression) : Plan :=
  (Clauses.source (.rowsOf name label condition) (scan d label)).project
    ((d.resultColumns label).map Output.ofColumn)

theorem ofClauses_rowsOf (name : ObjectName) (label : Option String) (condition : Option Expression)
    (sources : Plan) (outer : Scope) :
    ofClauses (.rowsOf name label condition) sources outer = (do
      condition.forM (·.checkClause (Frame.ofColumns sources.columns :: outer) "WHERE")
      return (Clauses.source (.rowsOf name label condition) sources).project
        (sources.columns.map Output.ofColumn)) := by
  let q : Select := .rowsOf name label none
  cases condition with
  | none => exact ofClauses_everything q label sources outer
  | some e =>
    -- the condition is checked, and then everything is selected from the rows that pass
    have hchecked : ofClauses (.rowsOf name label (some e)) sources outer = (do
        e.checkClause (Frame.ofColumns sources.columns :: outer) "WHERE"
        ofClauses (.everything q label) (sources.filter e) outer) := by
      unfold ofClauses SelectBody.rowsOf
      dsimp only
      cases e.checkClause (Frame.ofColumns sources.columns :: outer) "WHERE" <;> rfl
    rw [hchecked, ofClauses_everything]
    rfl

/-- The table is found first, and then the condition is checked. -/
theorem ofSelect_rowsOf (catalog : Catalog) (outer : Scope) :
    ofSelect catalog outer (.rowsOf name label condition) = (do
      let d ← catalog name
      condition.forM (·.checkClause (Frame.ofColumns (d.resultColumns label) :: outer) "WHERE")
      return rowsOf d name label condition) := by
  rw [Select.rowsOf, ofSelect, SelectBody.rowsOf, ofBody, ofSources, ofSource, ofSources]
  cases catalog name with
  | error err => rfl
  | ok d => exact ofClauses_rowsOf name label condition (scan d label) outer

end Plan

/-- The condition nests less deep than the query. -/
theorem exprDepth_lt_depth_rowsOf (name : ObjectName) (label : Option String)
    {condition : Option Expression} {e : Expression} (he : e ∈ condition) :
    exprDepth e < (Select.rowsOf name label condition).depth :=
  Nat.lt_of_le_of_lt (exprDepth_le_bodyDepth (SelectBody.mem_expressions_of_filter he))
    (bodyDepth_lt_depth (.rowsOf name label condition) List.mem_cons_self)

/-! ## Running -/

/-- Where the names of columns differ, reading all of them gives rows back. -/
theorem exec_outputRow_columns {σ : Type} (a : Access (Run σ)) (outer : Scope) {columns : List ResultColumn}
    {r : Relation} (hfits : r.Fits columns) (hnames : (columns.map ResultColumn.name).Nodup) (s : σ) :
    exec (r.rows.mapM fun row => outputRow a (Frame.ofRow r.columns row :: outer)
      (columns.map Output.ofColumn)) s = (.ok r.rows, s) := by
  have hread : r.readBy outer columns = .ok r.rows := hfits.readBy_eq_ok (.inr hnames)
  rw [← hread]
  exact (Parallel.constant (σ := σ)).mapM (fun row (_ : row ∈ r.rows) =>
    exec_outputRow_ofColumn a (Frame.ofRow r.columns row :: outer) columns) s

namespace Services

variable {m : Type → Type} [Monad m] [MonadExceptOf Error m] [LawfulMonad m] [StopsAtFailure m]

/-- A predicate holds the same with more depth than it needs. -/
theorem holds_access_of_le (s : Services m) {e : Expression} {depth : Nat} (h : exprDepth e ≤ depth)
    (scope : Scope) (clause : String) :
    e.holds (s.access (exprDepth e)).toSurroundings scope clause =
      e.holds (s.access depth).toSurroundings scope clause := by
  refine Expr.parallel_holds (L := .equality m) (Expr.evaluable_of_asks fun _ => trivial) ⟨?_, ?_⟩ clause
  · intro q hq scope
    exact congrFun (s.query_access_of_le (depth_le_exprDepth hq) h) scope
  · intro name _ args
    show (s.access _).call name args = (s.access _).call name args
    rw [call_access, call_access]

end Services

namespace Action

variable {hook : Hook} {d : TableDefinition} {name : ObjectName} {label : Option String}
  {condition : Option Expression}

theorem filter_zip_map {α β : Type} (f : α → β) (xs : List α) (kept : List Bool) :
    (((xs.map f).zip kept).filter Prod.snd).map Prod.fst =
      (((xs.zip kept).filter Prod.snd).map Prod.fst).map f := by
  rw [List.zip_map_left, List.filter_map, List.map_map, List.map_map]
  rfl

/-- The rows that a query filters are those that a deletion or an update matches. -/
theorem run_source_rowsOf {depth : Nat} (hdepth : ∀ e ∈ condition, exprDepth e ≤ depth) :
    (Plan.Clauses.source (.rowsOf name label condition) (.scan d label)).run
        ((services hook).access depth) [] = (do
      let rows ← matchingRows hook d label condition
      return ⟨d.resultColumns label, rows.map Row.values⟩) := by
  have hscan : (Plan.scan d label).run ((services hook).access depth) [] = (do
      let rows ← scan hook d.fullName
      return ⟨d.resultColumns label, rows.map Row.values⟩) := by
    unfold Plan.run
    rw [Services.scan_access]
    rfl
  unfold Plan.Clauses.source SelectBody.rowsOf matchingRows
  cases condition with
  | none =>
    dsimp only
    rw [hscan, bind_assoc]
    simp only [pure_bind]
  | some e =>
    dsimp only
    unfold Plan.run
    rw [hscan, bind_assoc, bind_assoc]
    refine congrArg _ (funext fun rows => ?_)
    rw [pure_bind]
    unfold filterRows
    simp only [bind_assoc, pure_bind, List.mapM_map, filter_zip_map,
      Services.holds_access_of_le (services hook) (hdepth e rfl)]
    rfl

end Action

end SqlStore
