import SqlStore.Proofs.Query.Planned
import SqlStore.Proofs.Query.Readable
import SqlStore.Proofs.Query.Supported

/-!
# Plans that rest on what planning checked

Planning checks every clause of a query against the columns of its sources, and running evaluates the
clause in frames that fit these columns. So the plan of a query whose levels only have expressions without
queries, and no `*`, is supported: whatever it evaluates was checked for the frames it is evaluated in.
-/

namespace SqlStore

open Run

/-- A level without queries inside its expressions, and without `*` among its results. -/
structure SelectBody.Plain (body : SelectBody Select) : Prop where
  queries : ∀ e ∈ body.expressions, e.queries = []
  items : ∀ item ∈ body.items, item.expression? ≠ none

namespace Plan

variable {σ : Type} {P : σ → Prop} {E : Error → Prop} {a : Access (Run σ)} {outer : Scope}

theorem counting_operational : Counting Error.IsOperational where
  type := by simp [Error.IsOperational]
  negative := by
    intro clause hclause
    simp only [List.mem_cons, List.not_mem_nil, or_false] at hclause
    rcases hclause with rfl | rfl <;> simp [Error.IsOperational]

/-! ## Checked clauses -/

section

variable {e : Expression}

theorem evaluates_of_sure (ho : Operations E)
    (hcall : ∀ name args, Ends P (a.call name args) (fun _ => True) E) (houter : outer.Filled)
    {columns : List ResultColumn} {grouped : Bool}
    (hsure : ∀ scope : Scope, scope.group?.isSome = grouped →
      ∀ x ∈ e.subexpressions, Sure (.ofColumns columns :: outer) scope x) :
    Evaluates P E a outer columns grouped e := fun _ hframe =>
  Readable.ends_evaluate ho hcall (readable_of_fits hframe houter (hsure _ hframe.isSome_group))

/-- A bound is checked and evaluated without columns. -/
theorem ends_bound (ho : Operations E)
    (hcall : ∀ name args, Ends P (a.call name args) (fun _ => True) E) {clause : String}
    (hqueries : e.queries = []) (hcheck : e.checkClause [] clause = .ok ⟨⟩) :
    Ends P (e.evaluate a.toSurroundings []) (fun _ => True) E :=
  Readable.ends_evaluate ho hcall
    ⟨nofun, nofun, [], .nil, sure_of_checkClause hcheck hqueries⟩

end

/-! ## Clauses -/

namespace Clauses

variable {body : SelectBody Select} {sources : Plan} {c : Clauses}

namespace Checked

/-- Without `*`, every result is an expression of its level. -/
theorem output_of_plain (hc : c.Checked body sources outer) (hplain : body.Plain) :
    ∀ o ∈ c.outputs, o.expr.queries = [] ∧
      o.expr.checkAggregating (scope sources outer) = .ok ⟨⟩ := by
  intro o ho
  rcases hc.of_sorting.1 o ho with ⟨hmem, hcheck⟩ | ⟨⟨item, hitem, hstar⟩, -⟩
  · exact ⟨hplain.queries _ hmem, hcheck⟩
  · exact absurd hstar (hplain.items item hitem)

theorem key_of_plain (hc : c.Checked body sources outer) (hplain : body.Plain) :
    ∀ key ∈ c.keys, key.queries = [] ∧
      key.checkClause (scope sources outer) "GROUP BY" = .ok ⟨⟩ := by
  intro key hkey
  obtain ⟨hcheck, hmem | ⟨o, ho, rfl⟩⟩ := hc.of_key key hkey
  · exact ⟨hplain.queries key hmem, hcheck⟩
  · rcases hc.shown_of_visible o ho with ⟨hmem, -⟩ | ⟨⟨item, hitem, hstar⟩, -⟩
    · exact ⟨hplain.queries _ hmem, hcheck⟩
    · exact absurd hstar (hplain.items item hitem)

/-- Where rows are not grouped, no result aggregates, not even a hidden one. -/
theorem no_aggregate_of_ungrouped (hc : c.Checked body sources outer)
    (h : c.grouped body = false) : ∀ o ∈ c.outputs, o.expr.hasAggregate = false := by
  obtain ⟨hidden, houtputs, hhidden, -⟩ := exists_of_sortKeys hc.sorting (Nat.le_refl _)
  unfold grouped at h
  simp only [Bool.or_eq_false_iff] at h
  obtain ⟨⟨-, hvisible⟩, horder⟩ := h
  rw [houtputs]
  refine List.forall_mem_append.mpr ⟨fun o ho => ?_, fun o ho => ?_⟩
  · exact Bool.eq_false_iff.mpr (List.any_eq_false.mp hvisible o ho)
  · obtain ⟨item, hitem, hexpr⟩ := List.mem_map.mp (hhidden o ho).1
    rw [← hexpr]
    exact Bool.eq_false_iff.mpr (List.any_eq_false.mp horder item hitem)

end Checked

theorem columns_source (body : SelectBody Select) (sources : Plan) :
    (source body sources).columns = sources.columns := by
  unfold source
  split <;> rfl

theorem columns_results (c : Clauses) (body : SelectBody Select) (sources : Plan) :
    (c.results body sources).columns = c.outputs.map Output.column := by
  unfold results
  split <;> rfl

variable (ho : Operations E)
variable (hcall : ∀ name args, Ends P (a.call name args) (fun _ => True) E)

include ho hcall

/-- Grouped results are evaluated for groups, the others for rows. -/
theorem supported_results (houter : outer.Filled) (hplain : body.Plain)
    (hc : c.Checked body sources outer) (hsources : sources.Supported P E a outer) :
    (c.results body sources).Supported P E a outer := by
  have hevaluates {grouped : Bool} {e : Expression}
      (hsure : ∀ frames : Scope, frames.group?.isSome = grouped →
        ∀ x ∈ e.subexpressions, Sure (scope sources outer) frames x) :
      Evaluates P E a outer sources.columns grouped e := evaluates_of_sure ho hcall houter hsure
  have hsource : (source body sources).Supported P E a outer := by
    unfold source
    split
    · exact hsources
    · next e he =>
      refine ⟨hsources, hevaluates fun _ _ => sure_of_checkClause (hc.filter e he) ?_⟩
      exact hplain.queries e (SelectBody.mem_expressions_of_filter he)
  unfold results
  split
  · refine ⟨hsource, fun key hkey => ?_, fun e he => ?_, fun o hmem => ?_⟩ <;>
      rw [columns_source]
    · obtain ⟨hqueries, hcheck⟩ := hc.key_of_plain hplain key hkey
      exact hevaluates fun _ _ => sure_of_checkClause hcheck hqueries
    · refine hevaluates fun _ hgrouped => sure_of_checkAggregating (hc.having e he) ?_ fun _ => hgrouped
      exact hplain.queries e (SelectBody.mem_expressions_of_having he)
    · obtain ⟨hqueries, hcheck⟩ := hc.output_of_plain hplain o hmem
      exact hevaluates fun _ hgrouped => sure_of_checkAggregating hcheck hqueries fun _ => hgrouped
  · next hungrouped =>
    refine ⟨hsource, fun o hmem => ?_⟩
    rw [columns_source]
    obtain ⟨hqueries, hcheck⟩ := hc.output_of_plain hplain o hmem
    refine hevaluates fun _ _ => sure_of_checkAggregating hcheck hqueries fun haggregate => ?_
    rw [hc.no_aggregate_of_ungrouped (Bool.eq_false_iff.mpr hungrouped) o hmem] at haggregate
    cases haggregate

/-- The steps over the results sort by results and are bounded by what was checked. -/
theorem supported_plan (houter : outer.Filled) (hplain : body.Plain)
    (hc : c.Checked body sources outer) (hsources : sources.Supported P E a outer) :
    (c.plan body sources).Supported P E a outer := by
  have hresults := supported_results ho hcall houter hplain hc hsources
  have hwidth : (c.results body sources).columns.length = c.outputs.length := by
    rw [columns_results, List.length_map]
  refine finish_of (Q := fun p => p.Supported P E a outer ∧ p.columns.length = c.outputs.length)
    ⟨hresults, hwidth⟩ id ?_ ?_ ?_ And.left fun hp _ => hp.1
  · intro p hp
    refine ⟨⟨hp.1, fun k hk hbeyond => ?_⟩, hp.2⟩
    have hlt := hc.of_sorting.2 k hk
    rw [hp.2] at hbeyond
    exact absurd hlt (Nat.not_lt.mpr hbeyond)
  · intro p e he hp
    refine ⟨⟨hp.1, ends_bound ho hcall ?_ (hc.offset e he)⟩, hp.2⟩
    exact hplain.queries e (SelectBody.mem_expressions_of_offset he)
  · intro p e he hp
    refine ⟨⟨hp.1, ends_bound ho hcall ?_ (hc.limit e he)⟩, hp.2⟩
    exact hplain.queries e (SelectBody.mem_expressions_of_limit he)

end Clauses

/-- The plan of a query of plain levels is supported if its scans answer rows of the right width. -/
theorem supported_ofSelect (ho : Operations E)
    (hcall : ∀ name args, Ends P (a.call name args) (fun _ => True) E) (houter : outer.Filled)
    {catalog : Catalog}
    (hscan : ∀ name d, catalog name = .ok d → Ends P (a.scan d.schema d.name)
      (fun rows => ∀ r ∈ rows, r.values.length = d.columns.length) E) {q : Select}
    (hq : ∀ body ∈ q.levels, body.Plain) {p : Plan}
    (hp : Plan.ofSelect catalog outer q = .ok p) : p.Supported P E a outer := by
  have hplanned : Planned catalog outer SelectBody.Plain fun p => p.Supported P E a outer :=
    { singleRow := trivial
      scan := fun _ _ hd => hscan _ _ hd
      derived := fun hp => hp
      cross := fun hl hr => ⟨hl, hr, nofun⟩
      join := by
        intro body kind condition l r predicate merged hplain hcondition hrule hl hr
        refine ⟨hl, hr, fun e he => ?_⟩
        obtain ⟨hexpr, hcheck⟩ := predicate_of_joinRule hrule e he
        refine evaluates_of_sure ho hcall houter fun _ _ => sure_of_checkClause hcheck ?_
        exact hplain.queries e (SelectBody.mem_expressions_of_condition hcondition hexpr)
      clauses := fun hplain hc hs => Clauses.supported_plan ho hcall houter hplain hc hs }
  exact hplanned.ofSelect q hq hp

end Plan

end SqlStore
