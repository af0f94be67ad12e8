import SqlStore.Proofs.Check
import SqlStore.Proofs.Query.Levels
import SqlStore.Query.Planning

/-!
# What planning a query goes through

Planning the clauses of a query checks them one after the other, and lays the steps of the plan over the
plan of the sources. `Clauses` is what it finds out on the way, `Clauses.Checked` says which checks were
passed, and `Clauses.plan` is the plan that comes out.
-/

namespace SqlStore

namespace Plan

variable {body : SelectBody Select} {sources : Plan} {outer : Scope} {p : Plan}

/-- What planning the clauses of a query finds out: its visible results, its grouping keys, all its
results and its sort keys. -/
structure Clauses where
  visible : List Output
  keys : List Expression
  outputs : List Output
  sorting : List SortKey

namespace Clauses

/-- Whether the query is grouped. -/
def grouped (c : Clauses) (body : SelectBody Select) : Bool :=
  !body.groupBy.isEmpty || body.having.isSome || c.visible.any (·.expr.hasAggregate) ||
    body.orderBy.any (·.expr.hasAggregate)

/-- The scope of the clauses. -/
def scope (sources : Plan) (outer : Scope) : Scope := Frame.ofColumns sources.columns :: outer

/-- What the clauses say about the results. -/
def shape (c : Clauses) (body : SelectBody Select) (sources : Plan) (outer : Scope) : Shape :=
  ⟨sources.columns, scope sources outer, c.visible, c.keys, c.grouped body⟩

/-- The checks that the clauses passed. -/
structure Checked (c : Clauses) (body : SelectBody Select) (sources : Plan) (outer : Scope) :
    Prop where
  filter : ∀ e ∈ body.filter, e.checkClause (scope sources outer) "WHERE" = .ok ⟨⟩
  items : ∃ results, c.visible = results.flatten ∧ List.Forall₂ (fun item outputs =>
    Output.ofItem body.sources.isEmpty sources.columns (scope sources outer) item = .ok outputs)
      body.items results
  keys : List.Forall₂ (fun e key =>
    groupKey sources.columns c.visible (scope sources outer) e = .ok key) body.groupBy c.keys
  having : ∀ e ∈ body.having, e.checkAggregating (scope sources outer) = .ok ⟨⟩
  visibleGrouped : ∀ o ∈ c.visible, (c.shape body sources outer).checkGrouping o.expr = .ok ⟨⟩
  havingGrouped : ∀ e ∈ body.having, (c.shape body sources outer).checkGrouping e = .ok ⟨⟩
  sorting : sortKeys (c.shape body sources outer) body.distinct c.visible body.orderBy =
    .ok (c.outputs, c.sorting)
  offset : ∀ e ∈ body.offset, e.checkClause [] "OFFSET" = .ok ⟨⟩
  limit : ∀ e ∈ body.limit, e.checkClause [] "LIMIT" = .ok ⟨⟩

/-- The rows that results are made of. -/
def source (body : SelectBody Select) (sources : Plan) : Plan :=
  match body.filter with
  | none => sources
  | some e => sources.filter e

/-- The results, hidden ones included, as they come. -/
def results (c : Clauses) (body : SelectBody Select) (sources : Plan) : Plan :=
  if c.grouped body then (source body sources).group c.keys body.having c.outputs
  else (source body sources).project c.outputs

/-- A bound of the number of rows, if there is one. -/
def bounding (make : Plan → Expression → Plan) (plan : Plan) (count : Option Expression) : Plan :=
  match count with
  | none => plan
  | some e => make plan e

/-- The steps over the results. -/
def finish (c : Clauses) (body : SelectBody Select) (results : Plan) : Plan :=
  let results := if body.distinct then results.distinct else results
  let results := if c.sorting.isEmpty then results else results.order c.sorting
  let results := bounding limit (bounding offset results body.offset) body.limit
  if c.outputs.length > c.visible.length then results.truncate c.visible.length else results

/-- The plan that comes out. -/
def plan (c : Clauses) (body : SelectBody Select) (sources : Plan) : Plan :=
  c.finish body (c.results body sources)

end Clauses

/-! ## What the steps of planning clauses say -/

/-- A result of an entry is the entry's expression, of the type that was inferred for it, or one of the columns
that `*` stands for. -/
theorem output_of_ofItem {noSources : Bool} {columns : List ResultColumn} {scope : Scope}
    {item : SelectItem Select} {outputs : List Output}
    (h : Output.ofItem noSources columns scope item = .ok outputs) :
    ∀ o ∈ outputs,
      (item.expression? = some o.expr ∧ o.expr.checkAggregating scope = .ok ⟨⟩ ∧
          o.column.datatype = o.expr.type? columns) ∨
        (item.expression? = none ∧ ∃ c ∈ columns, o = Output.ofColumn c) := by
  cases item with
  | all =>
    obtain ⟨⟨⟩, -, h⟩ := Except.exists_of_bind_eq_ok h
    cases h
    intro o ho
    obtain ⟨c, hc, rfl⟩ := List.mem_map.mp ho
    exact Or.inr ⟨rfl, c, hc, rfl⟩
  | allOf table =>
    obtain ⟨⟨⟩, -, h⟩ := Except.exists_of_bind_eq_ok h
    cases h
    intro o ho
    obtain ⟨c, hc, rfl⟩ := List.mem_map.mp ho
    exact Or.inr ⟨rfl, c, (List.mem_filter.mp hc).1, rfl⟩
  | expr e label =>
    obtain ⟨⟨⟩, hcheck, h⟩ := Except.exists_of_bind_eq_ok h
    obtain ⟨table, -, h⟩ := Except.exists_of_bind_eq_ok h
    cases h
    intro o ho
    cases List.mem_singleton.mp ho
    exact Or.inl ⟨rfl, hcheck, rfl⟩

theorem checked_of_return {e key : Expression} {scope : Scope} {clause : String}
    (h : (do
      e.checkClause scope clause
      return e : Except Error Expression) = .ok key) :
    e = key ∧ key.checkClause scope clause = .ok ⟨⟩ := by
  obtain ⟨⟨⟩, hcheck, h⟩ := Except.exists_of_bind_eq_ok h
  cases h
  exact ⟨rfl, hcheck⟩

/-- A grouping key was checked, and it is the entry of GROUP BY or the expression of a result. -/
theorem key_of_groupKey {columns : List ResultColumn} {outputs : List Output} {scope : Scope}
    {e key : Expression} (h : groupKey columns outputs scope e = .ok key) :
    key.checkClause scope "GROUP BY" = .ok ⟨⟩ ∧ (key = e ∨ ∃ o ∈ outputs, key = o.expr) := by
  have hfound : ∀ o : Option Output, (∀ x ∈ o, x ∈ outputs) →
      (o.map Output.expr).getD e = e ∨ ∃ x ∈ outputs, (o.map Output.expr).getD e = x.expr := by
    intro o ho
    cases o with
    | none => exact Or.inl rfl
    | some x => exact Or.inr ⟨x, ho x rfl, rfl⟩
  unfold groupKey at h
  split at h
  · obtain ⟨i, -, h⟩ := Except.exists_of_bind_eq_ok h
    obtain ⟨_, ⟨⟩, h⟩ := Except.exists_of_bind_eq_ok h
    obtain ⟨rfl, hcheck⟩ := checked_of_return h
    exact ⟨hcheck, hfound _ fun x hx => List.mem_of_getElem? hx⟩
  · obtain ⟨found, -, h⟩ := Except.exists_of_bind_eq_ok h
    -- a column of the sources has the name, or a result may have it
    cases found with
    | some i =>
      obtain ⟨_, ⟨⟩, h⟩ := Except.exists_of_bind_eq_ok h
      obtain ⟨rfl, hcheck⟩ := checked_of_return h
      exact ⟨hcheck, Or.inl rfl⟩
    | none =>
      obtain ⟨_, ⟨⟩, h⟩ := Except.exists_of_bind_eq_ok h
      obtain ⟨rfl, hcheck⟩ := checked_of_return h
      exact ⟨hcheck, hfound _ fun x hx => List.mem_of_find?_eq_some hx⟩
  · obtain ⟨_, ⟨⟩, h⟩ := Except.exists_of_bind_eq_ok h
    obtain ⟨rfl, hcheck⟩ := checked_of_return h
    exact ⟨hcheck, Or.inl rfl⟩

/-- Positions are counted from one. -/
theorem positionOf_eq_ok {clause : String} {width place : Nat} {n : Int32}
    (h : positionOf clause width n = .ok place) : n.toInt = place + 1 ∧ place < width := by
  unfold positionOf at h
  split at h
  · next hbounds =>
    cases h
    simp only [Bool.and_eq_true, decide_eq_true_eq] at hbounds
    omega
  · cases h

theorem lt_of_place? {outputs : List Output} {e : Expression} {place : Nat}
    (h : Output.place? outputs e = some place) : place < outputs.length := by
  unfold Output.place? at h
  have hlt : ∀ {p : Output → Bool}, outputs.findIdx? p = some place → place < outputs.length :=
    fun hfound => (List.findIdx?_eq_some_iff_findIdx_eq.mp hfound).1
  -- by its name first, then by its expression
  rcases Option.or_eq_some_iff.mp (Option.orElse_eq_or ▸ h) with hnamed | ⟨-, hsame⟩
  · split at hnamed
    · exact hlt hnamed
    · cases hnamed
  · exact hlt hsame

/-- A sort key adds at most one hidden result, which was checked and has the type of its expression, and
stands for the place of a result. -/
theorem exists_of_sortKey {shape : Shape} {distinct : Bool} {outputs outputs' : List Output}
    {item : OrderItem Select} {key : SortKey}
    (h : sortKey shape distinct outputs item = .ok (outputs', key))
    (hvisible : shape.visible.length ≤ outputs.length) :
    ∃ hidden, outputs' = outputs ++ hidden ∧
      (∀ o ∈ hidden, o.expr = item.expr ∧ o.expr.checkAggregating shape.scope = .ok ⟨⟩ ∧
        o.column.datatype = o.expr.type? shape.columns) ∧
      key.index < outputs'.length := by
  unfold sortKey at h
  split at h
  · obtain ⟨place, hplace, h⟩ := Except.exists_of_bind_eq_ok h
    cases h
    obtain ⟨-, hlt⟩ := positionOf_eq_ok hplace
    exact ⟨[], (List.append_nil _).symm, nofun, Nat.lt_of_lt_of_le hlt hvisible⟩
  · split at h
    · next hplace =>
      cases h
      have hlt := lt_of_place? hplace
      exact ⟨[], (List.append_nil _).symm, nofun, Nat.lt_of_lt_of_le hlt hvisible⟩
    · obtain ⟨⟨⟩, -, h⟩ := Except.exists_of_bind_eq_ok h
      obtain ⟨⟨⟩, hcheck, h⟩ := Except.exists_of_bind_eq_ok h
      obtain ⟨⟨⟩, -, h⟩ := Except.exists_of_bind_eq_ok h
      cases h
      refine ⟨_, rfl, List.forall_mem_singleton.mpr ⟨rfl, hcheck, rfl⟩, ?_⟩
      rw [List.length_append, List.length_singleton]
      exact Nat.lt_succ_self _

/-- Sort keys add hidden results that were checked and typed, and stand for places of results. -/
theorem exists_of_sortKeys {shape : Shape} {distinct : Bool} {outputs outputs' : List Output}
    {items : List (OrderItem Select)} {keys : List SortKey}
    (h : sortKeys shape distinct outputs items = .ok (outputs', keys))
    (hvisible : shape.visible.length ≤ outputs.length) :
    ∃ hidden, outputs' = outputs ++ hidden ∧
      (∀ o ∈ hidden, o.expr ∈ items.map OrderItem.expr ∧
        o.expr.checkAggregating shape.scope = .ok ⟨⟩ ∧
        o.column.datatype = o.expr.type? shape.columns) ∧
      ∀ k ∈ keys, k.index < outputs'.length := by
  induction items generalizing outputs keys with
  | nil =>
    cases h
    exact ⟨[], (List.append_nil _).symm, nofun, nofun⟩
  | cons item items ih =>
    obtain ⟨⟨between, key⟩, hfirst, h⟩ := Except.exists_of_bind_eq_ok h
    obtain ⟨⟨outputs', keys⟩, hrest, h⟩ := Except.exists_of_bind_eq_ok h
    cases h
    obtain ⟨first, rfl, hhead, hindex⟩ := exists_of_sortKey hfirst hvisible
    have hgrown : outputs.length ≤ (outputs ++ first).length :=
      (List.prefix_append _ _).length_le
    obtain ⟨rest, rfl, htail, hindices⟩ := ih hrest (Nat.le_trans hvisible hgrown)
    refine ⟨first ++ rest, List.append_assoc _ _ _, ?_, ?_⟩
    · refine List.forall_mem_append.mpr ⟨fun o ho => ?_, fun o ho => ?_⟩
      · obtain ⟨hexpr, hcheck⟩ := hhead o ho
        exact ⟨hexpr ▸ List.mem_cons_self, hcheck⟩
      · obtain ⟨hexpr, hcheck⟩ := htail o ho
        exact ⟨List.mem_cons_of_mem _ hexpr, hcheck⟩
    · refine List.forall_mem_cons.mpr ⟨Nat.lt_of_lt_of_le hindex ?_, hindices⟩
      exact (List.prefix_append _ _).length_le

/-- The predicate of a join was written and checked. -/
theorem predicate_of_joinRule {left right : List ResultColumn} {condition : JoinCondition Select}
    {predicate : Option Expression} {merged : List (Nat × Nat)}
    (h : joinRule left right outer condition = .ok (predicate, merged)) :
    ∀ e ∈ predicate, condition.expression? = some e ∧
      e.checkClause (.ofColumns (left ++ right) :: outer) "JOIN conditions" = .ok ⟨⟩ := by
  cases condition with
  | always | natural =>
    cases h
    exact nofun
  | using_ names =>
    obtain ⟨places, -, h⟩ := Except.exists_of_bind_eq_ok h
    cases h
    exact nofun
  | on e =>
    obtain ⟨⟨⟩, hcheck, h⟩ := Except.exists_of_bind_eq_ok h
    cases h
    intro _ he
    cases Option.mem_def.mp he
    exact ⟨rfl, hcheck⟩

theorem bounded_eq_ok {make : Plan → Expression → Plan} {clause : String} {plan q : Plan}
    {count : Option Expression} (h : bounded make clause plan count = .ok q) :
    (∀ e ∈ count, e.checkClause [] clause = .ok ⟨⟩) ∧ q = Clauses.bounding make plan count := by
  cases count with
  | none =>
    cases h
    exact ⟨nofun, rfl⟩
  | some e =>
    obtain ⟨⟨⟩, hcheck, h⟩ := Except.exists_of_bind_eq_ok h
    cases h
    refine ⟨?_, rfl⟩
    intro _ he
    cases Option.mem_def.mp he
    exact hcheck

/-- A plan of clauses passed all checks, and it is made of what they found out. -/
theorem exists_of_ofClauses (h : ofClauses body sources outer = .ok p) :
    ∃ c : Clauses, c.Checked body sources outer ∧ p = c.plan body sources := by
  unfold ofClauses at h
  dsimp only at h
  cases hbody : body.filter
  case' none =>
    have hsource : Clauses.source body sources = sources := by rw [Clauses.source, hbody]
    have hchecked : ∀ e ∈ body.filter, e.checkClause (Clauses.scope sources outer) "WHERE" =
        .ok ⟨⟩ := by
      rw [hbody]
      exact nofun
    rw [hbody] at h
  case' some e =>
    have hsource : Clauses.source body sources = sources.filter e := by rw [Clauses.source, hbody]
    rw [hbody] at h
    obtain ⟨⟨⟩, hcheck, h⟩ := Except.exists_of_bind_eq_ok h
    have hchecked : ∀ e ∈ body.filter, e.checkClause (Clauses.scope sources outer) "WHERE" =
        .ok ⟨⟩ := by
      rw [hbody]
      intro _ he
      cases Option.mem_def.mp he
      exact hcheck
  -- behind the filter all is the same with and without one
  all_goals
    obtain ⟨_, ⟨⟩, h⟩ := Except.exists_of_bind_eq_ok h
    obtain ⟨results, hitems, h⟩ := Except.exists_of_bind_eq_ok h
    obtain ⟨keys, hkeys, h⟩ := Except.exists_of_bind_eq_ok h
    obtain ⟨⟨⟩, hhaving, h⟩ := Except.exists_of_bind_eq_ok h
    obtain ⟨⟨⟩, hvisibleGrouped, h⟩ := Except.exists_of_bind_eq_ok h
    obtain ⟨⟨⟩, hhavingGrouped, h⟩ := Except.exists_of_bind_eq_ok h
    obtain ⟨⟨outputs, sorting⟩, hsorting, h⟩ := Except.exists_of_bind_eq_ok h
    obtain ⟨_, hoffset, h⟩ := Except.exists_of_bind_eq_ok h
    obtain ⟨_, hlimit, h⟩ := Except.exists_of_bind_eq_ok h
    obtain ⟨hcheckOffset, rfl⟩ := bounded_eq_ok hoffset
    obtain ⟨hcheckLimit, rfl⟩ := bounded_eq_ok hlimit
    cases h
    refine ⟨⟨results.flatten, keys, outputs, sorting⟩, ?_, ?_⟩
    · exact
        { filter := hchecked
          items := ⟨results, rfl, Except.forall₂_of_mapM_eq_ok hitems⟩
          keys := Except.forall₂_of_mapM_eq_ok hkeys
          having := Except.forall_of_option_forM_eq_ok hhaving
          visibleGrouped := Except.forall_of_forM_eq_ok hvisibleGrouped
          havingGrouped := Except.forall_of_option_forM_eq_ok hhavingGrouped
          sorting := hsorting
          offset := hcheckOffset
          limit := hcheckLimit }
    · unfold Clauses.plan Clauses.results
      rw [hsource]
      rfl

namespace Clauses

/-- A result is an expression of its level that was checked, or it stands for `*`. -/
def Shown (body : SelectBody Select) (sources : Plan) (outer : Scope) (o : Output) : Prop :=
  (o.expr ∈ body.expressions ∧ o.expr.checkAggregating (scope sources outer) = .ok ⟨⟩) ∨
    ((∃ item ∈ body.items, item.expression? = none) ∧ ∃ c ∈ sources.columns, o = Output.ofColumn c)

namespace Checked

variable {c : Clauses}

/-- A visible result comes from one of the entries. -/
theorem exists_item (h : c.Checked body sources outer) {o : Output} (ho : o ∈ c.visible) :
    ∃ item ∈ body.items,
      (item.expression? = some o.expr ∧ o.expr.checkAggregating (scope sources outer) = .ok ⟨⟩ ∧
          o.column.datatype = o.expr.type? sources.columns) ∨
        (item.expression? = none ∧ ∃ c ∈ sources.columns, o = Output.ofColumn c) := by
  obtain ⟨results, hvisible, hitems⟩ := h.items
  rw [hvisible] at ho
  obtain ⟨outputs, houtputs, ho⟩ := List.mem_flatten.mp ho
  obtain ⟨item, hitem, hof⟩ := exists_of_mem_forall₂ hitems houtputs
  exact ⟨item, hitem, output_of_ofItem hof o ho⟩

theorem shown_of_visible (h : c.Checked body sources outer) :
    ∀ o ∈ c.visible, Shown body sources outer o := by
  intro o ho
  obtain ⟨item, hitem, ⟨hexpr, hcheck, -⟩ | ⟨hnone, hcolumn⟩⟩ := h.exists_item ho
  · exact Or.inl ⟨SelectBody.mem_expressions_of_item hitem hexpr, hcheck⟩
  · exact Or.inr ⟨⟨item, hitem, hnone⟩, hcolumn⟩

theorem of_key (h : c.Checked body sources outer) : ∀ key ∈ c.keys,
    key.checkClause (scope sources outer) "GROUP BY" = .ok ⟨⟩ ∧
      (key ∈ body.expressions ∨ ∃ o ∈ c.visible, key = o.expr) := by
  intro key hkey
  obtain ⟨e, he, hof⟩ := exists_of_mem_forall₂ h.keys hkey
  obtain ⟨hcheck, horigin⟩ := key_of_groupKey hof
  refine ⟨hcheck, horigin.imp_left ?_⟩
  rintro rfl
  exact SelectBody.mem_expressions_of_groupBy he

/-- All results are shown or hidden ones that were checked, and sort keys stand for results. -/
theorem of_sorting (h : c.Checked body sources outer) :
    (∀ o ∈ c.outputs, Shown body sources outer o) ∧ ∀ k ∈ c.sorting, k.index < c.outputs.length := by
  obtain ⟨hidden, houtputs, hhidden, hindices⟩ := exists_of_sortKeys h.sorting (Nat.le_refl _)
  refine ⟨?_, hindices⟩
  rw [houtputs]
  refine List.forall_mem_append.mpr ⟨h.shown_of_visible, fun o ho => ?_⟩
  obtain ⟨hexpr, hcheck, -⟩ := hhidden o ho
  exact Or.inl ⟨SelectBody.mem_expressions_of_orderBy hexpr, hcheck⟩

end Checked

/-- The steps over the results, one after the other: what they keep of the results holds before the
hidden ones are taken away. -/
theorem finish_of {c : Clauses} {results : Plan} {Q R : Plan → Prop} (hresults : Q results)
    (hdistinct : ∀ {p}, Q p → Q p.distinct) (horder : ∀ {p}, Q p → Q (p.order c.sorting))
    (hoffset : ∀ {p}, ∀ e ∈ body.offset, Q p → Q (p.offset e))
    (hlimit : ∀ {p}, ∀ e ∈ body.limit, Q p → Q (p.limit e)) (hkeep : ∀ {p}, Q p → R p)
    (htruncate : ∀ {p}, Q p → c.visible.length < c.outputs.length →
      R (p.truncate c.visible.length)) : R (c.finish body results) := by
  have hbounding : ∀ {make : Plan → Expression → Plan} {p : Plan} {count : Option Expression},
      (∀ e ∈ count, Q p → Q (make p e)) → Q p → Q (bounding make p count) := by
    intro make p count hmake hp
    cases count with
    | none => exact hp
    | some e => exact hmake e rfl hp
  have hdistinguished : Q (if body.distinct then results.distinct else results) := by
    split
    · exact hdistinct hresults
    · exact hresults
  have hordered := fun p (hp : Q p) =>
    show Q (if c.sorting.isEmpty then p else p.order c.sorting) by
      split
      · exact hp
      · exact horder hp
  have hbounded := hbounding hlimit (hbounding hoffset (hordered _ hdistinguished))
  unfold finish
  dsimp only
  split
  · next hmore => exact htruncate hbounded hmore
  · exact hkeep hbounded

end Clauses

end Plan

end SqlStore
