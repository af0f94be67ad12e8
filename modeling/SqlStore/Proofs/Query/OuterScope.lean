import SqlStore.Proofs.Query.Names

/-!
# Queries inside different rows

A query inside an expression is planned by the names around it and run with their values. So inside two
scopes that bind the same names, such as scopes with the same columns, it has the same plan, and if all that it
refers to has the same values there it comes to the same.
-/

namespace SqlStore

/-- Scopes in which the same references are bound, or ambiguous. -/
def Scope.SameBinds (scope scope' : Scope) : Prop := scope.binds = scope'.binds

/-- Scopes whose frames have the same columns. -/
def Scope.SameColumns (scope scope' : Scope) : Prop :=
  scope.map Frame.columns = scope'.map Frame.columns

namespace Scope.SameColumns

variable {scope scope' : Scope}

theorem cons (h : SameColumns scope scope') (f : Frame) : SameColumns (f :: scope) (f :: scope') :=
  congrArg (f.columns :: ·) h

theorem sameBinds (h : SameColumns scope scope') : SameBinds scope scope' := by
  funext table name
  induction scope generalizing scope' with
  | nil =>
    cases scope' with
    | nil => rfl
    | cons f scope' => cases h
  | cons f scope ih =>
    cases scope' with
    | nil => cases h
    | cons f' scope' =>
      obtain ⟨hcolumns, hrest⟩ := List.cons.inj h
      unfold binds
      rw [hcolumns, ih hrest]

end Scope.SameColumns

namespace Scope.SameBinds

variable {scope scope' : Scope}

theorem cons (h : SameBinds scope scope') (f : Frame) : SameBinds (f :: scope) (f :: scope') := by
  funext table name
  unfold binds
  rw [show scope.binds table name = scope'.binds table name from congrFun (congrFun h table) name]

/-! ## Planning -/

variable {σ : Type}

theorem checkColumns_eq (h : SameBinds scope scope') :
    (Expr.checkColumns scope : Expr σ → _) = Expr.checkColumns scope' := by
  have hreference : (Expr.checkReference scope : Expr σ → _) = Expr.checkReference scope' := by
    funext e
    unfold Expr.checkReference
    rw [show scope.binds = scope'.binds from h]
  funext e
  unfold Expr.checkColumns
  rw [hreference]

theorem checkClause_eq (h : SameBinds scope scope') :
    (Expr.checkClause scope : String → Expr σ → _) = Expr.checkClause scope' := by
  funext clause e
  unfold Expr.checkClause
  rw [h.checkColumns_eq]

theorem checkAggregating_eq (h : SameBinds scope scope') :
    (Expr.checkAggregating scope : Expr σ → _) = Expr.checkAggregating scope' := by
  funext e
  unfold Expr.checkAggregating
  rw [h.checkColumns_eq]

theorem ofItem_eq (h : SameBinds scope scope') (noSources : Bool) (columns : List ResultColumn) :
    Output.ofItem noSources columns scope = Output.ofItem noSources columns scope' := by
  funext item
  unfold Output.ofItem
  rw [h.checkAggregating_eq]

theorem groupKey_eq (h : SameBinds scope scope') (columns : List ResultColumn)
    (outputs : List Output) :
    Plan.groupKey columns outputs scope = Plan.groupKey columns outputs scope' := by
  funext e
  unfold Plan.groupKey
  rw [h.checkClause_eq]

theorem sortKeys_eq (h : SameBinds scope scope') (columns : List ResultColumn)
    (visible : List Output) (keys : List Expression) (grouped distinct : Bool) :
    Plan.sortKeys ⟨columns, scope, visible, keys, grouped⟩ distinct =
      Plan.sortKeys ⟨columns, scope', visible, keys, grouped⟩ distinct := by
  have hkey : Plan.sortKey ⟨columns, scope, visible, keys, grouped⟩ distinct =
      Plan.sortKey ⟨columns, scope', visible, keys, grouped⟩ distinct := by
    funext outputs item
    unfold Plan.sortKey
    dsimp only
    rw [h.checkAggregating_eq]
    rfl
  funext outputs items
  induction items generalizing outputs with
  | nil => rfl
  | cons item items ih =>
    unfold Plan.sortKeys
    rw [hkey]
    simp only [ih]

theorem joinRule_eq (h : SameBinds scope scope') (left right : List ResultColumn) :
    Plan.joinRule left right scope = Plan.joinRule left right scope' := by
  funext condition
  unfold Plan.joinRule
  rw [(h.cons _).checkClause_eq]

theorem ofClauses_eq (h : SameBinds scope scope') (body : SelectBody Select) (sources : Plan) :
    Plan.ofClauses body sources scope = Plan.ofClauses body sources scope' := by
  have hinner := h.cons (Frame.ofColumns sources.columns)
  unfold Plan.ofClauses
  dsimp only
  rw [hinner.checkClause_eq, hinner.checkAggregating_eq, hinner.ofItem_eq]
  simp only [hinner.groupKey_eq, hinner.sortKeys_eq]
  rfl

variable {catalog : Catalog}

mutual

/-- A query has the same plan inside both scopes. -/
theorem ofSelect_eq (h : SameBinds scope scope') : ∀ q : Select,
    Plan.ofSelect catalog scope q = Plan.ofSelect catalog scope' q
  | .mk body => ofBody_eq h body

theorem ofBody_eq (h : SameBinds scope scope') : ∀ body : SelectBody Select,
    Plan.ofBody catalog scope body = Plan.ofBody catalog scope' body
  | ⟨_, _, sources, _, _, _, _, _, _⟩ => by
    unfold Plan.ofBody
    rw [ofSources_eq h sources]
    simp only [h.ofClauses_eq]

theorem ofSources_eq (h : SameBinds scope scope') : ∀ sources : List (FromItem Select),
    Plan.ofSources catalog scope sources = Plan.ofSources catalog scope' sources
  | [] => rfl
  | s :: ss => by
    unfold Plan.ofSources
    rw [ofSource_eq h s, ofSources_eq h ss]

theorem ofSource_eq (h : SameBinds scope scope') : ∀ source : FromItem Select,
    Plan.ofSource catalog scope source = Plan.ofSource catalog scope' source
  | .table name label => rfl
  | .derived query label => by
    unfold Plan.ofSource
    rw [ofSelect_eq h query]
  | .join kind l r condition => by
    unfold Plan.ofSource
    rw [ofSource_eq h l, ofSource_eq h r]
    simp only [h.joinRule_eq]

end

end Scope.SameBinds

/-! ## References -/

/-- Every column that the expression refers to is one of some, queries inside it apart. -/
def Expr.refersTo {σ : Type} (named : Option String → String → Bool) (e : Expr σ) : Bool :=
  e.subexpressions.all fun
    | column table name => named table name
    | _ => true

/-- Every column that the query refers to is one of some, as far as queries nest to a depth, and none is left
to `*`. -/
def Select.refersTo (named : Option String → String → Bool) : Nat → Select → Bool
  | 0, _ => true
  | depth + 1, q => q.levels.all fun body => body.items.all (·.expression?.isSome) &&
      body.expressions.all fun e => e.refersTo named && e.queries.all (Select.refersTo named depth)

section

variable {m n : Type → Type} [Monad m] [MonadExceptOf Error m] [Monad n] [MonadExceptOf Error n]

/-- More frames in front of scopes. -/
theorem parallel_value_cons {L : Parallel m n} (hL : L.Total) {scope scope' : Scope}
    {table : Option String} {name : String}
    (h : L.Rel (ofExcept (scope.value table name)) (ofExcept (scope'.value table name))) (f : Frame) :
    L.Rel (ofExcept (Scope.value (f :: scope) table name))
      (ofExcept (Scope.value (f :: scope') table name)) := by
  unfold Scope.value
  cases ResultColumn.resolve f.columns table name with
  | error err => exact L.throw (hL err)
  | ok found =>
    cases found with
    | none => exact h
    | some i => exact L.ofExcept fun _ _ => hL _

end

namespace Services

variable {m n : Type → Type} [Monad m] [LawfulMonad m] [MonadExceptOf Error m] [StopsAtFailure m]
variable [Monad n] [LawfulMonad n] [MonadExceptOf Error n] [StopsAtFailure n]
variable {L : Parallel m n} {s : Services m} {r : Services n} {T : ObjectName → Prop}
variable {F : String → Prop} {named : Option String → String → Bool}

/-- A query inside two scopes with the same columns, where all that it refers to answers in parallel: by
induction on the depth. -/
theorem Agree.query_inside (h : Agree L s r T F) (depth : Nat) (q : Select) {scope scope' : Scope}
    (hcolumns : scope.SameColumns scope')
    (hvalues : ∀ table name, named table name = true →
      L.Rel (ofExcept (scope.value table name)) (ofExcept (scope'.value table name)))
    (hrefers : q.refersTo named depth = true) (htables : ∀ name ∈ q.tablesUpTo depth, T name)
    (hfunctions : ∀ name ∈ q.functionsUpTo depth, F name) :
    L.Rel ((s.access depth).query q scope) ((r.access depth).query q scope') := by
  obtain ⟨c, hs, hr, hscan⟩ := h.catalog
  induction depth generalizing q scope scope' with
  | zero => exact L.throw (h.total _)
  | succ depth ih =>
    show L.Rel (s.runSelect _ q scope) (r.runSelect _ q scope')
    unfold runSelect
    rw [hs, hr, pure_bind, pure_bind, ofExcept_bind, ofExcept_bind, ← hcolumns.sameBinds.ofSelect_eq]
    cases hplan : Plan.ofSelect c scope q with
    | error err => exact L.throw (h.total err)
    | ok p =>
      have hmade := Plan.madeOf_ofSelect hplan
      have hlevels : ∀ body ∈ q.levels, (∀ item ∈ body.items, item.expression?.isSome = true) ∧
          ∀ e ∈ body.expressions, e.refersTo named = true ∧
            ∀ query ∈ e.queries, query.refersTo named depth = true := by
        simpa only [Select.refersTo, List.all_eq_true, Bool.and_eq_true] using hrefers
      refine parallel_run_under h.total p (fun e he => ?_) fun d hd => ?_
      · rcases hmade.expressions e he with ⟨body, hbody, he⟩ | ⟨⟨body, hbody, item, hitem, hall⟩, -⟩
        · obtain ⟨hnamed, hqueries⟩ := (hlevels body hbody).2 e he
          exact
            { h.asks hbody he htables hfunctions with
              inside := fun query hquery f => ih query (hcolumns.cons f)
                (fun table name hname => parallel_value_cons h.total (hvalues table name hname) f)
                (hqueries query hquery)
                (fun name hname =>
                  htables name (Select.mem_tablesUpTo_of_query hbody he hquery hname))
                fun name hname =>
                  hfunctions name (Select.mem_functionsUpTo_of_query hbody he hquery hname)
              column := fun table name hmem f => parallel_value_cons h.total
                (hvalues table name (List.all_eq_true.mp hnamed _ hmem)) f }
        · -- nothing is left to `*`
          have hsome := (hlevels body hbody).1 item hitem
          rw [hall] at hsome
          cases hsome
      · obtain ⟨body, hbody, name, hname, hd⟩ := hmade.scans d hd
        rw [scan_access, scan_access]
        exact hscan name d (htables name (Select.mem_tablesUpTo_of_level hbody hname)) hd

end Services

end SqlStore
