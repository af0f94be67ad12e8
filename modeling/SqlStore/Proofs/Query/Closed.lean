import SqlStore.Proofs.Query.Depth
import SqlStore.Proofs.Query.OuterScope

/-!
# Queries that need no surroundings

A reference belongs to the innermost frame that has its name, so what is found without the frames around a
query is found in the same place with them. A query that succeeds on its own therefore has the same plan
inside any scope, and its plan comes to the same there.
-/

namespace SqlStore

open Run

namespace Parallel

/-- Where the one check is passed, the other gives the same. -/
def passing : Parallel (Except Error) (Except Error) where
  Rel x y := ∀ a, x = .ok a → y = .ok a
  Admits _ := True
  pure _ _ h := h
  throw _ _ h := nomatch h
  bind hc hf b h := by
    obtain ⟨a, ha, h⟩ := Except.exists_of_bind_eq_ok h
    rw [hc a ha]
    exact hf a b h

/-- Where the one call succeeds, the other comes to the same. -/
def succeeding {σ : Type} : Parallel (Run σ) (Run σ) where
  Rel c d := ∀ s a t, exec c s = (.ok a, t) → exec d s = (.ok a, t)
  Admits _ := True
  pure _ _ _ _ h := h
  throw _ _ _ _ h := nomatch h
  bind hc hf s b t h := by
    obtain ⟨a, u, ha, h⟩ := exec_bind_eq_ok h
    rw [exec_bind_ok (hc s a u ha)]
    exact hf a u b t h

theorem total_succeeding {σ : Type} : (succeeding : Parallel (Run σ) (Run σ)).Total := fun _ => trivial

/-- The same check on both sides. -/
theorem passing_self {α : Type} (x : Except Error α) : passing.Rel x x := fun _ h => h

end Parallel

open Parallel (passing passing_self succeeding)

theorem succeeding_ofExcept {σ α : Type} {x y : Except Error α} (h : passing.Rel x y) :
    (succeeding : Parallel (Run σ) (Run σ)).Rel (ofExcept x) (ofExcept y) := by
  intro s a t hx
  rw [exec_ofExcept] at hx ⊢
  cases hx
  rw [h a rfl]

/-! ## References -/

namespace Scope

variable {table : Option String} {name : String}

/-- What a name has for a value stays its value when more frames are put around. -/
theorem value_append (scope outer : Scope) :
    passing.Rel (scope.value table name) ((scope ++ outer).value table name) := by
  induction scope with
  | nil => exact fun _ h => nomatch h
  | cons f scope ih =>
    rw [List.cons_append]
    unfold value
    refine passing.bind (passing_self _) fun found => ?_
    cases found with
    | none => exact ih
    | some i => exact passing_self _

/-- A name that is bound stays bound. -/
theorem binds_append {scope : Scope} (outer : Scope) (h : scope.binds table name = .ok true) :
    (scope ++ outer).binds table name = .ok true := by
  induction scope with
  | nil => cases h
  | cons f scope ih =>
    rw [List.cons_append]
    unfold binds at h ⊢
    obtain ⟨found, hfound, h⟩ := Except.exists_of_bind_eq_ok h
    rw [hfound]
    cases found with
    | none => exact ih h
    | some i => rfl

theorem checkReference_append {σ : Type} (scope outer : Scope) (e : Expr σ) :
    passing.Rel (e.checkReference scope) (e.checkReference (scope ++ outer)) := by
  cases e with
  | column table name =>
    rintro ⟨⟩ h
    obtain ⟨bound, hbound, h⟩ := Except.exists_of_bind_eq_ok h
    cases bound with
    | false => cases h
    | true =>
      show ((scope ++ outer).binds table name >>= fun bound =>
        if !bound then throw (ResultColumn.unknown table name) else pure ()) = _
      rw [binds_append outer hbound]
      rfl
  | _ => exact passing_self _

/-! ## Planning -/

section

variable {σ : Type} (scope outer : Scope)

theorem checkColumns_append (e : Expr σ) :
    passing.Rel (e.checkColumns scope) (e.checkColumns (scope ++ outer)) :=
  passing.forM fun x _ => checkReference_append scope outer x

theorem checkClause_append (clause : String) (e : Expr σ) :
    passing.Rel (e.checkClause scope clause) (e.checkClause (scope ++ outer) clause) :=
  passing.bind (passing_self _) fun _ => checkColumns_append scope outer e

theorem checkAggregating_append (e : Expr σ) :
    passing.Rel (e.checkAggregating scope) (e.checkAggregating (scope ++ outer)) :=
  passing.bind (checkColumns_append scope outer e) fun _ => passing_self _

theorem ofItem_append (noSources : Bool) (columns : List ResultColumn) (item : SelectItem Select) :
    passing.Rel (Output.ofItem noSources columns scope item)
      (Output.ofItem noSources columns (scope ++ outer) item) := by
  cases item with
  | expr e label => exact passing.bind (checkAggregating_append scope outer e) fun _ => passing_self _
  | _ => exact passing_self _

theorem groupKey_append (columns : List ResultColumn) (outputs : List Output) (e : Expression) :
    passing.Rel (Plan.groupKey columns outputs scope e)
      (Plan.groupKey columns outputs (scope ++ outer) e) := by
  have hkey : ∀ key : Expression, passing.Rel
      (do
        key.checkClause scope "GROUP BY"
        return key)
      (do
        key.checkClause (scope ++ outer) "GROUP BY"
        return key) :=
    fun key => passing.bind (checkClause_append scope outer "GROUP BY" key) fun _ => passing_self _
  unfold Plan.groupKey
  split
  · exact passing.bind (passing_self _) fun _ => passing.bind (passing_self _) hkey
  · refine passing.bind (passing_self _) fun found => ?_
    cases found with
    | none => exact passing.bind (passing_self _) hkey
    | some i => exact passing.bind (passing_self _) hkey
  · exact passing.bind (passing_self _) hkey

theorem sortKey_append (columns : List ResultColumn) (visible : List Output) (keys : List Expression)
    (grouped distinct : Bool) (outputs : List Output) (item : OrderItem Select) :
    passing.Rel (Plan.sortKey ⟨columns, scope, visible, keys, grouped⟩ distinct outputs item)
      (Plan.sortKey ⟨columns, scope ++ outer, visible, keys, grouped⟩ distinct outputs item) := by
  unfold Plan.sortKey
  dsimp only
  split
  · exact passing_self _
  · split
    · exact passing_self _
    · refine passing.bind (passing_self _) fun _ => ?_
      exact passing.bind (checkAggregating_append scope outer _) fun _ => passing_self _

theorem sortKeys_append (columns : List ResultColumn) (visible : List Output)
    (keys : List Expression) (grouped distinct : Bool) (outputs : List Output)
    (items : List (OrderItem Select)) :
    passing.Rel (Plan.sortKeys ⟨columns, scope, visible, keys, grouped⟩ distinct outputs items)
      (Plan.sortKeys ⟨columns, scope ++ outer, visible, keys, grouped⟩ distinct outputs items) := by
  induction items generalizing outputs with
  | nil => exact passing_self _
  | cons item items ih =>
    unfold Plan.sortKeys
    refine passing.bind (sortKey_append scope outer columns visible keys grouped distinct _ item) ?_
    rintro ⟨outputs, key⟩
    exact passing.bind (ih outputs) fun _ => passing_self _

theorem joinRule_append (left right : List ResultColumn) (condition : JoinCondition Select) :
    passing.Rel (Plan.joinRule left right scope condition)
      (Plan.joinRule left right (scope ++ outer) condition) := by
  cases condition with
  | on e =>
    exact passing.bind (checkClause_append (.ofColumns (left ++ right) :: scope) outer _ e)
      fun _ => passing_self _
  | _ => exact passing_self _

theorem ofClauses_append (body : SelectBody Select) (sources : Plan) :
    passing.Rel (Plan.ofClauses body sources scope) (Plan.ofClauses body sources (scope ++ outer)) := by
  unfold Plan.ofClauses
  dsimp only
  cases body.filter
  case' some e =>
    refine passing.bind (checkClause_append (.ofColumns sources.columns :: scope) outer "WHERE" e) ?_
    intro _
  -- behind the filter all is the same with and without one
  all_goals
    refine passing.bind (passing_self _) fun source => ?_
    refine passing.bind (passing.mapM fun item _ => ofItem_append (_ :: scope) outer _ _ item) ?_
    intro visible
    refine passing.bind (passing.mapM fun e _ => groupKey_append (_ :: scope) outer _ _ e) ?_
    intro keys
    refine passing.bind ?_ fun _ => ?_
    · cases body.having with
      | none => exact passing_self _
      | some e => exact checkAggregating_append (_ :: scope) outer e
    -- grouping is a matter of the columns of the sources alone
    refine passing.bind (passing_self _) fun _ => passing.bind (passing_self _) fun _ => ?_
    exact passing.bind (sortKeys_append (_ :: scope) outer _ _ _ _ _ _ _) fun _ => passing_self _

variable {catalog : Catalog}

mutual

/-- A query that has a plan in a scope has the same plan when more frames are put around. -/
theorem ofSelect_append : ∀ q : Select,
    passing.Rel (Plan.ofSelect catalog scope q) (Plan.ofSelect catalog (scope ++ outer) q)
  | .mk body => ofBody_append body

theorem ofBody_append : ∀ body : SelectBody Select,
    passing.Rel (Plan.ofBody catalog scope body) (Plan.ofBody catalog (scope ++ outer) body)
  | ⟨_, _, sources, _, _, _, _, _, _⟩ => by
    unfold Plan.ofBody
    exact passing.bind (ofSources_append sources) fun plans => ofClauses_append scope outer _ _

theorem ofSources_append : ∀ sources : List (FromItem Select),
    passing.Rel (Plan.ofSources catalog scope sources) (Plan.ofSources catalog (scope ++ outer) sources)
  | [] => passing_self _
  | s :: ss => by
    unfold Plan.ofSources
    refine passing.bind (ofSource_append s) fun _ => ?_
    exact passing.bind (ofSources_append ss) fun _ => passing_self _

theorem ofSource_append : ∀ source : FromItem Select,
    passing.Rel (Plan.ofSource catalog scope source) (Plan.ofSource catalog (scope ++ outer) source)
  | .table _ _ => passing_self _
  | .derived query label => by
    unfold Plan.ofSource
    exact passing.bind (ofSelect_append query) fun _ => passing_self _
  | .join kind l r condition => by
    unfold Plan.ofSource
    refine passing.bind (ofSource_append l) fun left => ?_
    refine passing.bind (ofSource_append r) fun right => ?_
    exact passing.bind (joinRule_append scope outer _ _ condition) fun _ => passing_self _

end

end

end Scope

/-! ## Running -/

namespace Services

variable {σ : Type} (s : Services (Run σ))

/-- A query that succeeds in a scope comes to the same when more frames are put around: by induction on the
depth, since the queries inside it stand in a scope of their own frame and its own. -/
theorem query_append (depth : Nat) : ∀ (q : Select) (scope outer : Scope),
    succeeding.Rel ((s.access depth).query q scope) ((s.access depth).query q (scope ++ outer)) := by
  induction depth with
  | zero => exact fun _ _ _ _ _ _ h => nomatch h
  | succ depth ih =>
    intro q scope outer
    refine succeeding.bind (fun _ _ _ h => h) fun catalog => ?_
    refine succeeding.bind (succeeding_ofExcept (Scope.ofSelect_append scope outer q)) ?_
    intro plan
    refine parallel_run_under Parallel.total_succeeding plan (fun e _ => ?_) fun d _ _ _ _ h => h
    exact
      { query := fun _ _ _ _ _ _ h => h
        call := fun _ _ _ _ _ _ h => h
        inside := fun query _ f => ih query (f :: scope) outer
        column := fun table name _ f =>
          succeeding_ofExcept (Scope.value_append (f :: scope) outer) }

end Services

end SqlStore
