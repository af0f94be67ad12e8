import SqlStore.Proofs.Query.Planned
import SqlStore.Proofs.Run

/-!
# What a query names

A query names tables and functions at its levels and at those of the queries in its expressions. Nothing
else of a database matters to it: two databases with the same definitions of tables that answer in parallel
what is named answer the query in parallel.
-/

namespace SqlStore

namespace Select

/-- The tables that a query names, as far as queries nest to a depth. -/
def tablesUpTo : Nat → Select → List ObjectName
  | 0, _ => []
  | depth + 1, q => q.levels.flatMap fun body =>
      body.tables ++ body.expressions.flatMap fun e => e.queries.flatMap (tablesUpTo depth)

/-- The functions that a query calls, as far as queries nest to a depth. -/
def functionsUpTo : Nat → Select → List String
  | 0, _ => []
  | depth + 1, q => q.levels.flatMap fun body => body.expressions.flatMap fun e =>
      e.functions ++ e.queries.flatMap (functionsUpTo depth)

variable {q query : Select} {depth : Nat} {body : SelectBody Select} {e : Expression}

theorem mem_tablesUpTo_of_level {name : ObjectName} (hbody : body ∈ q.levels)
    (hname : name ∈ body.tables) : name ∈ q.tablesUpTo (depth + 1) :=
  List.mem_flatMap.mpr ⟨body, hbody, List.mem_append_left _ hname⟩

theorem mem_tablesUpTo_of_query {name : ObjectName} (hbody : body ∈ q.levels)
    (he : e ∈ body.expressions) (hquery : query ∈ e.queries)
    (hname : name ∈ query.tablesUpTo depth) : name ∈ q.tablesUpTo (depth + 1) := by
  refine List.mem_flatMap.mpr ⟨body, hbody, List.mem_append_right _ ?_⟩
  exact List.mem_flatMap.mpr ⟨e, he, List.mem_flatMap.mpr ⟨query, hquery, hname⟩⟩

theorem mem_functionsUpTo_of_level {name : String} (hbody : body ∈ q.levels)
    (he : e ∈ body.expressions) (hname : name ∈ e.functions) : name ∈ q.functionsUpTo (depth + 1) :=
  List.mem_flatMap.mpr ⟨body, hbody, List.mem_flatMap.mpr ⟨e, he, List.mem_append_left _ hname⟩⟩

theorem mem_functionsUpTo_of_query {name : String} (hbody : body ∈ q.levels)
    (he : e ∈ body.expressions) (hquery : query ∈ e.queries)
    (hname : name ∈ query.functionsUpTo depth) : name ∈ q.functionsUpTo (depth + 1) := by
  refine List.mem_flatMap.mpr ⟨body, hbody, List.mem_flatMap.mpr ⟨e, he, ?_⟩⟩
  exact List.mem_append_right _ (List.mem_flatMap.mpr ⟨query, hquery, hname⟩)

end Select

namespace Expr

/-- The tables that the queries of an expression name. -/
def tables (e : Expression) : List ObjectName :=
  e.queries.flatMap (Select.tablesUpTo (exprDepth e))

/-- The functions that an expression calls, those inside its queries included. -/
def calls (e : Expression) : List String :=
  e.functions ++ e.queries.flatMap (Select.functionsUpTo (exprDepth e))

end Expr

/-- A failure ends a sequence of calls. -/
class StopsAtFailure (m : Type → Type) [Monad m] [MonadExceptOf Error m] : Prop where
  throw_bind : ∀ {α β : Type} (err : Error) (f : α → m β), (throw err >>= f) = throw err

instance {σ : Type} : StopsAtFailure (Run σ) := ⟨fun _ _ => rfl⟩

instance : StopsAtFailure (Except Error) := ⟨fun _ _ => rfl⟩

theorem ofExcept_bind {m : Type → Type} [Monad m] [LawfulMonad m] [MonadExceptOf Error m]
    [StopsAtFailure m] {α β : Type} (r : Except Error α) (f : α → m β) :
    (ofExcept r >>= f) = match r with
      | .ok a => f a
      | .error err => throw err := by
  cases r with
  | ok a => exact pure_bind a f
  | error err => exact StopsAtFailure.throw_bind err f

namespace Services

variable {m n : Type → Type} [Monad m] [LawfulMonad m] [MonadExceptOf Error m] [StopsAtFailure m]
variable [Monad n] [LawfulMonad n] [MonadExceptOf Error n] [StopsAtFailure n]

/-- Two databases have the same definitions, and answer in parallel for some tables and functions. -/
structure Agree (L : Parallel m n) (s : Services m) (r : Services n) (T : ObjectName → Prop)
    (F : String → Prop) : Prop where
  total : L.Total
  catalog : ∃ c : Catalog, s.catalog = pure c ∧ r.catalog = pure c ∧ ∀ name d, T name →
    c name = .ok d → L.Rel (s.scan d.schema d.name) (r.scan d.schema d.name)
  call : ∀ name, F name → ∀ args, L.Rel (s.call name args) (r.call name args)

namespace Agree

variable {L : Parallel m n} {s : Services m} {r : Services n} {T : ObjectName → Prop}
variable {F : String → Prop}

/-- A query that names only those tables and functions: by induction on the depth. -/
theorem query (h : Agree L s r T F) (depth : Nat) (q : Select) (scope : Scope)
    (htables : ∀ name ∈ q.tablesUpTo depth, T name)
    (hfunctions : ∀ name ∈ q.functionsUpTo depth, F name) :
    L.Rel ((s.access depth).query q scope) ((r.access depth).query q scope) := by
  obtain ⟨c, hs, hr, hscan⟩ := h.catalog
  induction depth generalizing q scope with
  | zero => exact L.throw (h.total _)
  | succ depth ih =>
    show L.Rel (s.runSelect _ q scope) (r.runSelect _ q scope)
    unfold runSelect
    rw [hs, hr, pure_bind, pure_bind, ofExcept_bind, ofExcept_bind]
    cases hplan : Plan.ofSelect c scope q with
    | error err => exact L.throw (h.total err)
    | ok p =>
      -- what the plan asks and reads is named by the levels
      have hmade := Plan.madeOf_ofSelect hplan
      refine parallel_run h.total scope p (fun e he => ?_) fun d hd => ?_
      · rcases hmade.expressions e he with ⟨body, hbody, he⟩ | ⟨-, table, name, rfl⟩
        · refine ⟨fun query hquery inner => ih query inner ?_ ?_, fun name hname => ?_⟩
          · exact fun name hname =>
              htables name (Select.mem_tablesUpTo_of_query hbody he hquery hname)
          · exact fun name hname =>
              hfunctions name (Select.mem_functionsUpTo_of_query hbody he hquery hname)
          · rw [call_access, call_access]
            exact h.call name (hfunctions name (Select.mem_functionsUpTo_of_level hbody he hname))
        · exact ⟨nofun, nofun⟩
      · obtain ⟨body, hbody, name, hname, hd⟩ := hmade.scans d hd
        rw [scan_access, scan_access]
        exact hscan name d (htables name (Select.mem_tablesUpTo_of_level hbody hname)) hd

/-- An expression at a level of such a query. -/
theorem asks (h : Agree L s r T F) {depth : Nat} {q : Select} {body : SelectBody Select}
    {e : Expression} (hbody : body ∈ q.levels) (he : e ∈ body.expressions)
    (htables : ∀ name ∈ q.tablesUpTo (depth + 1), T name)
    (hfunctions : ∀ name ∈ q.functionsUpTo (depth + 1), F name) :
    e.Asks L (s.access depth).toSurroundings (r.access depth).toSurroundings where
  query query hquery scope := h.query depth query scope
    (fun name hname => htables name (Select.mem_tablesUpTo_of_query hbody he hquery hname))
    fun name hname => hfunctions name (Select.mem_functionsUpTo_of_query hbody he hquery hname)
  call name hname := by
    rw [call_access, call_access]
    exact h.call name (hfunctions name (Select.mem_functionsUpTo_of_level hbody he hname))

/-- An expression that names only those tables and functions. -/
theorem evaluate (h : Agree L s r T F) (scope : Scope) {e : Expression}
    (htables : ∀ name ∈ e.tables, T name) (hcalls : ∀ name ∈ e.calls, F name) :
    L.Rel (s.evaluate scope e) (r.evaluate scope e) := by
  refine SqlStore.parallel_evaluate h.total ⟨fun q hq inner => h.query _ q inner ?_ ?_, ?_⟩ scope
  · exact fun name hname => htables name (List.mem_flatMap.mpr ⟨q, hq, hname⟩)
  · exact fun name hname =>
      hcalls name (List.mem_append_right _ (List.mem_flatMap.mpr ⟨q, hq, hname⟩))
  · intro name hname
    rw [call_access, call_access]
    exact h.call name (hcalls name (List.mem_append_left _ hname))

end Agree

end Services

end SqlStore
