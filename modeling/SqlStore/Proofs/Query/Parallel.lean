import SqlStore.Proofs.Query.Operands
import SqlStore.Query.Execution

/-!
# Queries in parallel

Evaluating an expression and running a plan have no effect and no decision of their own beyond what
they ask of their surroundings. `Parallel m n` is a relation between calls with effects of two kinds
that goes through sequences of calls; if it holds of what two surroundings answer, then it holds of the
same expression, plan or query over the one and over the other. Which failures may occur is part of the
relation, so a relation can also say that some of them never do.

The proofs follow the recursion on expressions, on plans, and on the depth of queries inside queries.
-/

namespace SqlStore

/-- A relation between calls with effects of two kinds. Equal results are related, equal failures as
far as they are admitted, and sequences of related calls. -/
structure Parallel (m n : Type → Type) [Monad m] [MonadExceptOf Error m] [Monad n]
    [MonadExceptOf Error n] where
  Rel : {α : Type} → m α → n α → Prop
  Admits : Error → Prop
  pure : ∀ {α : Type} (a : α), Rel (pure a : m α) (pure a)
  throw : ∀ {α : Type} {err : Error}, Admits err → Rel (throw err : m α) (throw err)
  bind : ∀ {α β : Type} {c : m α} {d : n α} {f : α → m β} {g : α → n β},
    Rel c d → (∀ a, Rel (f a) (g a)) → Rel (c >>= f) (d >>= g)

variable {m n : Type → Type} [Monad m] [MonadExceptOf Error m] [Monad n] [MonadExceptOf Error n]

namespace Parallel

variable (L : Parallel m n) {α β : Type}

/-- Every failure is admitted. -/
def Total : Prop := ∀ err, L.Admits err

theorem ofExcept {r : Except Error α} (h : ∀ err, r = .error err → L.Admits err) :
    L.Rel (ofExcept r : m α) (ofExcept r) := by
  cases r with
  | ok a => exact L.pure a
  | error err => exact L.throw (h err rfl)

theorem ite {p : Prop} [Decidable p] {c c' : m α} {d d' : n α} (hc : L.Rel c d)
    (hc' : L.Rel c' d') : L.Rel (if p then c else c') (if p then d else d') := by
  split
  · exact hc
  · exact hc'

theorem mapM_loop {f : α → m β} {g : α → n β} {xs : List α} (h : ∀ a ∈ xs, L.Rel (f a) (g a))
    (done : List β) : L.Rel (List.mapM.loop f xs done) (List.mapM.loop g xs done) := by
  induction xs generalizing done with
  | nil => exact L.pure _
  | cons x xs ih =>
    obtain ⟨hx, hxs⟩ := List.forall_mem_cons.mp h
    exact L.bind hx fun b => ih hxs (b :: done)

theorem mapM {f : α → m β} {g : α → n β} {xs : List α} (h : ∀ a ∈ xs, L.Rel (f a) (g a)) :
    L.Rel (xs.mapM f) (xs.mapM g) := L.mapM_loop h []

theorem forM {f : α → m PUnit} {g : α → n PUnit} {xs : List α} (h : ∀ a ∈ xs, L.Rel (f a) (g a)) :
    L.Rel (xs.forM f) (xs.forM g) := by
  induction xs with
  | nil => exact L.pure _
  | cons x xs ih =>
    obtain ⟨hx, hxs⟩ := List.forall_mem_cons.mp h
    exact L.bind hx fun _ => ih hxs

theorem foldlM {f : β → α → m β} {g : β → α → n β} {xs : List α}
    (h : ∀ a ∈ xs, ∀ b, L.Rel (f b a) (g b a)) (b : β) : L.Rel (xs.foldlM f b) (xs.foldlM g b) := by
  induction xs generalizing b with
  | nil => exact L.pure b
  | cons x xs ih =>
    obtain ⟨hx, hxs⟩ := List.forall_mem_cons.mp h
    rw [List.foldlM_cons, List.foldlM_cons]
    exact L.bind (hx b) fun b => ih hxs b

end Parallel

/-! ## Expressions -/

/-- The failures of what expressions do with values have a property. -/
structure Operations (A : Error → Prop) : Prop where
  truth : ∀ {clause v err}, Truth.ofValue clause v = .error err → A err
  unary : ∀ {op : UnaryOp} {v err}, op.apply v = .error err → A err
  /-- AND and OR are not applied to values. -/
  binary : ∀ {op : BinaryOp} {v w err}, op ≠ .and → op ≠ .or → op.apply v w = .error err → A err
  compare : ∀ {v w : Value} {err}, v.compare w = .error err → A err
  between : ∀ {v low high err}, applyBetween v low high = .error err → A err
  like : ∀ {v pattern ignoreCase err}, applyLike v pattern ignoreCase = .error err → A err
  convert : ∀ {type : DataType} {v err}, type.convert v = .error err → A err
  branch : ∀ {operand condition err}, Expr.takesBranch operand condition = .error err → A err
  reduce : ∀ {f : AggregateFunction} {distinct values err},
    f.reduce distinct values = .error err → A err
  queryMembership : ∀ {v r negated err}, Expr.queryMembership v r negated = .error err → A err
  queryValue : ∀ {r err}, Expr.queryValue r = .error err → A err

theorem operations_of_forall {A : Error → Prop} (h : ∀ err, A err) : Operations A := by
  constructor <;> intros <;> exact h _

theorem Operations.mono {A B : Error → Prop} (h : Operations A) (hAB : ∀ err, A err → B err) :
    Operations B where
  truth herr := hAB _ (h.truth herr)
  unary herr := hAB _ (h.unary herr)
  binary hand hor herr := hAB _ (h.binary hand hor herr)
  compare herr := hAB _ (h.compare herr)
  between herr := hAB _ (h.between herr)
  like herr := hAB _ (h.like herr)
  convert herr := hAB _ (h.convert herr)
  branch herr := hAB _ (h.branch herr)
  reduce herr := hAB _ (h.reduce herr)
  queryMembership herr := hAB _ (h.queryMembership herr)
  queryValue herr := hAB _ (h.queryValue herr)

/-- The failure of an aggregate where there are no groups. -/
def AggregateFunction.notAllowed (f : AggregateFunction) : Error :=
  .execution ("aggregate function " ++ f.name ++ " is not allowed here")

namespace Expr

variable {σ : Type}

/-- What makes expressions run in parallel over two surroundings: a property that goes from an
expression in its scope to what is evaluated inside it, and that leaves only admitted failures and
related answers to what is asked of scope and surroundings. -/
structure Evaluable (L : Parallel m n) (a : Surroundings σ m) (b : Surroundings σ n)
    (Ok : Scope → Expr σ → Prop) : Prop where
  operations : Operations L.Admits
  operand : ∀ {scope e x}, Ok scope e → e.isAggregate = false → x ∈ e.operands → Ok scope x
  argument : ∀ {scope f distinct e rows row}, Ok scope (.aggregate f distinct (some e)) →
    scope.group? = some rows → row ∈ rows → Ok (scope.ofGroupRow row) e
  column : ∀ {scope table name err}, Ok scope (.column table name) →
    scope.value table name = .error err → L.Admits err
  grouped : ∀ {scope f distinct arg}, Ok scope (.aggregate f distinct arg) →
    scope.group? = none → L.Admits f.notAllowed
  query : ∀ {scope e q}, Ok scope e → e.ownQuery? = some q → L.Rel (a.query q scope) (b.query q scope)
  call : ∀ {scope name args}, Ok scope (.call name args) →
    ∀ values, L.Rel (a.call name values) (b.call name values)

section

variable {L : Parallel m n} {a : Surroundings σ m} {b : Surroundings σ n}
variable {scope scope' : Scope}

theorem parallel_evaluateAll {es : List (Expr σ)}
    (h : ∀ e ∈ es, L.Rel (e.evaluate a scope) (e.evaluate b scope')) :
    L.Rel (evaluateAll a scope es) (evaluateAll b scope' es) := by
  induction es with
  | nil =>
    rw [evaluateAll, evaluateAll]
    exact L.pure _
  | cons e es ih =>
    obtain ⟨he, hes⟩ := List.forall_mem_cons.mp h
    rw [evaluateAll, evaluateAll]
    exact L.bind he fun _ => L.bind (ih hes) fun _ => L.pure _

theorem parallel_evaluateOption {o : Option (Expr σ)}
    (h : ∀ e ∈ o.toList, L.Rel (e.evaluate a scope) (e.evaluate b scope')) :
    L.Rel (evaluateOption a scope o) (evaluateOption b scope' o) := by
  cases o with
  | none =>
    rw [evaluateOption, evaluateOption]
    exact L.pure _
  | some e =>
    rw [evaluateOption, evaluateOption]
    exact L.bind (h e (by simp)) fun _ => L.pure _

theorem parallel_findIn (ho : Operations L.Admits) {es : List (Expr σ)}
    (h : ∀ e ∈ es, L.Rel (e.evaluate a scope) (e.evaluate b scope')) (v : Value) (result : Truth) :
    L.Rel (findIn a scope v result es) (findIn b scope' v result es) := by
  induction es generalizing result with
  | nil =>
    rw [findIn, findIn]
    exact L.pure _
  | cons e es ih =>
    obtain ⟨he, hes⟩ := List.forall_mem_cons.mp h
    rw [findIn, findIn]
    refine L.bind he fun w => L.bind (L.ofExcept fun _ => ho.compare) fun order => ?_
    -- the search ends at a match, and NULL makes its answer unknown
    split
    · exact L.pure _
    · exact ih hes result
    · exact ih hes none

theorem parallel_firstBranch (ho : Operations L.Admits) {branches : List (Expr σ × Expr σ)}
    (h : ∀ e ∈ branches.flatMap (fun b => [b.1, b.2]),
      L.Rel (e.evaluate a scope) (e.evaluate b scope')) (operand : Option Value) :
    L.Rel (firstBranch a scope operand branches) (firstBranch b scope' operand branches) := by
  induction branches with
  | nil =>
    rw [firstBranch, firstBranch]
    exact L.pure _
  | cons branch branches ih =>
    rcases branch with ⟨condition, result⟩
    have hcondition := h condition (by simp)
    have hresult := h result (by simp)
    rw [firstBranch, firstBranch]
    refine L.bind hcondition fun _ => L.bind (L.ofExcept fun _ => ho.branch) fun taken => ?_
    refine L.ite (L.bind hresult fun _ => L.pure _) (ih fun e he => h e ?_)
    exact List.mem_append_right _ he

theorem parallel_evaluateRows {o : Option (Expr σ)} {rows : List Tuple}
    (h : ∀ e ∈ o.toList, ∀ row ∈ rows,
      L.Rel (e.evaluate a (scope.ofGroupRow row)) (e.evaluate b (scope'.ofGroupRow row))) :
    L.Rel (evaluateRows a scope rows o) (evaluateRows b scope' rows o) := by
  cases o with
  | none =>
    rw [evaluateRows, evaluateRows]
    exact L.pure _
  | some e =>
    rw [evaluateRows, evaluateRows]
    exact L.mapM fun row hrow => h e (by simp) row hrow

end

section

variable {L : Parallel m n} {a : Surroundings σ m} {b : Surroundings σ n}

/-- AND and OR stop after the left side if it decides. -/
theorem parallel_lazy (ho : Operations L.Admits) {scope scope' : Scope} {l r : Expr σ}
    (hl : L.Rel (l.evaluate a scope) (l.evaluate b scope'))
    (hr : L.Rel (r.evaluate a scope) (r.evaluate b scope')) (clause : String) (p : Truth → Bool)
    (v : Value) (join : Truth → Truth → Truth) :
    L.Rel
      (do
        let x ← ofExcept (Truth.ofValue clause (← l.evaluate a scope))
        if p x then return v
        let y ← ofExcept (Truth.ofValue clause (← r.evaluate a scope))
        return (join x y).toValue)
      (do
        let x ← ofExcept (Truth.ofValue clause (← l.evaluate b scope'))
        if p x then return v
        let y ← ofExcept (Truth.ofValue clause (← r.evaluate b scope'))
        return (join x y).toValue) := by
  refine L.bind hl fun _ => L.bind (L.ofExcept fun _ => ho.truth) fun x => ?_
  refine L.ite (L.pure _) (L.bind hr fun _ => L.bind (L.ofExcept fun _ => ho.truth) fun _ => ?_)
  exact L.pure _

/-- What makes an expression run in parallel over two surroundings, in a scope on each side: a property
that goes from an expression to its operands, and that leaves related answers to what is asked of scopes
and surroundings. What an aggregate comes to may use that this is so of its argument. -/
structure Related (L : Parallel m n) (a : Surroundings σ m) (b : Surroundings σ n)
    (Ok : Scope → Scope → Expr σ → Prop) : Prop where
  operations : Operations L.Admits
  operand : ∀ {scope scope' e x}, Ok scope scope' e → e.isAggregate = false → x ∈ e.operands →
    Ok scope scope' x
  column : ∀ {scope scope' table name}, Ok scope scope' (.column table name) →
    L.Rel (ofExcept (scope.value table name)) (ofExcept (scope'.value table name))
  aggregate : ∀ {scope scope' f distinct arg}, Ok scope scope' (.aggregate f distinct arg) →
    (∀ e ∈ arg.toList, ∀ scope scope', Ok scope scope' e →
      L.Rel (e.evaluate a scope) (e.evaluate b scope')) →
    L.Rel ((Expr.aggregate f distinct arg).evaluate a scope)
      ((Expr.aggregate f distinct arg).evaluate b scope')
  query : ∀ {scope scope' e q}, Ok scope scope' e → e.ownQuery? = some q →
    L.Rel (a.query q scope) (b.query q scope')
  call : ∀ {scope scope' name args}, Ok scope scope' (.call name args) →
    ∀ values, L.Rel (a.call name values) (b.call name values)

/-- One expression over two surroundings, in a scope on each side. -/
theorem related_evaluate {Ok : Scope → Scope → Expr σ → Prop} (h : Related L a b Ok) (e : Expr σ) :
    ∀ scope scope', Ok scope scope' e → L.Rel (e.evaluate a scope) (e.evaluate b scope') := by
  have ho := h.operations
  induction e using induction_operands with
  | h e ih =>
  intro scope scope' hok
  -- what stands inside an expression that is no aggregate is evaluated in the same scopes
  have inside (hplain : e.isAggregate = false) :
      ∀ x ∈ e.operands, L.Rel (x.evaluate a scope) (x.evaluate b scope') :=
    fun x hx => ih x hx scope scope' (h.operand hok hplain hx)
  cases e with
  | literal v =>
    rw [evaluate, evaluate]
    exact L.pure v
  | column table name =>
    rw [evaluate, evaluate]
    exact h.column hok
  | unary op e =>
    have he := inside rfl e (by simp [operands])
    cases op <;> rw [evaluate, evaluate]
    case not => exact L.bind he fun _ => L.bind (L.ofExcept fun _ => ho.truth) fun _ => L.pure _
    all_goals first
      | exact L.bind he fun _ => L.ofExcept fun _ => ho.unary
      | exact UnaryOp.noConfusion
  | binary op l r =>
    have hl := inside rfl l (by simp [operands])
    have hr := inside rfl r (by simp [operands])
    cases op <;> rw [evaluate, evaluate]
    case and => exact parallel_lazy ho hl hr "AND" (· == some false) (.boolean false) Truth.and
    case or => exact parallel_lazy ho hl hr "OR" (· == some true) (.boolean true) Truth.or
    all_goals first
      | exact L.bind hl fun _ => L.bind hr fun _ => L.ofExcept fun _ => ho.binary (by decide) (by decide)
      | exact BinaryOp.noConfusion
  | isNull e negated =>
    rw [evaluate, evaluate]
    exact L.bind (inside rfl e (by simp [operands])) fun _ => L.pure _
  | inList e items negated =>
    rw [evaluate, evaluate]
    refine L.bind (inside rfl e (by simp [operands])) fun v => L.bind ?_ fun _ => L.pure _
    exact parallel_findIn ho (fun x hx => inside rfl x (List.mem_cons_of_mem e hx)) v _
  | inQuery e q negated =>
    rw [evaluate, evaluate]
    refine L.bind (inside rfl e (by simp [operands])) fun _ => L.bind (h.query hok rfl) fun _ => ?_
    exact L.ofExcept fun _ => ho.queryMembership
  | between e low high negated =>
    rw [evaluate, evaluate]
    refine L.bind (inside rfl e (by simp [operands])) fun _ => ?_
    refine L.bind (inside rfl low (by simp [operands])) fun _ => ?_
    refine L.bind (inside rfl high (by simp [operands])) fun _ => ?_
    exact L.bind (L.ofExcept fun _ => ho.between) fun _ => L.pure _
  | like e pattern negated ignoreCase =>
    rw [evaluate, evaluate]
    refine L.bind (inside rfl e (by simp [operands])) fun _ => ?_
    refine L.bind (inside rfl pattern (by simp [operands])) fun _ => ?_
    exact L.bind (L.ofExcept fun _ => ho.like) fun _ => L.pure _
  | cases operand branches otherwise =>
    rw [evaluate, evaluate]
    refine L.bind (parallel_evaluateOption fun x hx => inside rfl x ?_) fun v => ?_
    · exact List.mem_append_left _ hx
    refine L.bind (parallel_firstBranch ho (fun x hx => inside rfl x ?_) v) fun taken => ?_
    · exact List.mem_append_right _ (List.mem_append_left _ hx)
    -- ELSE is evaluated only if no branch was taken
    cases taken with
    | some result => exact L.pure _
    | none =>
      refine L.bind (parallel_evaluateOption fun x hx => inside rfl x ?_) fun _ => L.pure _
      exact List.mem_append_right _ (List.mem_append_right _ hx)
  | cast e type =>
    rw [evaluate, evaluate]
    exact L.bind (inside rfl e (by simp [operands])) fun _ => L.ofExcept fun _ => ho.convert
  | exists_ q =>
    rw [evaluate, evaluate]
    exact L.bind (h.query hok rfl) fun _ => L.pure _
  | subquery q =>
    rw [evaluate, evaluate]
    exact L.bind (h.query hok rfl) fun _ => L.ofExcept fun _ => ho.queryValue
  | call name args =>
    rw [evaluate, evaluate]
    exact L.bind (parallel_evaluateAll fun x hx => inside rfl x hx) fun _ => h.call hok _
  | aggregate f distinct arg => exact h.aggregate hok fun x hx => ih x hx

variable {Ok : Scope → Expr σ → Prop}

/-- The same scope on both sides. -/
theorem Evaluable.related (h : Evaluable L a b Ok) :
    Related L a b fun scope scope' e => scope = scope' ∧ Ok scope e where
  operations := h.operations
  operand := by
    rintro scope _ e x ⟨rfl, hok⟩ hplain hx
    exact ⟨rfl, h.operand hok hplain hx⟩
  column := by
    rintro scope _ table name ⟨rfl, hok⟩
    exact L.ofExcept fun _ => h.column hok
  aggregate := by
    rintro scope _ f distinct arg ⟨rfl, hok⟩ ih
    rw [evaluate, evaluate]
    cases hgroup : scope.group? with
    | none => exact L.throw (h.grouped hok hgroup)
    | some rows =>
      refine L.bind (parallel_evaluateRows fun e he row hrow => ih e he _ _ ⟨rfl, ?_⟩) fun _ => ?_
      · rw [Option.mem_toList] at he
        cases he
        exact h.argument hok hgroup hrow
      · exact L.ofExcept fun _ => h.operations.reduce
  query := by
    rintro scope _ e q ⟨rfl, hok⟩ hq
    exact h.query hok hq
  call := by
    rintro scope _ name args ⟨rfl, hok⟩
    exact h.call hok

/-- One expression over two surroundings. -/
theorem parallel_evaluate (h : Evaluable L a b Ok) (e : Expr σ) :
    ∀ scope, Ok scope e → L.Rel (e.evaluate a scope) (e.evaluate b scope) :=
  fun scope hok => related_evaluate h.related e scope scope ⟨rfl, hok⟩

theorem parallel_holds (h : Evaluable L a b Ok) {e : Expr σ} {scope : Scope} (hok : Ok scope e)
    (clause : String) : L.Rel (e.holds a scope clause) (e.holds b scope clause) :=
  L.bind (parallel_evaluate h e scope hok) fun _ =>
    L.bind (L.ofExcept fun _ => h.operations.truth) fun _ => L.pure _

/-- Without a look at scopes: the queries and the functions that an expression asks answer in
parallel. -/
structure Asks (L : Parallel m n) (a : Surroundings σ m) (b : Surroundings σ n) (e : Expr σ) :
    Prop where
  query : ∀ q ∈ e.queries, ∀ scope, L.Rel (a.query q scope) (b.query q scope)
  call : ∀ name ∈ e.functions, ∀ args, L.Rel (a.call name args) (b.call name args)

theorem Asks.operand {e x : Expr σ} (h : e.Asks L a b) (hx : x ∈ e.operands) : x.Asks L a b :=
  ⟨fun q hq => h.query q (mem_queries_of_operand hx hq),
    fun name hname => h.call name (mem_functions_of_operand hx hname)⟩

theorem evaluable_of_asks (hL : L.Total) : Evaluable L a b fun _ e => e.Asks L a b where
  operations := operations_of_forall hL
  operand hok _ hx := hok.operand hx
  argument hok _ _ := hok.operand (by simp [operands])
  column _ _ := hL _
  grouped _ _ := hL _
  query hok hq := hok.query _ (mem_queries_of_own hq) _
  call hok := hok.call _ (mem_functions_of_own rfl)

/-- What an expression asks in a frame of its own inside an outer scope, another one on each side: also its
column references answer in parallel. -/
structure AsksUnder (L : Parallel m n) (a : Surroundings σ m) (b : Surroundings σ n)
    (outer outer' : Scope) (e : Expr σ) : Prop extends e.Asks L a b where
  inside : ∀ q ∈ e.queries, ∀ f, L.Rel (a.query q (f :: outer)) (b.query q (f :: outer'))
  column : ∀ table name, .column table name ∈ e.subexpressions → ∀ f : Frame,
    L.Rel (ofExcept (Scope.value (f :: outer) table name) : m Value)
      (ofExcept (Scope.value (f :: outer') table name))

theorem Asks.under (hL : L.Total) {e : Expr σ} (h : e.Asks L a b) (outer : Scope) :
    e.AsksUnder L a b outer outer :=
  { h with
    inside := fun q hq f => h.query q hq (f :: outer)
    column := fun _ _ _ _ => L.ofExcept fun _ _ => hL _ }

variable {outer outer' : Scope} {e : Expr σ}

theorem AsksUnder.operand (h : e.AsksUnder L a b outer outer') {x : Expr σ} (hx : x ∈ e.operands) :
    x.AsksUnder L a b outer outer' :=
  { h.toAsks.operand hx with
    inside := fun q hq => h.inside q (mem_queries_of_operand hx hq)
    column := fun table name hmem => h.column table name (mem_subexpressions_of_operand hx hmem) }

theorem AsksUnder.evaluate (hL : L.Total) (h : e.AsksUnder L a b outer outer') (f : Frame) :
    L.Rel (e.evaluate a (f :: outer)) (e.evaluate b (f :: outer')) := by
  have hrelated : Related L a b fun scope scope' e => ∃ f : Frame, scope = f :: outer ∧
      scope' = f :: outer' ∧ e.AsksUnder L a b outer outer' :=
    { operations := operations_of_forall hL
      operand := by
        rintro _ _ e x ⟨f, rfl, rfl, he⟩ - hx
        exact ⟨f, rfl, rfl, he.operand hx⟩
      column := by
        rintro _ _ table name ⟨f, rfl, rfl, he⟩
        exact he.column table name (mem_subexpressions_self _) f
      aggregate := by
        rintro _ _ g distinct arg ⟨f, rfl, rfl, he⟩ ih
        rw [Expr.evaluate, Expr.evaluate]
        cases hgroup : Frame.group f with
        | none =>
          rw [show Scope.group? (f :: outer) = none from hgroup,
            show Scope.group? (f :: outer') = none from hgroup]
          exact L.throw (hL _)
        | some rows =>
          rw [show Scope.group? (f :: outer) = some rows from hgroup,
            show Scope.group? (f :: outer') = some rows from hgroup]
          refine L.bind (parallel_evaluateRows fun x hx row _ => ?_) fun _ => L.ofExcept fun _ _ => hL _
          exact ih x hx _ _ ⟨.ofRow f.columns row, rfl, rfl, he.operand hx⟩
      query := by
        rintro _ _ e q ⟨f, rfl, rfl, he⟩ hq
        exact he.inside q (mem_queries_of_own hq) f
      call := by
        rintro _ _ name args ⟨f, rfl, rfl, he⟩
        exact he.call name (mem_functions_of_own rfl) }
  exact related_evaluate hrelated e _ _ ⟨f, rfl, rfl, h⟩

theorem AsksUnder.holds (hL : L.Total) (h : e.AsksUnder L a b outer outer') (f : Frame)
    (clause : String) :
    L.Rel (e.holds a (f :: outer) clause) (e.holds b (f :: outer') clause) :=
  L.bind (h.evaluate hL f) fun _ => L.bind (L.ofExcept fun _ _ => hL _) fun _ => L.pure _

end

end Expr

/-! ## Plans -/

namespace Plan

/-- The expressions of a plan. -/
def expressions : Plan → List Expression
  | singleRow | scan _ _ => []
  | derived source _ | distinct source | order source _ | truncate source _ => source.expressions
  | join _ left right predicate _ =>
    left.expressions ++ (right.expressions ++ predicate.toList)
  | filter source e | offset source e | limit source e => e :: source.expressions
  | project source outputs => outputs.map Output.expr ++ source.expressions
  | group source keys having outputs =>
    keys ++ (having.toList ++ (outputs.map Output.expr ++ source.expressions))

/-- The tables that a plan reads. -/
def scans : Plan → List TableDefinition
  | singleRow => []
  | scan table _ => [table]
  | join _ left right _ _ => left.scans ++ right.scans
  | derived source _ | filter source _ | project source _ | group source _ _ _ | distinct source
  | order source _ | offset source _ | limit source _ | truncate source _ => source.scans

end Plan

section

variable {L : Parallel m n} {a : Access m} {b : Access n} {outer outer' : Scope} (hL : L.Total)

include hL

theorem parallel_holds {e : Expression} (he : e.Asks L a.toSurroundings b.toSurroundings)
    (scope : Scope) (clause : String) :
    L.Rel (e.holds a.toSurroundings scope clause) (e.holds b.toSurroundings scope clause) :=
  Expr.parallel_holds (Expr.evaluable_of_asks hL) he clause

theorem parallel_evaluate {e : Expression} (he : e.Asks L a.toSurroundings b.toSurroundings)
    (scope : Scope) :
    L.Rel (e.evaluate a.toSurroundings scope) (e.evaluate b.toSurroundings scope) :=
  Expr.parallel_evaluate (Expr.evaluable_of_asks hL) e scope he

theorem parallel_keepsPair (columns : List ResultColumn) {predicate : Option Expression}
    (hp : ∀ e ∈ predicate.toList, e.AsksUnder L a.toSurroundings b.toSurroundings outer outer')
    (merged : List (Nat × Nat)) (l r : Tuple) :
    L.Rel (keepsPair a outer columns predicate merged l r)
      (keepsPair b outer' columns predicate merged l r) := by
  refine L.bind (L.ofExcept fun _ _ => hL _) fun agrees => L.ite ?_ (L.pure _)
  cases predicate with
  | none => exact L.pure _
  | some e => exact (hp e (by simp)).holds hL _ _

theorem parallel_joinRelations (kind : JoinKind) {predicate : Option Expression}
    (hp : ∀ e ∈ predicate.toList, e.AsksUnder L a.toSurroundings b.toSurroundings outer outer')
    (merged : List (Nat × Nat)) (left right : Relation) :
    L.Rel (joinRelations a outer kind predicate merged left right)
      (joinRelations b outer' kind predicate merged left right) := by
  refine L.bind (L.mapM fun l _ => L.mapM fun r _ => ?_) fun _ => L.pure _
  exact parallel_keepsPair hL _ hp merged l r

theorem parallel_filterRows (columns : List ResultColumn) {e : Expression}
    (he : e.AsksUnder L a.toSurroundings b.toSurroundings outer outer') (rows : List Tuple) :
    L.Rel (filterRows a outer columns e rows) (filterRows b outer' columns e rows) :=
  L.bind (L.mapM fun _ _ => he.holds hL _ "WHERE") fun _ => L.pure _

theorem parallel_outputRow (f : Frame) {outputs : List Output}
    (ho : ∀ e ∈ outputs.map Output.expr,
      e.AsksUnder L a.toSurroundings b.toSurroundings outer outer') :
    L.Rel (outputRow a (f :: outer) outputs) (outputRow b (f :: outer') outputs) :=
  L.mapM fun o hmem => (ho o.expr (List.mem_map_of_mem hmem)).evaluate hL f

theorem parallel_groupRows (columns : List ResultColumn) {keys : List Expression}
    (hk : ∀ e ∈ keys, e.AsksUnder L a.toSurroundings b.toSurroundings outer outer')
    (rows : List Tuple) :
    L.Rel (groupRows a outer columns keys rows) (groupRows b outer' columns keys rows) := by
  refine L.ite (L.pure _) (L.bind (L.mapM fun row _ => ?_) fun _ => L.pure _)
  exact L.bind (L.mapM fun e he => (hk e he).evaluate hL _) fun _ => L.pure _

theorem parallel_groupOutput (columns : List ResultColumn) {having : Option Expression}
    {outputs : List Output}
    (hh : ∀ e ∈ having.toList, e.AsksUnder L a.toSurroundings b.toSurroundings outer outer')
    (ho : ∀ e ∈ outputs.map Output.expr,
      e.AsksUnder L a.toSurroundings b.toSurroundings outer outer') (rows : List Tuple) :
    L.Rel (groupOutput a outer columns having outputs rows)
      (groupOutput b outer' columns having outputs rows) := by
  have hrow (f : Frame) (passes : Bool) :
      L.Rel (if passes then (return some (← outputRow a (f :: outer) outputs)) else return none)
        (if passes then (return some (← outputRow b (f :: outer') outputs)) else return none) :=
    L.ite (L.bind (parallel_outputRow hL f ho) fun _ => L.pure _) (L.pure _)
  -- without HAVING every group passes
  cases having with
  | none => exact L.bind (L.pure true) fun passes => hrow _ passes
  | some e => exact L.bind ((hh e (by simp)).holds hL _ "HAVING") fun passes => hrow _ passes

theorem parallel_rowCount (clause : String) {e : Expression}
    (he : e.Asks L a.toSurroundings b.toSurroundings) :
    L.Rel (rowCount a clause e) (rowCount b clause e) := by
  refine L.bind (parallel_evaluate hL he []) fun v => L.ite (L.pure _) ?_
  cases v.int? with
  | none => exact L.throw (hL _)
  | some count => exact L.ite (L.bind (L.throw (hL _)) fun _ => L.pure _) (L.pure _)

/-- One plan over two surroundings that answer its queries, its scans and its references to the outer scope
in parallel. -/
theorem parallel_run_under (p : Plan)
    (hq : ∀ e ∈ p.expressions, e.AsksUnder L a.toSurroundings b.toSurroundings outer outer')
    (hs : ∀ d ∈ p.scans, L.Rel (a.scan d.schema d.name) (b.scan d.schema d.name)) :
    L.Rel (p.run a outer) (p.run b outer') := by
  induction p with
  | singleRow => exact L.pure _
  | scan table label => exact L.bind (hs table (by simp [Plan.scans])) fun _ => L.pure _
  | derived source label ih => exact L.bind (ih hq hs) fun _ => L.pure _
  | join kind left right predicate merged ihl ihr =>
    obtain ⟨hleft, hrest⟩ := List.forall_mem_append.mp hq
    obtain ⟨hright, hpredicate⟩ := List.forall_mem_append.mp hrest
    obtain ⟨hsl, hsr⟩ := List.forall_mem_append.mp hs
    refine L.bind (ihl hleft hsl) fun l => L.bind (ihr hright hsr) fun r => ?_
    exact parallel_joinRelations hL kind hpredicate merged l r
  | filter source e ih =>
    obtain ⟨he, hsource⟩ := List.forall_mem_cons.mp hq
    refine L.bind (ih hsource hs) fun r => ?_
    exact L.bind (parallel_filterRows hL r.columns he r.rows) fun _ => L.pure _
  | project source outputs ih =>
    obtain ⟨ho, hsource⟩ := List.forall_mem_append.mp hq
    refine L.bind (ih hsource hs) fun r => L.bind (L.mapM fun _ _ => ?_) fun _ => L.pure _
    exact parallel_outputRow hL _ ho
  | group source keys having outputs ih =>
    obtain ⟨hk, hrest⟩ := List.forall_mem_append.mp hq
    obtain ⟨hh, hrest⟩ := List.forall_mem_append.mp hrest
    obtain ⟨ho, hsource⟩ := List.forall_mem_append.mp hrest
    refine L.bind (ih hsource hs) fun r => ?_
    refine L.bind (parallel_groupRows hL r.columns hk r.rows) fun groups => ?_
    exact L.bind (L.mapM fun rows _ => parallel_groupOutput hL r.columns hh ho rows)
      fun _ => L.pure _
  | distinct source ih => exact L.bind (ih hq hs) fun _ => L.pure _
  | order source keys ih =>
    refine L.bind (ih hq hs) fun r => ?_
    -- a position beyond the columns is a failure, and nothing was sorted then
    cases keys.find? fun k => r.columns.length ≤ k.index with
    | some k => exact L.throw (hL _)
    | none => exact L.pure _
  | offset source count ih =>
    obtain ⟨he, hsource⟩ := List.forall_mem_cons.mp hq
    refine L.bind (parallel_rowCount hL "OFFSET" he.toAsks) fun _ => ?_
    exact L.bind (ih hsource hs) fun _ => L.pure _
  | limit source count ih =>
    obtain ⟨he, hsource⟩ := List.forall_mem_cons.mp hq
    refine L.bind (parallel_rowCount hL "LIMIT" he.toAsks) fun _ => ?_
    exact L.bind (ih hsource hs) fun _ => L.pure _
  | truncate source width ih => exact L.bind (ih hq hs) fun _ => L.pure _

/-- One plan inside one scope, over two surroundings that answer its queries and its scans in parallel. -/
theorem parallel_run (outer : Scope) (p : Plan)
    (hq : ∀ e ∈ p.expressions, e.Asks L a.toSurroundings b.toSurroundings)
    (hs : ∀ d ∈ p.scans, L.Rel (a.scan d.schema d.name) (b.scan d.schema d.name)) :
    L.Rel (p.run a outer) (p.run b outer) :=
  parallel_run_under hL p (fun e he => (hq e he).under hL outer) hs

end

/-! ## Queries inside queries -/

namespace Services

variable {L : Parallel m n} {s : Services m} {r : Services n} (hL : L.Total)
variable (hcat : L.Rel s.catalog r.catalog)
variable (hs : ∀ schema name, L.Rel (s.scan schema name) (r.scan schema name))
variable (hc : ∀ name args, L.Rel (s.call name args) (r.call name args))

include hL hcat

theorem parallel_runSelect {a : Access m} {b : Access n}
    (hask : ∀ e : Expression, e.Asks L a.toSurroundings b.toSurroundings)
    (hscan : ∀ schema name, L.Rel (a.scan schema name) (b.scan schema name)) (q : Select)
    (outer : Scope) : L.Rel (s.runSelect a q outer) (r.runSelect b q outer) := by
  refine L.bind hcat fun catalog => L.bind (L.ofExcept fun _ _ => hL _) fun plan => ?_
  exact parallel_run hL outer plan (fun e _ => hask e) fun d _ => hscan d.schema d.name

omit [Monad m] [MonadExceptOf Error m] [Monad n] [MonadExceptOf Error n] hL hcat in
theorem call_access {k : Type → Type} [Monad k] [MonadExceptOf Error k] (s : Services k)
    (depth : Nat) : (s.access depth).call = s.call := by
  cases depth <;> rfl

omit [Monad m] [MonadExceptOf Error m] [Monad n] [MonadExceptOf Error n] hL hcat in
theorem scan_access {k : Type → Type} [Monad k] [MonadExceptOf Error k] (s : Services k)
    (depth : Nat) : (s.access depth).scan = s.scan := by
  cases depth <;> rfl

include hs in
omit hL hcat in
theorem parallel_scan (depth : Nat) (schema name : String) :
    L.Rel ((s.access depth).scan schema name) ((r.access depth).scan schema name) := by
  rw [scan_access, scan_access]
  exact hs schema name

include hs hc

/-- Induction on the depth to which queries nest. -/
theorem parallel_query (depth : Nat) (q : Select) (scope : Scope) :
    L.Rel ((s.access depth).query q scope) ((r.access depth).query q scope) := by
  induction depth generalizing q scope with
  | zero => exact L.throw (hL _)
  | succ depth ih =>
    refine parallel_runSelect hL hcat (fun e => ⟨fun q _ => ih q, fun name _ => ?_⟩)
      (parallel_scan hs depth) q scope
    rw [call_access, call_access]
    exact hc name

theorem asks_access (depth : Nat) (e : Expression) :
    e.Asks L (s.access depth).toSurroundings (r.access depth).toSurroundings := by
  refine ⟨fun q _ => parallel_query hL hcat hs hc depth q, fun name _ => ?_⟩
  rw [call_access, call_access]
  exact hc name

theorem parallel_holds (depth : Nat) (e : Expression) (scope : Scope) (clause : String) :
    L.Rel (e.holds (s.access depth).toSurroundings scope clause)
      (e.holds (r.access depth).toSurroundings scope clause) :=
  SqlStore.parallel_holds hL (asks_access hL hcat hs hc depth e) scope clause

theorem parallel_evaluate (scope : Scope) (e : Expression) :
    L.Rel (s.evaluate scope e) (r.evaluate scope e) :=
  SqlStore.parallel_evaluate hL (asks_access hL hcat hs hc (exprDepth e) e) scope

theorem parallel_runPlan (depth : Nat) (outer : Scope) (p : Plan) :
    L.Rel (p.run (s.access depth) outer) (p.run (r.access depth) outer) :=
  parallel_run hL outer p (fun e _ => asks_access hL hcat hs hc depth e)
    fun d _ => parallel_scan hs depth d.schema d.name

theorem parallel_select (q : Select) : L.Rel (s.select q) (r.select q) :=
  parallel_runSelect hL hcat (asks_access hL hcat hs hc q.depth) (parallel_scan hs q.depth) q []

end Services

end SqlStore
