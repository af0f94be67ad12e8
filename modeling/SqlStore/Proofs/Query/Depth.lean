import SqlStore.Proofs.Query.Agreement

/-!
# The depth of queries

The number that bounds how deep queries nest is never too small: a query inside an expression of some
level nests less deep than the query of the level. Whatever is above that number does not matter, so a
query answers the same wherever it stands.
-/

namespace SqlStore

open Run

/-! ## Expressions -/

theorem exprDepth_le_listDepth {es : List Expression} {e : Expression} (h : e ∈ es) :
    exprDepth e ≤ listDepth es := by
  induction es with
  | nil => cases h
  | cons x es ih =>
    rw [listDepth]
    rcases List.mem_cons.mp h with rfl | h
    · exact Nat.le_max_left _ _
    · exact Nat.le_trans (ih h) (Nat.le_max_right _ _)

theorem exprDepth_le_optionDepth {o : Option Expression} {e : Expression} (h : e ∈ o.toList) :
    exprDepth e ≤ optionDepth o := by
  cases Option.mem_toList.mp h
  exact Nat.le_of_eq (by rw [optionDepth])

theorem exprDepth_le_branchesDepth {branches : List (Expression × Expression)} {e : Expression}
    (h : e ∈ branches.flatMap fun b => [b.1, b.2]) : exprDepth e ≤ branchesDepth branches := by
  induction branches with
  | nil => cases h
  | cons b branches ih =>
    rw [branchesDepth, branchDepth]
    rcases List.mem_append.mp h with h | h
    · rcases List.mem_pair.mp h with rfl | rfl <;> omega
    · exact Nat.le_trans (ih h) (Nat.le_max_right _ _)

theorem exprDepth_le_of_operand {e x : Expression} (h : x ∈ e.operands) :
    exprDepth x ≤ exprDepth e := by
  cases e with
  | literal _ | column _ _ | exists_ _ | subquery _ => cases h
  | unary _ _ | isNull _ _ | inQuery _ _ _ | cast _ _ =>
    cases List.mem_singleton.mp h
    simp only [exprDepth]
    omega
  | binary _ _ _ | between _ _ _ _ | like _ _ _ _ =>
    simp only [Expr.operands, List.mem_cons, List.not_mem_nil, or_false] at h
    simp only [exprDepth]
    rcases h with rfl | rfl | rfl <;> omega
  | inList _ _ _ =>
    simp only [exprDepth]
    rcases List.mem_cons.mp h with rfl | h
    · exact Nat.le_max_left _ _
    · exact Nat.le_trans (exprDepth_le_listDepth h) (Nat.le_max_right _ _)
  | cases operand branches otherwise =>
    simp only [Expr.operands, List.mem_append] at h
    simp only [exprDepth]
    rcases h with h | h | h
    · have := exprDepth_le_optionDepth h
      omega
    · have := exprDepth_le_branchesDepth h
      omega
    · have := exprDepth_le_optionDepth h
      omega
  | call _ args =>
    rw [exprDepth]
    exact exprDepth_le_listDepth h
  | aggregate _ _ arg =>
    rw [exprDepth]
    exact exprDepth_le_optionDepth h

theorem depth_le_of_own {e : Expression} {q : Select} (h : e.ownQuery? = some q) :
    q.depth ≤ exprDepth e := by
  cases e with
  | inQuery e q negated =>
    cases h
    rw [exprDepth]
    exact Nat.le_max_right _ _
  | exists_ q | subquery q =>
    cases h
    exact Nat.le_of_eq (by rw [exprDepth])
  | _ => cases h

/-- A query inside an expression nests no deeper than the expression. -/
theorem depth_le_exprDepth {e : Expression} {q : Select} (h : q ∈ e.queries) :
    q.depth ≤ exprDepth e := by
  induction e using Expr.induction_operands with
  | h e ih =>
    obtain ⟨y, hy, hown⟩ := List.mem_filterMap.mp h
    rw [Expr.subexpressions_eq] at hy
    rcases List.mem_cons.mp hy with rfl | hy
    · exact depth_le_of_own hown
    · obtain ⟨x, hx, hy⟩ := List.mem_flatMap.mp hy
      exact Nat.le_trans (ih x hx (List.mem_filterMap.mpr ⟨y, hy, hown⟩)) (exprDepth_le_of_operand hx)

/-! ## Levels -/

theorem itemDepth_le_itemsDepth {items : List (SelectItem Select)} {item : SelectItem Select}
    (h : item ∈ items) : itemDepth item ≤ itemsDepth items := by
  induction items with
  | nil => cases h
  | cons i items ih =>
    rw [itemsDepth]
    rcases List.mem_cons.mp h with rfl | h
    · exact Nat.le_max_left _ _
    · exact Nat.le_trans (ih h) (Nat.le_max_right _ _)

theorem exprDepth_le_itemDepth {item : SelectItem Select} {e : Expression}
    (h : item.expression? = some e) : exprDepth e ≤ itemDepth item := by
  cases item <;> cases h
  exact Nat.le_of_eq (by rw [itemDepth])

theorem exprDepth_le_orderDepth {items : List (OrderItem Select)} {e : Expression}
    (h : e ∈ items.map OrderItem.expr) : exprDepth e ≤ orderDepth items := by
  induction items with
  | nil => cases h
  | cons i items ih =>
    rw [orderDepth, orderItemDepth]
    rcases List.mem_cons.mp h with rfl | h
    · exact Nat.le_max_left _ _
    · exact Nat.le_trans (ih h) (Nat.le_max_right _ _)

theorem conditionDepth_le_sourceDepth {source : FromItem Select} {condition : JoinCondition Select}
    (h : condition ∈ source.conditions) : conditionDepth condition ≤ sourceDepth source := by
  induction source with
  | table _ _ | derived _ _ => cases h
  | join kind l r own ihl ihr =>
    rw [sourceDepth]
    rcases List.mem_append.mp h with h | h
    · have := ihl h
      omega
    rcases List.mem_append.mp h with h | h
    · have := ihr h
      omega
    · cases List.mem_singleton.mp h
      omega

theorem sourceDepth_le_sourcesDepth {sources : List (FromItem Select)} {source : FromItem Select}
    (h : source ∈ sources) : sourceDepth source ≤ sourcesDepth sources := by
  induction sources with
  | nil => cases h
  | cons s sources ih =>
    rw [sourcesDepth]
    rcases List.mem_cons.mp h with rfl | h
    · exact Nat.le_max_left _ _
    · exact Nat.le_trans (ih h) (Nat.le_max_right _ _)

theorem exprDepth_le_conditionDepth {condition : JoinCondition Select} {e : Expression}
    (h : condition.expression? = some e) : exprDepth e ≤ conditionDepth condition := by
  cases condition <;> cases h
  exact Nat.le_of_eq (by rw [conditionDepth])

/-- An expression of a level nests no deeper than the level. -/
theorem exprDepth_le_bodyDepth {body : SelectBody Select} {e : Expression}
    (h : e ∈ body.expressions) : exprDepth e ≤ bodyDepth body := by
  rcases body with ⟨_, items, sources, filter, groupBy, having, orderBy, limit, offset⟩
  rw [bodyDepth]
  simp only [SelectBody.expressions, SelectBody.conditions, List.mem_append, List.mem_filterMap,
    List.mem_flatMap] at h
  rcases h with ⟨item, hitem, he⟩ | ⟨condition, ⟨source, hsource, hcondition⟩, he⟩ | h | h | h | h |
    h | h
  · have := exprDepth_le_itemDepth he
    have := itemDepth_le_itemsDepth hitem
    omega
  · have := exprDepth_le_conditionDepth he
    have := conditionDepth_le_sourceDepth hcondition
    have := sourceDepth_le_sourcesDepth hsource
    omega
  · have := exprDepth_le_optionDepth h
    omega
  · have := exprDepth_le_listDepth h
    omega
  · have := exprDepth_le_optionDepth h
    omega
  · have := exprDepth_le_orderDepth h
    omega
  · have := exprDepth_le_optionDepth h
    omega
  · have := exprDepth_le_optionDepth h
    omega

mutual

/-- Every level of a query nests less deep than the query. -/
theorem bodyDepth_lt_depth : ∀ (q : Select) {body : SelectBody Select},
    body ∈ q.levels → bodyDepth body < q.depth
  | .mk own, body, h => by
    rw [Select.depth]
    rcases List.mem_cons.mp h with rfl | h
    · omega
    · exact Nat.lt_succ_of_lt (bodyDepth_lt_bodyDepth own h)

theorem bodyDepth_lt_bodyDepth : ∀ (own : SelectBody Select) {body : SelectBody Select},
    body ∈ bodyLevels own → bodyDepth body < bodyDepth own
  | ⟨_, _, sources, _, _, _, _, _, _⟩, body, h => by
    have := bodyDepth_lt_sourcesDepth sources h
    conv_rhs => rw [bodyDepth]
    omega

theorem bodyDepth_lt_sourcesDepth : ∀ (sources : List (FromItem Select)) {body : SelectBody Select},
    body ∈ sourcesLevels sources → bodyDepth body < sourcesDepth sources
  | s :: ss, body, h => by
    rw [sourcesDepth]
    rcases List.mem_append.mp h with h | h
    · exact Nat.lt_of_lt_of_le (bodyDepth_lt_sourceDepth s h) (Nat.le_max_left _ _)
    · exact Nat.lt_of_lt_of_le (bodyDepth_lt_sourcesDepth ss h) (Nat.le_max_right _ _)

theorem bodyDepth_lt_sourceDepth : ∀ (source : FromItem Select) {body : SelectBody Select},
    body ∈ sourceLevels source → bodyDepth body < sourceDepth source
  | .derived query _, body, h => by
    rw [sourceDepth]
    exact bodyDepth_lt_depth query h
  | .join _ l r _, body, h => by
    rw [sourceDepth]
    rcases List.mem_append.mp h with h | h
    · have := bodyDepth_lt_sourceDepth l h
      omega
    · have := bodyDepth_lt_sourceDepth r h
      omega

end

/-- A query inside an expression of a plan nests less deep than the query of the plan. -/
theorem Plan.MadeOf.depth_lt {catalog : Catalog} {q : Select} {p : Plan} (h : p.MadeOf catalog q)
    {e : Expression} (he : e ∈ p.expressions) {query : Select} (hquery : query ∈ e.queries) :
    query.depth < q.depth := by
  rcases h.expressions e he with ⟨body, hbody, hmem⟩ | ⟨-, table, name, rfl⟩
  · have := depth_le_exprDepth hquery
    have := exprDepth_le_bodyDepth hmem
    have := bodyDepth_lt_depth q hbody
    omega
  · cases hquery

namespace Services

variable {m : Type → Type} [Monad m] [MonadExceptOf Error m] (s : Services m)

/-- A plan runs the same with more depth than its query needs. -/
theorem run_access_of {catalog : Catalog} {q : Select} {p : Plan} (hp : p.MadeOf catalog q)
    {depth more : Nat}
    (h : ∀ query : Select, query.depth < q.depth →
      (s.access depth).query query = (s.access more).query query) (outer : Scope) :
    p.run (s.access depth) outer = p.run (s.access more) outer := by
  refine parallel_run (L := .equality m) (fun _ => trivial) outer p (fun e he => ⟨?_, ?_⟩) ?_
  · intro query hquery scope
    exact congrFun (h query (hp.depth_lt he hquery)) scope
  · intro name _ args
    show (s.access depth).call name args = (s.access more).call name args
    rw [call_access, call_access]
  · intro d _
    show (s.access depth).scan _ _ = (s.access more).scan _ _
    rw [scan_access, scan_access]

variable [LawfulMonad m] [StopsAtFailure m]

/-- A query answers the same with more depth than it needs. -/
theorem query_access_succ (depth : Nat) : ∀ q : Select, q.depth ≤ depth →
    (s.access depth).query q = (s.access (depth + 1)).query q := by
  induction depth with
  | zero =>
    rintro ⟨body⟩ hq
    rw [Select.depth] at hq
    omega
  | succ depth ih =>
    intro q hq
    refine funext fun scope => ?_
    show s.runSelect (s.access depth) q scope = s.runSelect (s.access (depth + 1)) q scope
    unfold runSelect
    refine congrArg _ (funext fun catalog => ?_)
    rw [ofExcept_bind, ofExcept_bind]
    cases hplan : Plan.ofSelect catalog scope q with
    | error err => rfl
    | ok p =>
      refine s.run_access_of (Plan.madeOf_ofSelect hplan) (fun query hquery => ih query ?_) scope
      omega

theorem query_access_of_le {q : Select} {depth more : Nat} (hq : q.depth ≤ depth)
    (hmore : depth ≤ more) : (s.access depth).query q = (s.access more).query q := by
  induction hmore with
  | refl => rfl
  | step h ih => rw [ih, s.query_access_succ _ q (Nat.le_trans hq h)]

/-- The plan of a query runs the same inside one that nests deeper. -/
theorem run_access_succ {catalog : Catalog} {outer : Scope} {q : Select} {p : Plan}
    (hp : Plan.ofSelect catalog outer q = .ok p) :
    p.run (s.access q.depth) outer = p.run (s.access (q.depth + 1)) outer :=
  s.run_access_of (Plan.madeOf_ofSelect hp)
    (fun query hquery => s.query_access_succ q.depth query (Nat.le_of_lt hquery)) outer

end Services

end SqlStore
