import SqlStore.Syntax.Statement

/-!
# The levels of a query

A query has a level of its own and those of the queries in its sources. A level has tables, join conditions
and expressions; the queries inside its expressions are no levels.
-/

namespace SqlStore

/-! ## The parts of a level -/

section

variable {σ : Type}

/-- The expression of a result, if it has one. -/
def SelectItem.expression? : SelectItem σ → Option (Expr σ)
  | all | allOf _ => none
  | expr e _ => some e

/-- The expression of a join condition, if it has one. -/
def JoinCondition.expression? : JoinCondition σ → Option (Expr σ)
  | on e => some e
  | always | using_ _ | natural => none

namespace FromItem

/-- The tables that a source names, without those of queries. -/
def tables : FromItem σ → List ObjectName
  | table name _ => [name]
  | derived _ _ => []
  | join _ l r _ => l.tables ++ r.tables

/-- The conditions of the joins of a source, without those of queries. -/
def conditions : FromItem σ → List (JoinCondition σ)
  | table _ _ | derived _ _ => []
  | join _ l r condition => l.conditions ++ (r.conditions ++ [condition])

end FromItem

namespace SelectBody

/-- The tables that a level names. -/
def tables (body : SelectBody σ) : List ObjectName := body.sources.flatMap FromItem.tables

/-- The conditions of the joins of a level. -/
def conditions (body : SelectBody σ) : List (JoinCondition σ) :=
  body.sources.flatMap FromItem.conditions

/-- The expressions of a level. -/
def expressions (body : SelectBody σ) : List (Expr σ) :=
  body.items.filterMap SelectItem.expression? ++
    (body.conditions.filterMap JoinCondition.expression? ++ (body.filter.toList ++
      (body.groupBy ++ (body.having.toList ++ (body.orderBy.map OrderItem.expr ++
        (body.limit.toList ++ body.offset.toList))))))

variable {body : SelectBody σ} {e : Expr σ}

theorem mem_expressions_of_item {item : SelectItem σ} (hitem : item ∈ body.items)
    (he : item.expression? = some e) : e ∈ body.expressions :=
  List.mem_append_left _ (List.mem_filterMap.mpr ⟨item, hitem, he⟩)

theorem mem_expressions_of_condition {condition : JoinCondition σ}
    (hcondition : condition ∈ body.conditions) (he : condition.expression? = some e) :
    e ∈ body.expressions := by
  refine List.mem_append_right _ (List.mem_append_left _ ?_)
  exact List.mem_filterMap.mpr ⟨condition, hcondition, he⟩

theorem mem_expressions_of_filter (he : e ∈ body.filter) : e ∈ body.expressions := by
  simp [expressions, Option.mem_def.mp he]

theorem mem_expressions_of_groupBy (he : e ∈ body.groupBy) : e ∈ body.expressions := by
  simp [expressions, he]

theorem mem_expressions_of_having (he : e ∈ body.having) : e ∈ body.expressions := by
  simp [expressions, Option.mem_def.mp he]

theorem mem_expressions_of_orderBy (he : e ∈ body.orderBy.map OrderItem.expr) :
    e ∈ body.expressions := by
  unfold expressions
  simp only [List.mem_append, he, true_or, or_true]

theorem mem_expressions_of_limit (he : e ∈ body.limit) : e ∈ body.expressions := by
  simp [expressions, Option.mem_def.mp he]

theorem mem_expressions_of_offset (he : e ∈ body.offset) : e ∈ body.expressions := by
  simp [expressions, Option.mem_def.mp he]

end SelectBody

end

mutual

/-- The level of a query and those of the queries in its sources. -/
def Select.levels : Select → List (SelectBody Select)
  | .mk body => body :: bodyLevels body

/-- The levels below the clauses of a query. -/
def bodyLevels : SelectBody Select → List (SelectBody Select)
  | ⟨_, _, sources, _, _, _, _, _, _⟩ => sourcesLevels sources

/-- The levels below a list of sources. -/
def sourcesLevels : List (FromItem Select) → List (SelectBody Select)
  | [] => []
  | s :: ss => sourceLevels s ++ sourcesLevels ss

/-- The levels below a source. -/
def sourceLevels : FromItem Select → List (SelectBody Select)
  | .table _ _ => []
  | .derived query _ => query.levels
  | .join _ l r _ => sourceLevels l ++ sourceLevels r

end

end SqlStore
