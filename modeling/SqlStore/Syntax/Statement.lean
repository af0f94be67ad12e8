import SqlStore.Config
import SqlStore.Syntax.Expr

/-!
# Queries and statements

A query body is built over the type of the queries inside it, and a `Select` closes that up: it is
a body over `Select`. `Select.depth` says how deep queries nest, which bounds every recursion that
goes from a query to the queries inside it.
-/

namespace SqlStore

/-- A table name, with or without its schema. -/
structure ObjectName where
  schema : Option String
  name : String
deriving Repr, DecidableEq

/-- The ways to join two sources. -/
inductive JoinKind where
  | cross
  | inner
  | left
  | right
  | full
deriving Repr, DecidableEq

/-- Which pairs of rows a join keeps. -/
inductive JoinCondition (σ : Type) where
  | always
  | on (predicate : Expr σ)
  | using_ (columns : List String)
  | natural

/-- A source of rows. -/
inductive FromItem (σ : Type) where
  | table (name : ObjectName) (label : Option String)
  | derived (query : σ) (label : Option String)
  | join (kind : JoinKind) (left right : FromItem σ) (condition : JoinCondition σ)

/-- An entry of the list of results. -/
inductive SelectItem (σ : Type) where
  | all
  | allOf (table : String)
  | expr (e : Expr σ) (label : Option String)

/-- A sort key; `nullsFirst` is there when it was written. -/
structure OrderItem (σ : Type) where
  expr : Expr σ
  descending : Bool
  nullsFirst : Option Bool

/-- The clauses of a query. -/
structure SelectBody (σ : Type) where
  distinct : Bool
  items : List (SelectItem σ)
  sources : List (FromItem σ)
  filter : Option (Expr σ)
  groupBy : List (Expr σ)
  having : Option (Expr σ)
  orderBy : List (OrderItem σ)
  limit : Option (Expr σ)
  offset : Option (Expr σ)

/-- A query. -/
inductive Select where
  | mk (body : SelectBody Select)

/-- The clauses of a query. -/
def Select.body : Select → SelectBody Select
  | .mk body => body

/-- An expression whose queries are `Select`s. -/
abbrev Expression := Expr Select

/-! ## Nesting depth -/

mutual

/-- How deep queries nest, the query itself included. -/
def Select.depth : Select → Nat
  | .mk body => bodyDepth body + 1

/-- How deep queries nest in the clauses of a query. -/
def bodyDepth : SelectBody Select → Nat
  | ⟨_, items, sources, filter, groupBy, having, orderBy, limit, offset⟩ =>
    max (itemsDepth items) (max (sourcesDepth sources) (max (optionDepth filter)
      (max (listDepth groupBy) (max (optionDepth having) (max (orderDepth orderBy)
        (max (optionDepth limit) (optionDepth offset)))))))

/-- How deep queries nest in a list of results. -/
def itemsDepth : List (SelectItem Select) → Nat
  | [] => 0
  | i :: is => max (itemDepth i) (itemsDepth is)

/-- How deep queries nest in one result. -/
def itemDepth : SelectItem Select → Nat
  | .all => 0
  | .allOf _ => 0
  | .expr e _ => exprDepth e

/-- How deep queries nest in a list of sources. -/
def sourcesDepth : List (FromItem Select) → Nat
  | [] => 0
  | s :: ss => max (sourceDepth s) (sourcesDepth ss)

/-- How deep queries nest in one source. -/
def sourceDepth : FromItem Select → Nat
  | .table _ _ => 0
  | .derived q _ => q.depth
  | .join _ l r c => max (sourceDepth l) (max (sourceDepth r) (conditionDepth c))

/-- How deep queries nest in the condition of a join. -/
def conditionDepth : JoinCondition Select → Nat
  | .always => 0
  | .on e => exprDepth e
  | .using_ _ => 0
  | .natural => 0

/-- How deep queries nest in a list of sort keys. -/
def orderDepth : List (OrderItem Select) → Nat
  | [] => 0
  | k :: ks => max (orderItemDepth k) (orderDepth ks)

/-- How deep queries nest in one sort key. -/
def orderItemDepth : OrderItem Select → Nat
  | ⟨e, _, _⟩ => exprDepth e

/-- How deep queries nest in an expression. -/
def exprDepth : Expr Select → Nat
  | .literal _ => 0
  | .column _ _ => 0
  | .unary _ e => exprDepth e
  | .binary _ l r => max (exprDepth l) (exprDepth r)
  | .isNull e _ => exprDepth e
  | .inList e items _ => max (exprDepth e) (listDepth items)
  | .inQuery e q _ => max (exprDepth e) q.depth
  | .between e l h _ => max (exprDepth e) (max (exprDepth l) (exprDepth h))
  | .like e p _ _ => max (exprDepth e) (exprDepth p)
  | .cases o b d => max (optionDepth o) (max (branchesDepth b) (optionDepth d))
  | .cast e _ => exprDepth e
  | .exists_ q => q.depth
  | .subquery q => q.depth
  | .call _ args => listDepth args
  | .aggregate _ _ arg => optionDepth arg

/-- How deep queries nest in an optional expression. -/
def optionDepth : Option (Expr Select) → Nat
  | none => 0
  | some e => exprDepth e

/-- How deep queries nest in a list of expressions. -/
def listDepth : List (Expr Select) → Nat
  | [] => 0
  | e :: es => max (exprDepth e) (listDepth es)

/-- How deep queries nest in the branches of a case distinction. -/
def branchesDepth : List (Expr Select × Expr Select) → Nat
  | [] => 0
  | b :: bs => max (branchDepth b) (branchesDepth bs)

/-- How deep queries nest in one branch. -/
def branchDepth : Expr Select × Expr Select → Nat
  | (w, t) => max (exprDepth w) (exprDepth t)

end

/-! ## Equality -/

/-- Equality of lists under an equality of members. -/
def sameListBy {α : Type} (same : α → α → Bool) : List α → List α → Bool
  | [], [] => true
  | a :: as, b :: bs => same a b && sameListBy same as bs
  | _, _ => false

namespace FromItem

variable {σ : Type}

/-- Equality of sources. -/
def same (sameQuery : σ → σ → Bool) : FromItem σ → FromItem σ → Bool
  | table n a, table m b => n == m && a == b
  | derived p a, derived q b => sameQuery p q && a == b
  | join k l r c, join k' l' r' c' =>
    k == k' && same sameQuery l l' && same sameQuery r r' &&
      (match c, c' with
        | .always, .always => true
        | .on e, .on e' => e.same sameQuery e'
        | .using_ xs, .using_ ys => xs == ys
        | .natural, .natural => true
        | _, _ => false)
  | _, _ => false

end FromItem

/-- Equality of results. -/
def SelectItem.same {σ : Type} (sameQuery : σ → σ → Bool) : SelectItem σ → SelectItem σ → Bool
  | all, all => true
  | allOf s, allOf t => s == t
  | expr e a, expr f b => e.same sameQuery f && a == b
  | _, _ => false

/-- Equality of query bodies. -/
def SelectBody.same {σ : Type} (sameQuery : σ → σ → Bool) (a b : SelectBody σ) : Bool :=
  a.distinct == b.distinct && sameListBy (SelectItem.same sameQuery) a.items b.items &&
    sameListBy (FromItem.same sameQuery) a.sources b.sources &&
    Expr.sameOption sameQuery a.filter b.filter && Expr.sameList sameQuery a.groupBy b.groupBy &&
    Expr.sameOption sameQuery a.having b.having &&
    sameListBy (fun x y => x.expr.same sameQuery y.expr && x.descending == y.descending &&
      x.nullsFirst == y.nullsFirst) a.orderBy b.orderBy &&
    Expr.sameOption sameQuery a.limit b.limit && Expr.sameOption sameQuery a.offset b.offset

/-- Equality of queries that nest less than a given depth. -/
def Select.sameUpTo : Nat → Select → Select → Bool
  | 0, _, _ => false
  | n + 1, a, b => a.body.same (sameUpTo n) b.body

/-- Equality of queries. -/
def Select.same (a b : Select) : Bool := Select.sameUpTo a.depth a b

/-- Equality of expressions. -/
def sameExpression (a b : Expression) : Bool := a.same Select.same b

/-! ## Statements -/

/-- The definition of a column as it is written. -/
structure ColumnSpec where
  name : String
  type : TypeName
  nullable : Option Bool
  default : Option Expression
  primaryKey : Bool
  unique : Bool

/-- The rows to insert: given values, where `none` asks for the default, or a query. -/
inductive InsertSource where
  | values (rows : List (List (Option Expression)))
  | query (query : Select)

/-- A statement. -/
inductive Statement where
  | begin_ (isolation : Option Isolation)
  | commit
  | rollback
  | createSchema (name : String) (ifNotExists : Bool)
  | dropSchema (name : String) (ifExists : Bool)
  | createTable (name : ObjectName) (columns : List ColumnSpec) (ifNotExists : Bool)
  | dropTable (names : List ObjectName) (ifExists : Bool)
  | insert (table : ObjectName) (columns : Option (List String)) (source : InsertSource)
  | select (query : Select)
  | update (table : ObjectName) (label : Option String)
      (assignments : List (String × Expression)) (filter : Option Expression)
  | delete (table : ObjectName) (label : Option String) (filter : Option Expression)

end SqlStore
