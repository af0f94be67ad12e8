import SqlStore.Value.Basic

/-!
# Expressions

Expressions are built over a type `σ` of queries, so that what an expression does with a subquery
is a parameter of every function on expressions, and each of them recurs on the expression alone.
`subexpressions` lists an expression and its parts without entering queries; `queries` lists the
queries that it asks.
-/

namespace SqlStore

/-- An operator with one operand. -/
inductive UnaryOp where
  | not
  | minus
  | plus
deriving Repr, DecidableEq

/-- An operator with two operands. -/
inductive BinaryOp where
  | or
  | and
  | equal
  | notEqual
  | less
  | lessEqual
  | greater
  | greaterEqual
  | concat
  | contains
  | containedBy
  | jsonGet
  | jsonGetText
  | add
  | subtract
  | multiply
  | divide
  | remainder
deriving Repr, DecidableEq

/-- The sign of an operator. -/
def BinaryOp.symbol : BinaryOp → String
  | or => "OR"
  | and => "AND"
  | equal => "="
  | notEqual => "<>"
  | less => "<"
  | lessEqual => "<="
  | greater => ">"
  | greaterEqual => ">="
  | concat => "||"
  | contains => "@>"
  | containedBy => "<@"
  | jsonGet => "->"
  | jsonGetText => "->>"
  | add => "+"
  | subtract => "-"
  | multiply => "*"
  | divide => "/"
  | remainder => "%"

/-- A function that reduces the rows of a group to one value. -/
inductive AggregateFunction where
  | count
  | sum
  | avg
  | min
  | max
deriving Repr, DecidableEq

namespace AggregateFunction

/-- The name of the function. -/
def name : AggregateFunction → String
  | count => "count"
  | sum => "sum"
  | avg => "avg"
  | min => "min"
  | max => "max"

/-- The function of a name. -/
def ofName? : String → Option AggregateFunction
  | "count" => some count
  | "sum" => some sum
  | "avg" => some avg
  | "min" => some min
  | "max" => some max
  | _ => none

end AggregateFunction

/-- An expression over queries of type `σ`. -/
inductive Expr (σ : Type) where
  | literal (v : Value)
  | column (table : Option String) (name : String)
  | unary (op : UnaryOp) (e : Expr σ)
  | binary (op : BinaryOp) (l r : Expr σ)
  | isNull (e : Expr σ) (negated : Bool)
  | inList (e : Expr σ) (items : List (Expr σ)) (negated : Bool)
  | inQuery (e : Expr σ) (query : σ) (negated : Bool)
  | between (e low high : Expr σ) (negated : Bool)
  | like (e pattern : Expr σ) (negated ignoreCase : Bool)
  | cases (operand : Option (Expr σ)) (branches : List (Expr σ × Expr σ))
      (otherwise : Option (Expr σ))
  | cast (e : Expr σ) (type : DataType)
  | exists_ (query : σ)
  | subquery (query : σ)
  | call (name : String) (args : List (Expr σ))
  /-- An aggregate; `none` counts rows. -/
  | aggregate (function : AggregateFunction) (distinct : Bool) (arg : Option (Expr σ))

namespace Expr

variable {σ : Type}

mutual

/-- The expression and its parts, each in front of its own parts, without entering queries. -/
def subexpressions : Expr σ → List (Expr σ)
  | literal v => [literal v]
  | column t n => [column t n]
  | unary op e => unary op e :: e.subexpressions
  | binary op l r => binary op l r :: (l.subexpressions ++ r.subexpressions)
  | isNull e n => isNull e n :: e.subexpressions
  | inList e items n => inList e items n :: (e.subexpressions ++ listParts items)
  | inQuery e q n => inQuery e q n :: e.subexpressions
  | between e l h n =>
    between e l h n :: (e.subexpressions ++ (l.subexpressions ++ h.subexpressions))
  | like e p n i => like e p n i :: (e.subexpressions ++ p.subexpressions)
  | cases o b d => cases o b d :: (optionParts o ++ (branchParts b ++ optionParts d))
  | cast e t => cast e t :: e.subexpressions
  | exists_ q => [exists_ q]
  | subquery q => [subquery q]
  | call n args => call n args :: listParts args
  | aggregate f d arg => aggregate f d arg :: optionParts arg

/-- The parts of the members of a list. -/
def listParts : List (Expr σ) → List (Expr σ)
  | [] => []
  | e :: es => e.subexpressions ++ listParts es

/-- The parts of an optional expression. -/
def optionParts : Option (Expr σ) → List (Expr σ)
  | none => []
  | some e => e.subexpressions

/-- The parts of the branches of a case distinction. -/
def branchParts : List (Expr σ × Expr σ) → List (Expr σ)
  | [] => []
  | (w, t) :: rest => w.subexpressions ++ (t.subexpressions ++ branchParts rest)

end

/-- The query that the outermost form of an expression asks. -/
def ownQuery? : Expr σ → Option σ
  | inQuery _ q _ => some q
  | exists_ q => some q
  | subquery q => some q
  | _ => none

/-- The queries that an expression asks, without those inside them. -/
def queries (e : Expr σ) : List σ := e.subexpressions.filterMap ownQuery?

/-- Whether the outermost form is an aggregate. -/
def isAggregate : Expr σ → Bool
  | aggregate .. => true
  | _ => false

/-- Whether an aggregate occurs outside queries. -/
def hasAggregate (e : Expr σ) : Bool := e.subexpressions.any isAggregate

/-- Whether an aggregate occurs inside the argument of an aggregate. -/
def hasNestedAggregate (e : Expr σ) : Bool :=
  e.subexpressions.any fun
    | aggregate _ _ (some arg) => arg.hasAggregate
    | _ => false

/-- The name of a column of results without a name of its own. -/
def anonymous : String := "?column?"

/-- The name of the column of results that an expression makes. -/
def outputName : Expr σ → String
  | column _ name => name
  | call name _ => name
  | aggregate f _ _ => f.name
  | cast e type => if e.outputName == anonymous then type.name else e.outputName
  | cases .. => "case"
  | exists_ _ => "exists"
  | _ => anonymous

/-- The column reference without a table. -/
def named (name : String) : Expr σ := column none name

mutual

/-- Equality of expressions, literals as values and queries as `sameQuery` says. -/
def same (sameQuery : σ → σ → Bool) : Expr σ → Expr σ → Bool
  | literal v, literal w => v == w
  | column t n, column u m => t == u && n == m
  | unary p a, unary q b => p == q && same sameQuery a b
  | binary p a b, binary q c d => p == q && same sameQuery a c && same sameQuery b d
  | isNull a m, isNull b n => m == n && same sameQuery a b
  | inList a xs m, inList b ys n => m == n && same sameQuery a b && sameList sameQuery xs ys
  | inQuery a p m, inQuery b q n => m == n && same sameQuery a b && sameQuery p q
  | between a b c m, between d e f n =>
    m == n && same sameQuery a d && same sameQuery b e && same sameQuery c f
  | like a b m i, like c d n j => m == n && i == j && same sameQuery a c && same sameQuery b d
  | cases o xs d, cases p ys e =>
    sameOption sameQuery o p && sameBranches sameQuery xs ys && sameOption sameQuery d e
  | cast a t, cast b u => t == u && same sameQuery a b
  | exists_ p, exists_ q => sameQuery p q
  | subquery p, subquery q => sameQuery p q
  | call n xs, call m ys => n == m && sameList sameQuery xs ys
  | aggregate f d a, aggregate g e b => f == g && d == e && sameOption sameQuery a b
  | _, _ => false

/-- Equality of lists of expressions. -/
def sameList (sameQuery : σ → σ → Bool) : List (Expr σ) → List (Expr σ) → Bool
  | [], [] => true
  | a :: as, b :: bs => same sameQuery a b && sameList sameQuery as bs
  | _, _ => false

/-- Equality of optional expressions. -/
def sameOption (sameQuery : σ → σ → Bool) : Option (Expr σ) → Option (Expr σ) → Bool
  | none, none => true
  | some a, some b => same sameQuery a b
  | _, _ => false

/-- Equality of the branches of case distinctions. -/
def sameBranches (sameQuery : σ → σ → Bool) :
    List (Expr σ × Expr σ) → List (Expr σ × Expr σ) → Bool
  | [], [] => true
  | (a, b) :: as, (c, d) :: bs =>
    same sameQuery a c && same sameQuery b d && sameBranches sameQuery as bs
  | _, _ => false

end

end Expr

end SqlStore
