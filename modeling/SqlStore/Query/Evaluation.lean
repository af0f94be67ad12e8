import SqlStore.Function.Aggregate
import SqlStore.Operator.Application
import SqlStore.Query.Scope

/-!
# Evaluation

An expression is evaluated in a scope. What it asks of its surroundings, the result of a query and
of a function, is a parameter, and so is the effect of asking. Evaluation goes from left to right;
AND and OR leave out their right side when the left side decides, CASE leaves out the branches it
does not take, and a membership stops at the first match.
-/

namespace SqlStore

/-- What expressions over queries of type `σ` ask of their surroundings. -/
structure Surroundings (σ : Type) (m : Type → Type) where
  /-- Runs a query whose outer scope is given. -/
  query : σ → Scope → m Relation
  /-- Calls a function. -/
  call : String → Tuple → m Value

namespace Expr

variable {σ : Type} {m : Type → Type} [Monad m] [MonadExceptOf Error m]

/-- The answer of a membership over the rows of a query. -/
def queryMembership (v : Value) (r : Relation) (negated : Bool) : Except Error Value := do
  if r.columns.length != 1 then throw (.execution "subquery has too many columns")
  let found ← membership v (r.rows.map fun row => row.headD .null)
  return negateIf negated found.toValue

/-- The value of a query in the place of an expression. -/
def queryValue (r : Relation) : Except Error Value := do
  if r.columns.length != 1 then throw (.execution "subquery must return only one column")
  if r.rows.length > 1 then
    throw (.execution "more than one row returned by a subquery used as an expression")
  return (r.rows.headD []).headD .null

/-- Whether a branch of CASE is taken: its condition equals the operand, or is true. -/
def takesBranch (operand : Option Value) (condition : Value) : Except Error Bool :=
  match operand with
  | some v => do return (← v.compare condition) == some .eq
  | none => do return (← Truth.ofValue "CASE" condition) == some true

mutual

/-- The value of an expression. -/
def evaluate (s : Surroundings σ m) (scope : Scope) : Expr σ → m Value
  | literal v => pure v
  | column table name => ofExcept (scope.value table name)
  | unary .not e => do
    let t ← ofExcept (Truth.ofValue "NOT" (← e.evaluate s scope))
    return Truth.toValue (t.map (!·))
  | unary op e => do ofExcept (op.apply (← e.evaluate s scope))
  | binary .and l r => do
    let a ← ofExcept (Truth.ofValue "AND" (← l.evaluate s scope))
    if a == some false then return .boolean false
    let b ← ofExcept (Truth.ofValue "AND" (← r.evaluate s scope))
    return (Truth.and a b).toValue
  | binary .or l r => do
    let a ← ofExcept (Truth.ofValue "OR" (← l.evaluate s scope))
    if a == some true then return .boolean true
    let b ← ofExcept (Truth.ofValue "OR" (← r.evaluate s scope))
    return (Truth.or a b).toValue
  | binary op l r => do
    let a ← l.evaluate s scope
    let b ← r.evaluate s scope
    ofExcept (op.apply a b)
  | isNull e negated => do return .boolean ((← e.evaluate s scope).isNull != negated)
  | inList e items negated => do
    let v ← e.evaluate s scope
    let found ← findIn s scope v (membershipStart v items.isEmpty) items
    return negateIf negated found.toValue
  | inQuery e q negated => do
    let v ← e.evaluate s scope
    let r ← s.query q scope
    ofExcept (queryMembership v r negated)
  | between e low high negated => do
    let v ← e.evaluate s scope
    let l ← low.evaluate s scope
    let h ← high.evaluate s scope
    return negateIf negated (← ofExcept (applyBetween v l h))
  | like e pattern negated ignoreCase => do
    let v ← e.evaluate s scope
    let p ← pattern.evaluate s scope
    return negateIf negated (← ofExcept (applyLike v p ignoreCase))
  | cases operand branches otherwise => do
    let v ← evaluateOption s scope operand
    match ← firstBranch s scope v branches with
    | some result => return result
    | none => return (← evaluateOption s scope otherwise).getD .null
  | cast e type => do ofExcept (type.convert (← e.evaluate s scope))
  | exists_ q => do return .boolean (!(← s.query q scope).rows.isEmpty)
  | subquery q => do ofExcept (queryValue (← s.query q scope))
  | call name args => do s.call name (← evaluateAll s scope args)
  | aggregate f distinct arg => do
    match scope.group? with
    | none => throw (.execution ("aggregate function " ++ f.name ++ " is not allowed here"))
    | some rows =>
      let values ← evaluateRows s scope rows arg
      ofExcept (f.reduce distinct values)

/-- The values of expressions, from left to right. -/
def evaluateAll (s : Surroundings σ m) (scope : Scope) : List (Expr σ) → m (List Value)
  | [] => pure []
  | e :: es => do
    let v ← e.evaluate s scope
    return v :: (← evaluateAll s scope es)

/-- The value of an optional expression. -/
def evaluateOption (s : Surroundings σ m) (scope : Scope) : Option (Expr σ) → m (Option Value)
  | none => pure none
  | some e => do return some (← e.evaluate s scope)

/-- Whether a value is among those of expressions, which are evaluated up to the first match. -/
def findIn (s : Surroundings σ m) (scope : Scope) (v : Value) (result : Truth) :
    List (Expr σ) → m Truth
  | [] => pure result
  | e :: es => do
    match ← ofExcept (v.compare (← e.evaluate s scope)) with
    | some .eq => return some true
    | some _ => findIn s scope v result es
    | none => findIn s scope v none es

/-- The result of the first branch that is taken. -/
def firstBranch (s : Surroundings σ m) (scope : Scope) (operand : Option Value) :
    List (Expr σ × Expr σ) → m (Option Value)
  | [] => pure none
  | (condition, result) :: branches => do
    let c ← condition.evaluate s scope
    if ← ofExcept (takesBranch operand c) then return some (← result.evaluate s scope)
    else firstBranch s scope operand branches

/-- The values of an aggregate's argument on the rows of a group; without an argument every row
counts. -/
def evaluateRows (s : Surroundings σ m) (scope : Scope) (rows : List Tuple) :
    Option (Expr σ) → m (List Value)
  | none => pure (rows.map fun _ => .boolean true)
  | some e => rows.mapM fun row => e.evaluate s (scope.ofGroupRow row)

end

/-- Whether a condition is true; false and unknown do not pass. -/
def holds (s : Surroundings σ m) (scope : Scope) (clause : String) (e : Expr σ) : m Bool := do
  return (← ofExcept (Truth.ofValue clause (← e.evaluate s scope))) == some true

end Expr

end SqlStore
