import SqlStore.Query.Plan

/-!
# Planning queries

A query becomes a plan against a catalog of tables and the scope around it. Planning finds the
tables, expands `*`, resolves every column reference, keeps aggregates out of clauses that are
evaluated row by row, and checks that a grouped query reads only what it groups by.
-/

namespace SqlStore

/-- The definition of a table by name, or the failure. -/
abbrev Catalog := ObjectName → Except Error TableDefinition

/-- Succeeds when a condition holds. -/
def require (condition : Bool) (message : String) : Except Error Unit :=
  if condition then .ok () else .error (.execution message)

namespace Expr

variable {σ : Type}

/-! ## Checks of expressions -/

/-- A column reference is bound in the scope. -/
def checkReference (scope : Scope) : Expr σ → Except Error Unit
  | column table name => do
    if !(← scope.binds table name) then throw (ResultColumn.unknown table name)
  | _ => .ok ()

/-- Every column reference is bound in the scope. -/
def checkColumns (scope : Scope) (e : Expr σ) : Except Error Unit :=
  e.subexpressions.forM (checkReference scope)

/-- A clause that is evaluated row by row. -/
def checkClause (scope : Scope) (clause : String) (e : Expr σ) : Except Error Unit := do
  require (!e.hasAggregate) ("aggregate functions are not allowed in " ++ clause)
  e.checkColumns scope

/-- No aggregate stands inside another. -/
def checkNesting (e : Expr σ) : Except Error Unit :=
  require (!e.hasNestedAggregate) "aggregate function calls cannot be nested"

/-- A clause that may aggregate. -/
def checkAggregating (scope : Scope) (e : Expr σ) : Except Error Unit := do
  e.checkColumns scope
  e.checkNesting

/-- A column reference of a grouped query is grouped, or belongs to an enclosing query. -/
def checkGroupedColumn (keys : List (Expr σ)) (columns : List ResultColumn)
    (table : Option String) (name : String) : Except Error Unit := do
  match ← ResultColumn.resolve columns table name with
  | none => return ()
  | some index =>
    let grouped := keys.any fun
      | column t n => match ResultColumn.resolve columns t n with
        | .ok (some i) => i == index
        | _ => false
      | _ => false
    let qualified := match columns[index]?.bind (·.table) with
      | some t => t ++ "." ++ name
      | none => name
    require grouped ("column " ++ quoteName qualified ++
      " must appear in the GROUP BY clause or be used in an aggregate function")

mutual

/-- Outside aggregates and queries, an expression of a grouped query is a key, or its parts are
made of keys. -/
def checkGrouped (same : Expr σ → Expr σ → Bool) (keys : List (Expr σ))
    (columns : List ResultColumn) (e : Expr σ) : Except Error Unit :=
  if keys.any (same · e) then .ok () else
  match e with
  | literal _ | aggregate .. | exists_ _ | subquery _ => .ok ()
  | column table name => checkGroupedColumn keys columns table name
  | unary _ a => a.checkGrouped same keys columns
  | isNull a _ => a.checkGrouped same keys columns
  | cast a _ => a.checkGrouped same keys columns
  | inQuery a _ _ => a.checkGrouped same keys columns
  | binary _ l r => do
    l.checkGrouped same keys columns
    r.checkGrouped same keys columns
  | inList a items _ => do
    a.checkGrouped same keys columns
    checkAllGrouped same keys columns items
  | between a low high _ => do
    a.checkGrouped same keys columns
    low.checkGrouped same keys columns
    high.checkGrouped same keys columns
  | like a pattern _ _ => do
    a.checkGrouped same keys columns
    pattern.checkGrouped same keys columns
  | cases operand branches otherwise => do
    checkOptionGrouped same keys columns operand
    checkBranchesGrouped same keys columns branches
    checkOptionGrouped same keys columns otherwise
  | call _ args => checkAllGrouped same keys columns args

/-- The check of every member of a list. -/
def checkAllGrouped (same : Expr σ → Expr σ → Bool) (keys : List (Expr σ))
    (columns : List ResultColumn) : List (Expr σ) → Except Error Unit
  | [] => .ok ()
  | e :: es => do
    e.checkGrouped same keys columns
    checkAllGrouped same keys columns es

/-- The check of an optional expression. -/
def checkOptionGrouped (same : Expr σ → Expr σ → Bool) (keys : List (Expr σ))
    (columns : List ResultColumn) : Option (Expr σ) → Except Error Unit
  | none => .ok ()
  | some e => e.checkGrouped same keys columns

/-- The check of the branches of CASE. -/
def checkBranchesGrouped (same : Expr σ → Expr σ → Bool) (keys : List (Expr σ))
    (columns : List ResultColumn) : List (Expr σ × Expr σ) → Except Error Unit
  | [] => .ok ()
  | (condition, result) :: branches => do
    condition.checkGrouped same keys columns
    result.checkGrouped same keys columns
    checkBranchesGrouped same keys columns branches

end

/-! ## Types of results -/

/-- The type of a function's results, where it is always the same. -/
def functionType? : String → Option DataType
  | "lower" | "upper" | "concat" | "jsonb_typeof" => some .text
  | "length" => some .integer
  | "gen_random_uuid" | "uuid_generate_v4" | "uuid_generate_v7" => some .uuid
  | "now" | "current_timestamp" | "transaction_timestamp" => some .timestampTz
  | "localtimestamp" => some .timestamp
  | "current_date" => some .date
  | "current_time" | "localtime" => some .time
  | _ => none

/-- The type of a concatenation. -/
def concatType : Option DataType → Option DataType → DataType
  | some .jsonb, _ => .jsonb
  | _, some .jsonb => .jsonb
  | some .bytea, some .bytea => .bytea
  | _, _ => .text

/-- The type of an expression's values, where it is known beforehand. -/
def type? (columns : List ResultColumn) : Expr σ → Option DataType
  | literal v => v.datatype
  | column table name => match ResultColumn.resolve columns table name with
    | .ok (some i) => columns[i]?.bind (·.datatype)
    | _ => none
  | cast _ type => some type
  | isNull _ _ | inList _ _ _ | inQuery _ _ _ | between _ _ _ _ | like _ _ _ _ | exists_ _ =>
    some .boolean
  | unary .not _ => some .boolean
  | unary _ e => e.type? columns
  | binary op l r => match op with
    | .and | .or | .equal | .notEqual | .less | .lessEqual | .greater | .greaterEqual
    | .contains | .containedBy => some .boolean
    | .jsonGet => some .jsonb
    | .jsonGetText => some .text
    | .concat => some (concatType (l.type? columns) (r.type? columns))
    | .add | .subtract | .multiply | .divide | .remainder => none
  | aggregate .count _ _ => some .bigInt
  | aggregate .min _ (some e) | aggregate .max _ (some e) => e.type? columns
  | aggregate _ _ _ => none
  | call name _ => functionType? name
  | cases _ _ _ | subquery _ => none

end Expr

namespace Output

/-- The result that a column of the sources is. -/
def ofColumn (c : ResultColumn) : Output := ⟨.column c.table c.name, c⟩

/-- The table that a plain column reference belongs to. -/
def tableOf (columns : List ResultColumn) : Expression → Except Error (Option String)
  | .column table name => do
    return (← ResultColumn.resolve columns table name).bind fun i => columns[i]?.bind (·.table)
  | _ => .ok none

/-- The results of one entry of the list of results. -/
def ofItem (noSources : Bool) (columns : List ResultColumn) (scope : Scope) :
    SelectItem Select → Except Error (List Output)
  | .all => do
    require (!noSources) "SELECT * with no tables specified is not valid"
    return columns.map ofColumn
  | .allOf table => do
    let found := columns.filter fun c => c.table == some table
    require (!found.isEmpty) ("missing FROM-clause entry for table " ++ quoteName table)
    return found.map ofColumn
  | .expr e label => do
    e.checkAggregating scope
    return [⟨e, ← tableOf columns e, label.getD e.outputName, e.type? columns⟩]

/-- The place of a result that a sort key names, by its name or by its expression. -/
def place? (outputs : List Output) (e : Expression) : Option Nat :=
  let named := match e with
    | .column none name => outputs.findIdx? fun (o : Output) => o.column.name == name
    | _ => none
  named.orElse fun _ => outputs.findIdx? fun (o : Output) => sameExpression o.expr e

end Output

namespace Plan

/-- The place that a number in a clause stands for, counted from one. -/
def positionOf (clause : String) (width : Nat) (n : Int32) : Except Error Nat :=
  if 1 ≤ n.toInt && n.toInt ≤ width then .ok (n.toInt.toNat - 1)
  else .error (.execution (clause ++ " position " ++ Text.showInt n.toInt ++
    " is not in select list"))

/-- The expression that an entry of GROUP BY stands for: a result by its position, a result by its
name where no column has that name, or itself. -/
def groupKey (columns : List ResultColumn) (outputs : List Output) (scope : Scope)
    (e : Expression) : Except Error Expression := do
  let key ← match e with
    | .literal (.integer n) => do
      let i ← positionOf "GROUP BY" outputs.length n
      pure ((outputs[i]?.map Output.expr).getD e)
    | .column none name => do
      match ← ResultColumn.resolve columns none name with
      | some _ => pure e
      | none => pure (((outputs.find? fun o => o.column.name == name).map Output.expr).getD e)
    | _ => pure e
  key.checkClause scope "GROUP BY"
  return key

/-- The places of the columns that USING names, on the left and on the right. -/
def usingPlaces (left right : List ResultColumn) (name : String) : Except Error (Nat × Nat) := do
  let side := fun (columns : List ResultColumn) (which : String) => do
    match ← ResultColumn.resolve columns none name with
    | some i => return i
    | none => throw (.execution ("column " ++ quoteName name ++
        " specified in USING clause does not exist in " ++ which ++ " table"))
  return (← side left "left", ← side right "right")

/-- The places of the columns with one name on both sides. -/
def naturalPlaces (left right : List ResultColumn) : List (Nat × Nat) :=
  left.zipIdx.filterMap fun (c, l) =>
    (right.findIdx? fun d => d.name == c.name).map fun r => (l, r)

/-- The predicate and the merged columns of a join. -/
def joinRule (left right : List ResultColumn) (outer : Scope) :
    JoinCondition Select → Except Error (Option Expression × List (Nat × Nat))
  | .always => .ok (none, [])
  | .on e => do
    e.checkClause (.ofColumns (left ++ right) :: outer) "JOIN conditions"
    return (some e, [])
  | .using_ names => do return (none, ← names.mapM (usingPlaces left right))
  | .natural => .ok (none, naturalPlaces left right)

/-- Cross joins the sources from left to right; without sources there is a single row. -/
def crossAll : List Plan → Plan
  | [] => singleRow
  | p :: ps => ps.foldl (fun all q => join .cross all q none []) p

/-- What a query's clauses say about its results: the visible ones, and whether rows are grouped. -/
structure Shape where
  columns : List ResultColumn
  scope : Scope
  visible : List Output
  keys : List Expression
  grouped : Bool

/-- An expression of a result fits the grouping, if there is one. -/
def Shape.checkGrouping (shape : Shape) (e : Expression) : Except Error Unit :=
  if shape.grouped then e.checkGrouped sameExpression shape.keys shape.columns else .ok ()

/-- The results after a sort key was resolved, and the key. A key that is no result becomes a hidden
one behind the others. -/
def sortKey (shape : Shape) (distinct : Bool) (outputs : List Output) (item : OrderItem Select) :
    Except Error (List Output × SortKey) := do
  let key := fun (index : Nat) =>
    (⟨index, item.descending, item.nullsFirst.getD item.descending⟩ : SortKey)
  match item.expr with
  | .literal (.integer n) => return (outputs, key (← positionOf "ORDER BY" shape.visible.length n))
  | e =>
    match Output.place? shape.visible e with
    | some i => return (outputs, key i)
    | none =>
      require (!distinct) "for SELECT DISTINCT, ORDER BY expressions must appear in select list"
      e.checkAggregating shape.scope
      shape.checkGrouping e
      let column : ResultColumn := ⟨none, Expr.anonymous, e.type? shape.columns⟩
      return (outputs ++ [⟨e, column⟩], key outputs.length)

/-- Resolves the sort keys one after the other. -/
def sortKeys (shape : Shape) (distinct : Bool) :
    List Output → List (OrderItem Select) → Except Error (List Output × List SortKey)
  | outputs, [] => .ok (outputs, [])
  | outputs, item :: items => do
    let (outputs, key) ← sortKey shape distinct outputs item
    let (outputs, keys) ← sortKeys shape distinct outputs items
    return (outputs, key :: keys)

/-- A bound of the number of rows, laid over a plan. -/
def bounded (make : Plan → Expression → Plan) (clause : String) (plan : Plan) :
    Option Expression → Except Error Plan
  | none => .ok plan
  | some e => do
    e.checkClause [] clause
    return make plan e

/-- The plan of a query's clauses over the plan of its sources. -/
def ofClauses (body : SelectBody Select) (sources : Plan) (outer : Scope) : Except Error Plan := do
  let columns := sources.columns
  let scope := Frame.ofColumns columns :: outer
  let source ← match body.filter with
    | none => pure sources
    | some e => do
      e.checkClause scope "WHERE"
      pure (sources.filter e)
  let visible := (← body.items.mapM (Output.ofItem body.sources.isEmpty columns scope)).flatten
  let grouped := !body.groupBy.isEmpty || body.having.isSome ||
    visible.any (·.expr.hasAggregate) || body.orderBy.any (·.expr.hasAggregate)
  let keys ← body.groupBy.mapM (groupKey columns visible scope)
  let shape : Shape := ⟨columns, scope, visible, keys, grouped⟩
  body.having.forM (·.checkAggregating scope)
  visible.forM fun o => shape.checkGrouping o.expr
  body.having.forM shape.checkGrouping
  let (outputs, sorting) ← sortKeys shape body.distinct visible body.orderBy
  let results := if grouped then source.group keys body.having outputs else source.project outputs
  let results := if body.distinct then results.distinct else results
  let results := if sorting.isEmpty then results else results.order sorting
  let results ← bounded offset "OFFSET" results body.offset
  let results ← bounded limit "LIMIT" results body.limit
  return if outputs.length > visible.length then results.truncate visible.length else results

mutual

/-- The plan of a query inside an outer scope. -/
def ofSelect (catalog : Catalog) (outer : Scope) : Select → Except Error Plan
  | .mk body => ofBody catalog outer body

/-- The plan of the clauses of a query. -/
def ofBody (catalog : Catalog) (outer : Scope) : SelectBody Select → Except Error Plan
  | body@⟨_, _, sources, _, _, _, _, _, _⟩ => do
    let plans ← ofSources catalog outer sources
    ofClauses body (crossAll plans) outer

/-- The plans of sources, from left to right. -/
def ofSources (catalog : Catalog) (outer : Scope) :
    List (FromItem Select) → Except Error (List Plan)
  | [] => .ok []
  | s :: ss => do
    let p ← ofSource catalog outer s
    return p :: (← ofSources catalog outer ss)

/-- The plan of a source. -/
def ofSource (catalog : Catalog) (outer : Scope) : FromItem Select → Except Error Plan
  | .table name label => do return scan (← catalog name) label
  | .derived query label => do return derived (← ofSelect catalog outer query) label
  | .join kind l r condition => do
    let left ← ofSource catalog outer l
    let right ← ofSource catalog outer r
    let (predicate, merged) ← joinRule left.columns right.columns outer condition
    return join kind left right predicate merged

end

end Plan

end SqlStore
