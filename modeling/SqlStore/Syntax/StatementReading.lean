import SqlStore.Syntax.ExprReading

/-!
# Reading queries and statements

A text is a sequence of statements with semicolons between them, where empty ones do not count.
`parseStatements` reads a whole text, `parseExpression` one expression at its front.
-/

namespace SqlStore

namespace Parser

/-! ## Queries -/

/-- Reads an optional other name. Without `AS` it must not be a keyword. -/
def label? : Parser (Option String) := do
  if ← takeKeyword? .as then return some (← ident)
  match ← peek with
  | some (.ident _) => return some (← ident)
  | _ => return none

/-- Reads a table name with an optional schema. -/
def objectName : Parser ObjectName := do
  let first ← ident
  if ← take? .period then return ⟨some first, ← ident⟩
  return ⟨none, first⟩

/-- Reads an entry of the list of results. -/
def selectItem (g : Grammar) : Parser (SelectItem Select) := do
  if ← take? .asterisk then return .all
  match ← peek, ← peekAt 1, ← peekAt 2 with
  | some (.ident _), some .period, some .asterisk =>
    let table ← ident
    let _ ← next
    let _ ← next
    return .allOf table
  | _, _, _ =>
    let e ← g.expression 0
    return .expr e (← label?)

/-- Reads a sort key. -/
def orderItem (g : Grammar) : Parser (OrderItem Select) := do
  let e ← g.expression 0
  let descending ← takeKeyword? .desc
  if !descending then
    let _ ← takeKeyword? .asc
  let nullsFirst ← if ← takeKeyword? .nulls then
      match ← next with
      | .keyword .first => pure (some true)
      | .keyword .last => pure (some false)
      | t => unexpected t
    else pure none
  return ⟨e, descending, nullsFirst⟩

/-- Reads a table or a query in parentheses, as a source of rows. -/
def fromTable (g : Grammar) : Parser (FromItem Select) := do
  if ← take? .openParen then
    let q ← closedSelect g
    return .derived q (← label?)
  let name ← objectName
  return .table name (← label?)

/-- The join that a keyword begins. -/
def joinKind? : Token → Option JoinKind
  | .keyword .join => some .inner
  | .keyword .inner => some .inner
  | .keyword .cross => some .cross
  | .keyword .left => some .left
  | .keyword .right => some .right
  | .keyword .full => some .full
  | _ => none

/-- Takes the words of a join, if one begins here. -/
def joinWords : Parser (Option JoinKind) := do
  match (← peek).bind joinKind? with
  | none => return none
  | some kind =>
    if (← next) != .keyword .join then
      if kind == .left || kind == .right || kind == .full then
        let _ ← takeKeyword? .outer
      expectKeyword .join
    return some kind

/-- Reads a list of names in parentheses. -/
def identList : Parser (List String) := do
  expect .openParen
  closedList ident

/-- Reads the condition behind the right side of a join. -/
def joinCondition (g : Grammar) (natural : Bool) (kind : JoinKind) :
    Parser (JoinCondition Select) := do
  if natural then
    if kind == .cross then fail "NATURAL cannot be combined with CROSS JOIN"
    return .natural
  if kind == .cross then return .always
  if ← takeKeyword? .on then return .on (← g.expression 0)
  if ← takeKeyword? .using_ then return .using_ (← identList)
  failAt (← peekPosition) "Expected ON or USING after JOIN"

/-- Reads the joins behind a source; `fuel` bounds their number. -/
def joinsFrom (g : Grammar) : Nat → FromItem Select → Parser (FromItem Select)
  | 0, left => return left
  | fuel + 1, left => do
    let natural ← takeKeyword? .natural
    match ← joinWords with
    | none => if natural then unexpected (← next) else return left
    | some kind =>
      let right ← fromTable g
      let condition ← joinCondition g natural kind
      joinsFrom g fuel (.join kind left right condition)

/-- Reads a source with its joins. -/
def fromItem (g : Grammar) : Parser (FromItem Select) := do
  let left ← fromTable g
  joinsFrom g ((← get).rest.length + 1) left

/-- Reads the condition of a `WHERE`, if there is one. -/
def filter? (g : Grammar) : Parser (Option Expression) := do
  if ← takeKeyword? .where_ then some <$> g.expression 0 else return none

/-- Reads the bounds of the number of rows, in either order and each at most once; `ALL` rows are
no bound. `fuel` bounds the number of clauses. -/
def boundsFrom (g : Grammar) :
    Nat → Option Expression → Option Expression → Parser (Option Expression × Option Expression)
  | 0, limit, offset => return (limit, offset)
  | fuel + 1, limit, offset => do
    if ← takeWhen? limit.isNone (.keyword .limit) then
      if ← takeKeyword? .all then boundsFrom g fuel limit offset
      else boundsFrom g fuel (some (← g.expression 0)) offset
    else if ← takeWhen? offset.isNone (.keyword .offset) then
      let e ← g.expression 0
      if !(← takeWord? "rows") then
        let _ ← takeWord? "row"
      boundsFrom g fuel limit (some e)
    else return (limit, offset)

/-- Reads a query. -/
def selectFrom (g : Grammar) : Parser Select := do
  expectKeyword .select
  let distinct ← takeKeyword? .distinct
  if !distinct then
    let _ ← takeKeyword? .all
  let items ← commaList (selectItem g)
  let sources ← if ← takeKeyword? .from_ then commaList (fromItem g) else pure []
  let filter ← filter? g
  let groupBy ← if ← takeKeyword? .group then do
      expectKeyword .by_
      commaList (g.expression 0)
    else pure []
  let having ← if ← takeKeyword? .having then some <$> g.expression 0 else pure none
  let orderBy ← if ← takeKeyword? .order then do
      expectKeyword .by_
      commaList (orderItem g)
    else pure []
  let (limit, offset) ← boundsFrom g ((← get).rest.length + 1) none none
  return .mk { distinct, items, sources, filter, groupBy, having, orderBy, limit, offset }

/-- The grammar with a number of levels. -/
def grammar : Nat → Grammar
  | 0 =>
    { expression := fun _ => throw (.internal "expression nests too deep")
      select := throw (.internal "query nests too deep") }
  | levels + 1 =>
    { expression := fun least => expressionFrom (grammar levels) least
      select := selectFrom (grammar levels) }

/-- Runs a reader with a grammar that has enough levels for the tokens that are left. -/
def withGrammar {α : Type} (p : Grammar → Parser α) : Parser α := do
  p (grammar ((← get).rest.length + 1))

/-! ## Statements -/

/-- Reads `IF NOT EXISTS`, if it is there. -/
def ifNotExists : Parser Bool := do
  if ← takeKeyword? .if_ then
    expectKeyword .not
    expectKeyword .exists_
    return true
  else return false

/-- Reads `IF EXISTS`, if it is there. -/
def ifExists : Parser Bool := do
  if ← takeKeyword? .if_ then
    expectKeyword .exists_
    return true
  else return false

/-- Reads the constraints of a column; `fuel` bounds their number. -/
def constraintsFrom (g : Grammar) : Nat → ColumnSpec → Parser ColumnSpec
  | 0, c => return c
  | fuel + 1, c => do
    match ← peek with
    | some (.keyword .null) =>
      let _ ← next
      constraintsFrom g fuel { c with nullable := some true }
    | some (.keyword .not) =>
      let _ ← next
      expectKeyword .null
      constraintsFrom g fuel { c with nullable := some false }
    | some (.keyword .default_) =>
      let _ ← next
      let e ← g.expression 0
      constraintsFrom g fuel { c with default := some e }
    | some (.keyword .primary) =>
      let _ ← next
      expectKeyword .key
      constraintsFrom g fuel { c with primaryKey := true }
    | some (.keyword .unique) =>
      let _ ← next
      constraintsFrom g fuel { c with unique := true }
    | _ => return c

/-- Reads a column with its constraints. -/
def columnSpec (g : Grammar) : Parser ColumnSpec := do
  let name ← ident
  let type ← typeName
  constraintsFrom g ((← get).rest.length + 1) ⟨name, type, none, none, false, false⟩

/-- Reads a `CREATE`. -/
def createStatement (g : Grammar) : Parser Statement := do
  expectKeyword .create
  match ← next with
  | .keyword .table =>
    let exists' ← ifNotExists
    let name ← objectName
    expect .openParen
    let columns ← commaList (columnSpec g)
    expect .closeParen
    return .createTable name columns exists'
  | .keyword .schema =>
    let exists' ← ifNotExists
    return .createSchema (← ident) exists'
  | t => unexpected t

/-- Reads a `DROP`. -/
def dropStatement : Parser Statement := do
  expectKeyword .drop
  match ← next with
  | .keyword .table =>
    let exists' ← ifExists
    return .dropTable (← commaList objectName) exists'
  | .keyword .schema =>
    let exists' ← ifExists
    return .dropSchema (← ident) exists'
  | t => unexpected t

/-- Reads a value to insert; `DEFAULT` asks for the default. -/
def insertValue (g : Grammar) : Parser (Option Expression) := do
  if ← takeKeyword? .default_ then return none else some <$> g.expression 0

/-- Reads the values of a row in parentheses. -/
def insertRow (g : Grammar) : Parser (List (Option Expression)) := do
  expect .openParen
  closedList (insertValue g)

/-- Reads an `INSERT`. -/
def insertStatement (g : Grammar) : Parser Statement := do
  expectKeyword .insert
  expectKeyword .into
  let table ← objectName
  let columns ← if (← peek) == some .openParen then some <$> identList else pure none
  if (← peek) == some (.keyword .select) then
    return .insert table columns (.query (← g.select))
  expectKeyword .values
  return .insert table columns (.values (← commaList (insertRow g)))

/-- Reads the assignments of an `UPDATE`, no column twice; `done` holds those read, last one
first, and `fuel` bounds their number. -/
def assignmentsFrom (g : Grammar) :
    Nat → List (String × Expression) → Parser (List (String × Expression))
  | 0, done => return done.reverse
  | fuel + 1, done => do
    let column ← ident
    let start ← position
    expect .equal
    let e ← g.expression 0
    if done.any (·.1 == column) then
      failAt start ("multiple assignments to same column " ++ quoteName column)
    let done := (column, e) :: done
    if ← take? .comma then assignmentsFrom g fuel done else return done.reverse

/-- Reads an `UPDATE`. -/
def updateStatement (g : Grammar) : Parser Statement := do
  expectKeyword .update
  let table ← objectName
  let label ← label?
  expectKeyword .set_
  let assignments ← assignmentsFrom g ((← get).rest.length + 1) []
  return .update table label assignments (← filter? g)

/-- Reads a `DELETE`. -/
def deleteStatement (g : Grammar) : Parser Statement := do
  expectKeyword .delete
  expectKeyword .from_
  let table ← objectName
  let label ← label?
  return .delete table label (← filter? g)

/-- Reads the isolation level behind its first two words. -/
def isolationLevel : Parser Isolation := do
  match ← ident with
  | "read" => match ← ident with
    | "uncommitted" => return .readUncommitted
    | "committed" => return .readCommitted
    | other => unexpectedWord other
  | "repeatable" =>
    expectWord "read"
    return .repeatableRead
  | "serializable" => return .serializable
  | other => unexpectedWord other

/-- Reads the start of a transaction. -/
def beginStatement : Parser Statement := do
  match ← next with
  | .keyword .start => expectKeyword .transaction
  | _ =>
    let _ ← takeKeyword? .transaction
  if ← takeKeyword? .isolation then
    expectKeyword .level
    return .begin_ (some (← isolationLevel))
  return .begin_ none

/-- Takes the word of a transaction's end. -/
def endStatement (s : Statement) : Parser Statement := do
  let _ ← next
  let _ ← takeKeyword? .transaction
  return s

/-- Reads one statement by its first word. -/
def statement (g : Grammar) : Parser Statement := do
  match ← peek with
  | some (.keyword .create) => createStatement g
  | some (.keyword .drop) => dropStatement
  | some (.keyword .select) => return .select (← g.select)
  | some (.keyword .insert) => insertStatement g
  | some (.keyword .update) => updateStatement g
  | some (.keyword .delete) => deleteStatement g
  | some (.keyword .begin_) => beginStatement
  | some (.keyword .start) => beginStatement
  | some (.keyword .commit) => endStatement .commit
  | some (.keyword .end_) => endStatement .commit
  | some (.keyword .rollback) => endStatement .rollback
  | some t => failAt (← peekPosition) ("Unexpected token " ++ t.text)
  | none => failAt (← get).finish "Unexpected end of input"

/-- Takes semicolons; `fuel` bounds their number. -/
def semicolons : Nat → Parser Unit
  | 0 => return ()
  | fuel + 1 => do if ← take? .semicolon then semicolons fuel

/-- Reads the statements that are left; `fuel` bounds their number. -/
def statementsFrom : Nat → Parser (List Statement)
  | 0 => return []
  | fuel + 1 => do
    semicolons ((← get).rest.length + 1)
    if (← peek).isNone then return []
    let s ← withGrammar statement
    match ← peek with
    | none => pure ()
    | some .semicolon => pure ()
    | some t => failAt (← peekPosition) ("Unexpected token " ++ t.text)
    return s :: (← statementsFrom fuel)

/-- Reads a whole text of statements. -/
def statements : Parser (List Statement) := do statementsFrom ((← get).rest.length + 1)

end Parser

/-- Reads a text of statements. -/
def parseStatements (text : String) : Except Error (List Statement) := Parser.statements.run text

/-- Reads the expression at the front of a text. -/
def parseExpression (text : String) : Except Error Expression :=
  Parser.run (Parser.withGrammar fun g => g.expression 0) text

end SqlStore
