import SqlStore.Syntax.Cursor
import SqlStore.Syntax.Statement

/-!
# Reading expressions

Operators bind by precedence, and those of two operands group to the left. `Grammar` holds the
readers of what stands inside an expression, so that one level of reading does not recur;
`Grammar.level` ties the levels together. Every level takes a token before it goes one level
down, so as many levels as there are tokens, and one more, are enough.
-/

namespace SqlStore

/-- The readers of nested expressions and queries. An expression is read from the least
precedence that its outermost operators may have. -/
structure Grammar where
  expression : Nat → Parser Expression
  select : Parser Select

namespace Precedence

def or : Nat := 1
def and : Nat := 2
def comparison : Nat := 3
def concat : Nat := 4
def additive : Nat := 5
def multiplicative : Nat := 6
def like : Nat := 7
def between : Nat := 8
def membership : Nat := 9
def isNull : Nat := 10
def not : Nat := 11
def sign : Nat := 12
def cast : Nat := 13

/-- The bounds of BETWEEN and the pattern of LIKE hold no comparison and no logic. -/
def operand : Nat := comparison + 1

end Precedence

/-- How tightly an operator binds. -/
def BinaryOp.precedence : BinaryOp → Nat
  | or => Precedence.or
  | and => Precedence.and
  | equal | notEqual | less | lessEqual | greater | greaterEqual => Precedence.comparison
  | concat | contains | containedBy | jsonGet | jsonGetText => Precedence.concat
  | add | subtract => Precedence.additive
  | multiply | divide | remainder => Precedence.multiplicative

/-- How tightly an operator in front binds. -/
def UnaryOp.precedence : UnaryOp → Nat
  | not => Precedence.not
  | minus | plus => Precedence.sign

/-- The operator between two operands that a token is. -/
def Token.binaryOp? : Token → Option BinaryOp
  | keyword .or => some .or
  | keyword .and => some .and
  | equal => some .equal
  | notEqual => some .notEqual
  | less => some .less
  | lessEqual => some .lessEqual
  | greater => some .greater
  | greaterEqual => some .greaterEqual
  | concat => some .concat
  | contains => some .contains
  | containedBy => some .containedBy
  | arrow => some .jsonGet
  | longArrow => some .jsonGetText
  | plus => some .add
  | minus => some .subtract
  | asterisk => some .multiply
  | slash => some .divide
  | percent => some .remainder
  | _ => none

/-- The operator in front of its operand that a token is. -/
def Token.unaryOp? : Token → Option UnaryOp
  | keyword .not => some .not
  | minus => some .minus
  | plus => some .plus
  | _ => none

/-- The operators behind their first operand. -/
inductive PostfixOp where
  | isNull
  | membership (negated : Bool)
  | between (negated : Bool)
  | like (negated : Bool)
  | cast
deriving Repr, DecidableEq

/-- How tightly an operator behind its operand binds. -/
def PostfixOp.precedence : PostfixOp → Nat
  | isNull => Precedence.isNull
  | membership _ => Precedence.membership
  | between _ => Precedence.between
  | like _ => Precedence.like
  | cast => Precedence.cast

/-- The operator that a word behind an operand begins, apart from `NOT`. -/
def Token.postfixOp? (negated : Bool) : Token → Option PostfixOp
  | keyword .in_ => some (.membership negated)
  | keyword .between => some (.between negated)
  | keyword .like => some (.like negated)
  | keyword .ilike => some (.like negated)
  | _ => none

namespace Parser

/-- Recognises an operator behind an operand without taking it. `NOT` is part of one only in
front of `IN`, `BETWEEN` and `LIKE`. -/
def peekPostfix : Parser (Option PostfixOp) := do
  match ← peek with
  | some (.keyword .is) => return some .isNull
  | some .doubleColon => return some .cast
  | some (.keyword .not) => return (← peekAt 1).bind (Token.postfixOp? true)
  | some t => return t.postfixOp? false
  | none => return none

/-! ## Types -/

/-- Takes the words that belong to the name of a type behind its first one. -/
def typeWords (first : String) : Parser String := do
  if first == "double" then
    if ← takeWord? "precision" then return "double precision" else return first
  else if first == "character" then
    if ← takeWord? "varying" then return "character varying" else return first
  else if first == "timestamp" || first == "time" then
    let zone := fun (word : String) => do
      expectWord "time"
      expectWord "zone"
      return first ++ " " ++ word ++ " time zone"
    if ← takeWord? "with" then zone "with"
    else if ← takeWord? "without" then zone "without"
    else return first
  else return first

/-- A number of 32 bits. -/
def modifier? (digits : String) : Option Nat :=
  (Text.nat? digits.toList).filter (· < UInt32.size)

/-- Reads the arguments of a type behind their parenthesis; `fuel` bounds their number. -/
def typeArgsFrom : Nat → Parser (List Nat)
  | 0 => return []
  | fuel + 1 => do
    let n ← match ← next with
      | .number digits => match modifier? digits with
        | some n => pure n
        | none => fail ("Invalid type modifier " ++ digits)
      | t => unexpected t
    if ← take? .comma then return n :: (← typeArgsFrom fuel)
    else
      expect .closeParen
      return [n]

/-- Reads a type with its arguments. -/
def typeName : Parser TypeName := do
  let start ← peekPosition
  let name ← typeWords (← ident)
  let args ← if ← take? .openParen then typeArgsFrom ((← get).rest.length + 1) else pure []
  match TypeName.resolve name args with
  | some t => return t
  | none => failAt start ("type " ++ quoteName name ++ " does not exist")

/-! ## Operands -/

/-- The value of a number: with an exponent a floating-point number, with a point a decimal, else
the narrowest type from 32-bit integers up to decimals that holds it. -/
def numberValue? (digits : String) : Option Value :=
  let cs := digits.toList
  if cs.any (fun c => c == 'e' || c == 'E') then (Binary64.parse? digits).map .double
  else if cs.contains '.' then
    let front := if cs.head? == some '.' then ['0'] else []
    let back := if cs.getLast? == some '.' then ['0'] else []
    (Numeric.parse? (String.ofList (front ++ cs ++ back))).map .numeric
  else match (Text.nat? cs).bind fun n => int32? n with
    | some n => some (.integer n)
    | none => match (Text.nat? cs).bind fun n => int64? n with
      | some n => some (.bigInt n)
      | none => (Numeric.parse? digits).map .numeric

/-- Reads the branches of a case distinction; `fuel` bounds their number. -/
def branchesFrom (g : Grammar) : Nat → Parser (List (Expression × Expression))
  | 0 => return []
  | fuel + 1 => do
    if ← takeKeyword? .when then
      let when ← g.expression 0
      expectKeyword .then_
      let then' ← g.expression 0
      return (when, then') :: (← branchesFrom g fuel)
    else return []

/-- Reads a case distinction behind its first word. -/
def caseExpression (g : Grammar) : Parser Expression := do
  let operand ← match ← peek with
    | some (.keyword .when) => pure none
    | _ => some <$> g.expression 0
  let branches ← branchesFrom g ((← get).rest.length + 1)
  if branches.isEmpty then
    failAt (← peekPosition) "CASE requires at least one WHEN clause"
  let otherwise ← if ← takeKeyword? .else_ then some <$> g.expression 0 else pure none
  expectKeyword .end_
  return .cases operand branches otherwise

/-- Reads the arguments of a call behind their parenthesis. -/
def callArgs (g : Grammar) (name : String) : Parser Expression := do
  match AggregateFunction.ofName? name with
  | some f =>
    if ← takeWhen? (f == .count) .asterisk then
      expect .closeParen
      return .aggregate f false none
    let distinct ← takeKeyword? .distinct
    if !distinct then
      let _ ← takeKeyword? .all
    let arg ← g.expression 0
    expect .closeParen
    return .aggregate f distinct (some arg)
  | none =>
    if ← take? .closeParen then return .call name []
    return .call name (← closedList (g.expression 0))

/-- Reads what follows a name: the arguments of a call, a column of a table, the text of a literal
of a type, or nothing. -/
def nameExpression (g : Grammar) (name : String) : Parser Expression := do
  if ← take? .openParen then callArgs g name
  else if ← take? .period then return .column (some name) (← ident)
  else
    match ← peek, TypeName.resolve name [] with
    | some (.string s), some t =>
      let _ ← next
      return .cast (.literal (.text s)) t.datatype
    | _, _ =>
      if ["current_timestamp", "current_date", "current_time", "localtimestamp"].contains name then
        return .call name []
      return .column none name

/-- Reads a query in parentheses, of which the first was taken. -/
def closedSelect (g : Grammar) : Parser Select := do
  let q ← g.select
  expect .closeParen
  return q

/-- Reads an operand. -/
def atom (g : Grammar) : Parser Expression := do
  match ← next with
  | .number digits => match numberValue? digits with
    | some v => return .literal v
    | none => fail ("Invalid number " ++ digits)
  | .string s => return .literal (.text s)
  | .keyword .true_ => return .literal (.boolean true)
  | .keyword .false_ => return .literal (.boolean false)
  | .keyword .null => return .literal .null
  | .openParen =>
    if (← peek) == some (.keyword .select) then return .subquery (← closedSelect g)
    let e ← g.expression 0
    expect .closeParen
    return e
  | .keyword .exists_ =>
    expect .openParen
    return .exists_ (← closedSelect g)
  | .keyword .case_ => caseExpression g
  | .keyword .cast =>
    expect .openParen
    let e ← g.expression 0
    expectKeyword .as
    let t ← typeName
    expect .closeParen
    return .cast e t.datatype
  | .ident name => nameExpression g name
  | .keyword k =>
    if k.isReserved then fail ("Unexpected expression token " ++ k.text)
    else nameExpression g k.asName
  | t => fail ("Unexpected expression token " ++ t.text)

/-- Takes an operator behind its operand, with its further operands. -/
def postfixExpression (g : Grammar) (e : Expression) : PostfixOp → Parser Expression
  | .isNull => do
    let _ ← next
    let negated ← takeKeyword? .not
    expectKeyword .null
    return .isNull e negated
  | .membership negated => do
    if negated then
      let _ ← next
    let _ ← next
    expect .openParen
    if (← peek) == some (.keyword .select) then return .inQuery e (← closedSelect g) negated
    return .inList e (← closedList (g.expression 0)) negated
  | .between negated => do
    if negated then
      let _ ← next
    let _ ← next
    let low ← g.expression Precedence.operand
    expectKeyword .and
    let high ← g.expression Precedence.operand
    return .between e low high negated
  | .like negated => do
    if negated then
      let _ ← next
    let word ← next
    let pattern ← g.expression Precedence.operand
    return .like e pattern negated (word == .keyword .ilike)
  | .cast => do
    let _ ← next
    let t ← typeName
    return .cast e t.datatype

/-- Goes on with operators behind an expression that bind at least as tightly as `least`; `fuel`
bounds their number. -/
def operatorsFrom (g : Grammar) (least : Nat) : Nat → Expression → Parser Expression
  | 0, e => return e
  | fuel + 1, e => do
    match ← peekPostfix with
    | some op =>
      if op.precedence < least then return e
      operatorsFrom g least fuel (← postfixExpression g e op)
    | none =>
      match (← peek).bind Token.binaryOp? with
      | none => return e
      | some op =>
        if op.precedence < least then return e
        let _ ← next
        let right ← g.expression (op.precedence + 1)
        operatorsFrom g least fuel (.binary op e right)

/-- Reads an expression whose operators bind at least as tightly as `least`. -/
def expressionFrom (g : Grammar) (least : Nat) : Parser Expression := do
  let first ← match (← peek).bind Token.unaryOp? with
    | some op => do
      let _ ← next
      pure (Expr.unary op (← g.expression op.precedence))
    | none => atom g
  operatorsFrom g least ((← get).rest.length + 1) first

end Parser

end SqlStore
