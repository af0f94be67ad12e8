import SqlStore.Syntax.Token

/-!
# Reading tokens

A cursor walks over scanned tokens and remembers where the last token stood. Looking at the next
token meets the failure that ended the scan once the tokens before it are used up; a conditional
step treats that failure as no match and leaves it for the step after.
-/

namespace SqlStore

/-- A place in a scan. -/
structure Cursor where
  rest : List Placed
  position : Nat
  failure : Option Error
  finish : Nat

/-- The start of a scan. -/
def Scan.cursor (s : Scan) : Cursor := ⟨s.tokens, 0, s.failure, s.finish⟩

/-- A reader of tokens. -/
abbrev Parser := StateT Cursor (Except Error)

namespace Parser

/-- The next token; `none` at the end of the text. -/
def peek : Parser (Option Token) := do
  let c ← get
  match c.rest, c.failure with
  | p :: _, _ => return some p.token
  | [], some e => throw e
  | [], none => return none

/-- The token `n` places ahead, if the scan got there. -/
def peekAt (n : Nat) : Parser (Option Token) := do
  return (← get).rest[n]?.map (·.token)

/-- The offset of the next token, or the end of the text. -/
def peekPosition : Parser Nat := do
  let c ← get
  return match c.rest with
    | p :: _ => p.offset
    | [] => c.finish

/-- The offset of the last token taken. -/
def position : Parser Nat := do return (← get).position

/-- Fails at a position. -/
def failAt {α : Type} (position : Nat) (message : String) : Parser α :=
  throw (.parse ("[Parser] " ++ message) position)

/-- Fails at the last token taken. -/
def fail {α : Type} (message : String) : Parser α := do failAt (← position) message

/-- Takes the next token. -/
def next : Parser Token := do
  let c ← get
  match c.rest, c.failure with
  | p :: rest, _ =>
    set { c with rest, position := p.offset }
    return p.token
  | [], some e => throw e
  | [], none => failAt c.finish "Unexpected end of input"

/-- Fails at a token that was taken. -/
def unexpected {α : Type} (t : Token) : Parser α := fail ("Unexpected token " ++ t.text)

/-- Fails at a word that was taken. -/
def unexpectedWord {α : Type} (w : String) : Parser α := fail ("Unexpected word " ++ w)

/-- Takes the next token if it is the given one. -/
def take? (t : Token) : Parser Bool := do
  let c ← get
  match c.rest with
  | p :: rest =>
    if p.token == t then
      set { c with rest, position := p.offset }
      return true
    else return false
  | [] => return false

/-- Takes the next token if it is the given keyword. -/
def takeKeyword? (k : Keyword) : Parser Bool := take? (.keyword k)

/-- Takes the next token if it is the given name. -/
def takeWord? (w : String) : Parser Bool := take? (.ident w)

/-- Takes the next token if it is the given one and a condition holds. -/
def takeWhen? (condition : Bool) (t : Token) : Parser Bool :=
  if condition then take? t else return false

/-- Takes the given token or fails. -/
def expect (t : Token) : Parser Unit := do
  let found ← next
  if found != t then fail ("Expected token " ++ t.text ++ ", got " ++ found.text)

/-- Takes the given keyword or fails. -/
def expectKeyword (k : Keyword) : Parser Unit := expect (.keyword k)

/-- Takes a name. Keywords that are not reserved are names too. -/
def ident : Parser String := do
  match ← next with
  | .ident name => return name
  | .keyword k =>
    if k.isReserved then fail ("Expected ident, got token " ++ k.text) else return k.asName
  | t => fail ("Expected ident, got token " ++ t.text)

/-- Takes the given word or fails. -/
def expectWord (w : String) : Parser Unit := do
  let found ← ident
  if found != w then unexpectedWord found

/-- Reads items with commas between them; `fuel` bounds their number. -/
def commaListFrom {α : Type} (item : Parser α) : Nat → Parser (List α)
  | 0 => return []
  | fuel + 1 => do
    let x ← item
    if ← take? .comma then return x :: (← commaListFrom item fuel) else return [x]

/-- Reads at least one item, with commas between the items. -/
def commaList {α : Type} (item : Parser α) : Parser (List α) := do
  commaListFrom item ((← get).rest.length + 1)

/-- Reads items with commas between them up to a closing parenthesis; `fuel` bounds their
number. -/
def closedListFrom {α : Type} (item : Parser α) : Nat → Parser (List α)
  | 0 => return []
  | fuel + 1 => do
    let x ← item
    match ← next with
    | .closeParen => return [x]
    | .comma => return x :: (← closedListFrom item fuel)
    | t => unexpected t

/-- Reads at least one item, with commas between the items, and the parenthesis behind them. -/
def closedList {α : Type} (item : Parser α) : Parser (List α) := do
  closedListFrom item ((← get).rest.length + 1)

/-- Runs a reader from the start of a text. -/
def run {α : Type} (p : Parser α) (text : String) : Except Error α :=
  (StateT.run p (Scan.ofString text).cursor).map Prod.fst

end Parser

end SqlStore
