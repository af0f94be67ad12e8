import SqlStore.Error
import SqlStore.Syntax.Keyword

/-!
# Tokens

Text is cut into tokens, each with the offset of its first character. Blanks and comments stand
between them: `--` runs to the end of the line, and a block comment to its end mark. Scanning
stops at the first character that begins no token and keeps that failure behind the tokens before
it, so that a reader meets it only when it gets there.
-/

namespace SqlStore

/-- A token. -/
inductive Token where
  | keyword (k : Keyword)
  /-- A name: in lower case, or as written between double quotes. -/
  | ident (name : String)
  | string (s : String)
  | number (digits : String)
  | openParen
  | closeParen
  | comma
  | semicolon
  | period
  | asterisk
  | plus
  | minus
  | slash
  | percent
  | equal
  | notEqual
  | less
  | lessEqual
  | greater
  | greaterEqual
  | concat
  | contains
  | containedBy
  | arrow
  | longArrow
  | doubleColon
deriving Repr, DecidableEq

namespace Token

/-- The token as messages show it. -/
def text : Token → String
  | keyword k => k.text
  | ident name => name
  | string s => "'" ++ s ++ "'"
  | number digits => digits
  | openParen => "("
  | closeParen => ")"
  | comma => ","
  | semicolon => ";"
  | period => "."
  | asterisk => "*"
  | plus => "+"
  | minus => "-"
  | slash => "/"
  | percent => "%"
  | equal => "="
  | notEqual => "<>"
  | less => "<"
  | lessEqual => "<="
  | greater => ">"
  | greaterEqual => ">="
  | concat => "||"
  | contains => "@>"
  | containedBy => "<@"
  | arrow => "->"
  | longArrow => "->>"
  | doubleColon => "::"

end Token

/-- A token at the offset of its first character. -/
structure Placed where
  token : Token
  offset : Nat
deriving Repr, DecidableEq

/-- What scanning gives: the tokens, the failure that stopped it, and the length of the text. -/
structure Scan where
  tokens : List Placed
  failure : Option Error
  finish : Nat
deriving Repr, DecidableEq

namespace Lexeme

/-- The text behind a block comment whose start mark was taken off. -/
def afterComment : List Char → Option (List Char)
  | [] => none
  | '*' :: '/' :: cs => some cs
  | _ :: cs => afterComment cs

/-- The text behind blanks and comments; a block comment without an end gives the text from its
start mark. `fuel` bounds the number of comments. -/
def skip : Nat → List Char → Except (List Char) (List Char)
  | 0, cs => .ok cs
  | fuel + 1, cs => match cs.dropWhile Text.isBlank with
    | '-' :: '-' :: rest => skip fuel (rest.dropWhile (· != '\n'))
    | '/' :: '*' :: rest => match afterComment rest with
      | some rest => skip fuel rest
      | none => .error ('/' :: '*' :: rest)
    | rest => .ok rest

/-- The characters up to the closing quote, which is doubled inside, and the text behind it. -/
def quoted (quote : Char) (done : List Char) : List Char → Option (List Char × List Char)
  | [] => none
  | [c] => if c == quote then some (done.reverse, []) else none
  | c :: d :: cs =>
    if c == quote then
      if d == quote then quoted quote (quote :: done) cs else some (done.reverse, d :: cs)
    else quoted quote (c :: done) (d :: cs)

/-- Digits with an optional point and an optional exponent. An exponent mark counts only in front
of a digit or a sign. -/
def number (cs : List Char) : List Char × List Char :=
  let digits := fun (cs : List Char) => (cs.takeWhile Char.isDigit, cs.dropWhile Char.isDigit)
  let (whole, cs) := digits cs
  let (places, cs) := match cs with
    | '.' :: cs => let (ds, cs) := digits cs; ('.' :: ds, cs)
    | cs => ([], cs)
  let (exponent, cs) := match cs with
    | mark :: next :: cs =>
      if (mark == 'e' || mark == 'E') && (next.isDigit || next == '+' || next == '-') then
        let (ds, cs) := digits cs
        (mark :: next :: ds, cs)
      else ([], mark :: next :: cs)
    | cs => ([], cs)
  (whole ++ places ++ exponent, cs)

/-- Whether a name may begin with the character. -/
def startsName (c : Char) : Bool := Text.isAlphabetic c || c == '_'

/-- Whether a name may go on with the character. -/
def continuesName (c : Char) : Bool := Text.isAlphanumeric c || c == '_' || c == '$'

/-- The keyword or the name that a word is. -/
def word (w : String) : Token :=
  match Keyword.ofWord? w with
  | some k => .keyword k
  | none => .ident (Text.lower w)

/-- The operator or mark at the front. -/
def symbol? : List Char → Option (Token × List Char)
  | '-' :: '>' :: '>' :: cs => some (.longArrow, cs)
  | '-' :: '>' :: cs => some (.arrow, cs)
  | '-' :: cs => some (.minus, cs)
  | '<' :: '=' :: cs => some (.lessEqual, cs)
  | '<' :: '>' :: cs => some (.notEqual, cs)
  | '<' :: '@' :: cs => some (.containedBy, cs)
  | '<' :: cs => some (.less, cs)
  | '>' :: '=' :: cs => some (.greaterEqual, cs)
  | '>' :: cs => some (.greater, cs)
  | '!' :: '=' :: cs => some (.notEqual, cs)
  | '|' :: '|' :: cs => some (.concat, cs)
  | '@' :: '>' :: cs => some (.contains, cs)
  | ':' :: ':' :: cs => some (.doubleColon, cs)
  | '*' :: cs => some (.asterisk, cs)
  | '(' :: cs => some (.openParen, cs)
  | ')' :: cs => some (.closeParen, cs)
  | ',' :: cs => some (.comma, cs)
  | ';' :: cs => some (.semicolon, cs)
  | '.' :: cs => some (.period, cs)
  | '+' :: cs => some (.plus, cs)
  | '/' :: cs => some (.slash, cs)
  | '%' :: cs => some (.percent, cs)
  | '=' :: cs => some (.equal, cs)
  | _ => none

/-- The token at the front of a text that is not empty, or what is wrong there. -/
def next (cs : List Char) : Except String (Token × List Char) :=
  match cs with
  | [] => .error "[Lexer] Unexpected end of input"
  | c :: rest =>
    if c.toNat == 39 then
      match quoted c [] rest with
      | some (s, cs) => .ok (.string (String.ofList s), cs)
      | none => .error "[Lexer] Unexpected end of string"
    else if c == '"' then
      match quoted c [] rest with
      | some ([], _) => .error "[Lexer] Zero-length quoted identifier"
      | some (s, cs) => .ok (.ident (String.ofList s), cs)
      | none => .error "[Lexer] Unterminated quoted identifier"
    else if c.isDigit || (c == '.' && rest.head?.any Char.isDigit) then
      let (digits, cs) := number cs
      .ok (.number (String.ofList digits), cs)
    else if startsName c then
      .ok (word (String.ofList (c :: rest.takeWhile continuesName)), rest.dropWhile continuesName)
    else match symbol? cs with
      | some found => .ok found
      | none => .error ("[Lexer] Unexpected character " ++ String.ofList [c])

/-- Scans the rest of a text of `finish` characters; `fuel` bounds the number of tokens. -/
def scanFrom (finish : Nat) : Nat → List Char → Scan
  | 0, _ => ⟨[], none, finish⟩
  | fuel + 1, cs =>
    match skip (cs.length + 1) cs with
    | .error rest =>
      ⟨[], some (.parse "[Lexer] Unterminated block comment" (finish - rest.length)), finish⟩
    | .ok [] => ⟨[], none, finish⟩
    | .ok cs =>
      let offset := finish - cs.length
      match next cs with
      | .error message => ⟨[], some (.parse message offset), finish⟩
      | .ok (token, cs) =>
        let rest := scanFrom finish fuel cs
        { rest with tokens := ⟨token, offset⟩ :: rest.tokens }

end Lexeme

/-- Cuts a text into tokens. -/
def Scan.ofString (s : String) : Scan :=
  let cs := s.toList
  Lexeme.scanFrom cs.length (cs.length + 1) cs

end SqlStore
