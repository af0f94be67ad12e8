/-!
# Regular expressions

Expressions are made of characters, of dots, of a star behind either of them, and of marks for the two ends
of a text. A backslash takes its meaning from the character behind it; other expressions are not read. An
expression is looked for anywhere in a text, and a dot stands for every character, a line break too.
-/

namespace SqlStore.Regex

/-- Whether a character has a meaning in expressions. -/
def isMeta (c : Char) : Bool := "\\.+*?()|[]\x7b\x7d^$#&-~".toList.contains c

/-- The expression of a character that stands for itself. -/
def escape (c : Char) : List Char := if isMeta c then ['\\', c] else [c]

/-- What stands for one character. -/
inductive Atom where
  | any
  | exactly (c : Char)
deriving Repr, DecidableEq

/-- Whether an atom stands for a character. -/
def Atom.accepts (same : Char → Char → Bool) : Atom → Char → Bool
  | any, _ => true
  | exactly p, c => same p c

/-! ## Reading -/

/-- A word of an expression. -/
inductive Token where
  | start
  | stop
  | star
  | atom (a : Atom)
deriving Repr, DecidableEq

/-- The word of a character that has no backslash in front of it. -/
def token? (c : Char) : Option Token :=
  if c == '^' then some .start
  else if c == '$' then some .stop
  else if c == '.' then some (.atom .any)
  else if c == '*' then some .star
  else if isMeta c then none
  else some (.atom (.exactly c))

/-- The words of an expression. -/
def tokens? : List Char → Option (List Token)
  | [] => some []
  | '\\' :: c :: cs => if isMeta c then (tokens? cs).map (.atom (.exactly c) :: ·) else none
  | c :: cs => (token? c).bind fun t => (tokens? cs).map (t :: ·)

/-- A piece of an expression: a mark of an end, or an atom once or any number of times. -/
inductive Piece where
  | start
  | stop
  | one (a : Atom)
  | many (a : Atom)
deriving Repr, DecidableEq

/-- Joins stars to the atoms in front of them. -/
def pieces? : List Token → Option (List Piece)
  | [] => some []
  | .start :: ts => (pieces? ts).map (.start :: ·)
  | .stop :: ts => (pieces? ts).map (.stop :: ·)
  | .atom a :: .star :: ts => (pieces? ts).map (.many a :: ·)
  | .atom a :: ts => (pieces? ts).map (.one a :: ·)
  | .star :: _ => none

/-- Reads an expression. -/
def read? (cs : List Char) : Option (List Piece) := (tokens? cs).bind pieces?

/-! ## Matching

The matcher goes through an expression from its end. For every suffix of the text, the longest one first, it
keeps whether the pieces behind match the suffix from its beginning on. -/

/-- Nothing is in front of the whole text only. -/
def stepStart : List Bool → List Bool
  | [] => []
  | b :: bs => b :: bs.map fun _ => false

/-- Nothing is behind the empty suffix only. -/
def stepStop : List Bool → List Bool
  | [] => []
  | [b] => [b]
  | _ :: bs => false :: stepStop bs

/-- An atom takes the first character. -/
def stepOne (accept : Char → Bool) : List Char → List Bool → List Bool
  | c :: cs, _ :: bs => (accept c && bs.headD false) :: stepOne accept cs bs
  | _, _ => [false]

/-- A repeated atom takes nothing, or it takes the first character and goes on. -/
def stepMany (accept : Char → Bool) : List Char → List Bool → List Bool
  | c :: cs, b :: bs =>
    let rest := stepMany accept cs bs
    (b || accept c && rest.headD false) :: rest
  | _, bs => bs

/-- Whether the pieces match each suffix of a text from its beginning on. -/
def suffixMatches (same : Char → Char → Bool) (text : List Char) : List Piece → List Bool
  | [] => text.map (fun _ => true) ++ [true]
  | .start :: ps => stepStart (suffixMatches same text ps)
  | .stop :: ps => stepStop (suffixMatches same text ps)
  | .one a :: ps => stepOne (a.accepts same) text (suffixMatches same text ps)
  | .many a :: ps => stepMany (a.accepts same) text (suffixMatches same text ps)

/-- Whether the expression is found in a text. -/
def isMatch (same : Char → Char → Bool) (ps : List Piece) (text : List Char) : Bool :=
  (suffixMatches same text ps).contains true

end SqlStore.Regex
