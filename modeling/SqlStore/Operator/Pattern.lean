import SqlStore.Error
import SqlStore.Text.Casing
import SqlStore.Text.Regex

/-!
# Patterns

A pattern of LIKE is translated into a regular expression: `%` stands for any run of characters, `_` for
exactly one, and every other character, or one behind a backslash, for itself. A pattern must not end inside
an escape. The expression has marks at its ends, so that it is found only as the whole text.
-/

namespace SqlStore

namespace Pattern

/-- The expression between its marks; `none` if the pattern ends inside an escape. -/
def translate? : List Char → Option (List Char)
  | [] => some []
  | ['\\'] => none
  | '\\' :: c :: cs => (translate? cs).map (Regex.escape c ++ ·)
  | c :: cs =>
    let part := if c == '%' then ['.', '*'] else if c == '_' then ['.'] else Regex.escape c
    (translate? cs).map (part ++ ·)

/-- The regular expression of a pattern. -/
def expression? (pattern : String) : Option (List Char) :=
  (translate? pattern.toList).map fun inner => '^' :: (inner ++ ['$'])

end Pattern

/-- Equality of characters up to case. -/
def sameFolded (a b : Char) : Bool := Text.fold a == Text.fold b

/-- Whether a text matches a pattern, letters up to case if `ignoreCase`. -/
def likeText (text pattern : String) (ignoreCase : Bool) : Except Error Bool :=
  match Pattern.expression? pattern with
  | none => .error (.execution "LIKE pattern must not end with escape character")
  | some expression => match Regex.read? expression with
    | none => .error (.rule "regex parse error")
    | some pieces =>
      .ok (Regex.isMatch (if ignoreCase then sameFolded else (· == ·)) pieces text.toList)

end SqlStore
