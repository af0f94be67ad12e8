import SqlStore.Text.Alphabet
import SqlStore.Text.CaseTable

/-!
# Lower case, upper case and folding

`lower` and `upper` are the full case mappings of text: a character may grow (`ß` is upper-cased
to `SS`), and a capital sigma at the end of a word is lowered to the final form `ς`. `fold` is the
simple folding of one character, under which a case-blind comparison identifies characters.
-/

namespace SqlStore.Text

/-- The lower-case image of one character, without regard to its neighbours. -/
def lowerChar (c : Char) : List Char :=
  if c.toNat < 128 then [c.toLower]
  else match lowerExpansions.lookup c.toNat with
    | some codes => codes.map Char.ofNat
    | none => [Char.ofNat (shiftCase lowerRuns c.toNat)]

/-- The upper-case image of one character. -/
def upperChar (c : Char) : List Char :=
  if c.toNat < 128 then [c.toUpper]
  else match upperExpansions.lookup c.toNat with
    | some codes => codes.map Char.ofNat
    | none => [Char.ofNat (shiftCase upperRuns c.toNat)]

/-- The simple folding of a character: equal images mean equal up to case. -/
def fold (c : Char) : Char := Char.ofNat (shiftCase foldRuns c.toNat)

/-- Whether the first character that case context does not look through has case. -/
def leadsToCased (cs : List Char) : Bool :=
  match cs.dropWhile isCaseIgnorable with
  | c :: _ => isCased c
  | [] => false

/-- Lowers `cs`, where `before` holds the characters in front of them, nearest first. A capital
sigma that ends a word becomes `ς`. -/
def lowerAfter (before : List Char) : List Char → List Char
  | [] => []
  | c :: cs =>
    let image :=
      if c == 'Σ' then (if leadsToCased before && !leadsToCased cs then ['ς'] else ['σ'])
      else lowerChar c
    image ++ lowerAfter (c :: before) cs

/-- Text in lower case. -/
def lower (s : String) : String := String.ofList (lowerAfter [] s.toList)

/-- Text in upper case. -/
def upper (s : String) : String := String.ofList (s.toList.flatMap upperChar)

end SqlStore.Text
