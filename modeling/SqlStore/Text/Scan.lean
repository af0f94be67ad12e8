import SqlStore.Text.Alphabet

/-!
# Small readers of text

Trimming, splitting at blanks, and plain decimal numerals: the pieces that the readers of numbers,
dates and intervals share. Numerals are read as exact integers; a caller that stores them in a
narrower type checks the range itself.
-/

namespace SqlStore.Text

/-- The characters without the blanks in front. -/
def trimLeft (cs : List Char) : List Char := cs.dropWhile isBlank

/-- The characters without the blanks behind. -/
def trimRight (cs : List Char) : List Char := (cs.reverse.dropWhile isBlank).reverse

/-- Text without the blanks at both ends. -/
def trim (s : String) : String := String.ofList (trimRight (trimLeft s.toList))

/-- The words between blanks; `word` collects the current one, last character first. -/
def wordsFrom (word : List Char) : List Char → List (List Char)
  | [] => if word.isEmpty then [] else [word.reverse]
  | c :: cs =>
    if isBlank c then
      if word.isEmpty then wordsFrom [] cs else word.reverse :: wordsFrom [] cs
    else wordsFrom (c :: word) cs

/-- The maximal runs of characters that are not blank. -/
def words (s : String) : List String := (wordsFrom [] s.toList).map String.ofList

/-- The pieces between occurrences of a separator; `piece` collects the current one, last
character first. -/
def splitFrom (separator : Char) (piece : List Char) : List Char → List (List Char)
  | [] => [piece.reverse]
  | c :: cs =>
    if c == separator then piece.reverse :: splitFrom separator [] cs
    else splitFrom separator (c :: piece) cs

/-- The pieces between occurrences of a separator: one more piece than separators. -/
def split (separator : Char) (cs : List Char) : List (List Char) := splitFrom separator [] cs

/-- The value of a decimal digit. -/
def digitValue (c : Char) : Nat := c.toNat - '0'.toNat

/-- The number that decimal digits spell. -/
def natOfDigits (cs : List Char) : Nat := cs.foldl (fun n c => 10 * n + digitValue c) 0

/-- A numeral of ASCII digits, at least one. -/
def nat? (cs : List Char) : Option Nat :=
  if cs.isEmpty || !cs.all Char.isDigit then none else some (natOfDigits cs)

/-- A numeral of ASCII digits with an optional sign, either way. -/
def int? : List Char → Option Int
  | '-' :: cs => (nat? cs).map fun n => -(n : Int)
  | '+' :: cs => (nat? cs).map Int.ofNat
  | cs => (nat? cs).map Int.ofNat

/-- The decimal digits of a number, most significant first, in front of `tail`. `fuel` bounds the
number of digits. -/
def digitsOnto : Nat → Nat → List Char → List Char
  | 0, _, tail => tail
  | fuel + 1, n, tail =>
    let tail := Char.ofNat ('0'.toNat + n % 10) :: tail
    if n < 10 then tail else digitsOnto fuel (n / 10) tail

/-- The decimal digits of a number, most significant first. -/
def digits (n : Nat) : List Char := digitsOnto (n.log2 + 1) n []

/-- The decimal text of an integer. -/
def showInt (n : Int) : String :=
  String.ofList (if n < 0 then '-' :: digits n.natAbs else digits n.natAbs)

/-- A number in decimal, filled with zeros in front to at least `width` digits. -/
def padded (width n : Nat) : List Char :=
  let ds := digits n
  List.replicate (width - ds.length) '0' ++ ds

end SqlStore.Text
