import SqlStore.Binary.Text

/-!
# JSON documents

A document is null, a truth value, a number, a string, an array or an object. An object keeps its
entries ordered by key, one entry a key. Integers of 64 bits are exact and never equal to
floating-point numbers. The text of a document has no blanks.
-/

namespace SqlStore

/-- A JSON number. -/
inductive JsonNumber where
  | int (n : Int)
  | float (x : Binary64)
deriving Repr, DecidableEq

/-- A JSON document. -/
inductive Json where
  | null
  | bool (b : Bool)
  | number (n : JsonNumber)
  | string (s : String)
  | array (items : List Json)
  | object (entries : List (String × Json))
deriving Repr

/-- Equality of numbers of one kind. -/
def JsonNumber.same : JsonNumber → JsonNumber → Bool
  | int a, int b => a == b
  | float x, float y => x.equal y
  | _, _ => false

/-- The places of a JSON float: positional from `10^-5` up to, not including, `10^16`, with a
point in any case; else one digit in front of the point and a signed exponent. -/
def jsonFloatText (x : Binary64) : List Char :=
  let d := BinaryFormat.double.shortest .toEven x.code
  let ds := Text.digits d.digits
  let leading := d.exponent + ds.length - 1
  let body :=
    if x.isZero then ['0', '.', '0']
    else if -5 ≤ leading && leading ≤ 15 then
      if d.exponent ≥ 0 then d.positional ++ ['.', '0'] else d.positional
    else
      let exponent := 'e' :: (if leading < 0 then '-' else '+') :: Text.digits leading.natAbs
      match ds with
      | [] => exponent
      | [c] => c :: exponent
      | c :: cs => c :: '.' :: (cs ++ exponent)
  if x.negative then '-' :: body else body

/-- The text of a number. -/
def JsonNumber.text : JsonNumber → List Char
  | int n => (Text.showInt n).toList
  | float x => jsonFloatText x

/-- A hexadecimal digit in lower case. -/
def hexDigit (n : Nat) : Char :=
  if n < 10 then Char.ofNat ('0'.toNat + n) else Char.ofNat ('a'.toNat + n - 10)

/-- A character inside a JSON string. -/
def jsonEscape (c : Char) : List Char :=
  match c.toNat with
  | 34 => ['\\', '"']
  | 92 => ['\\', '\\']
  | 8 => ['\\', 'b']
  | 9 => ['\\', 't']
  | 10 => ['\\', 'n']
  | 12 => ['\\', 'f']
  | 13 => ['\\', 'r']
  | n => if n < 32 then ['\\', 'u', '0', '0', hexDigit (n / 16), hexDigit (n % 16)] else [c]

/-- A JSON string in quotes. -/
def jsonQuote (s : String) : List Char := '"' :: (s.toList.flatMap jsonEscape ++ ['"'])

namespace Json

mutual

/-- Equality of documents, numbers by value. -/
def same : Json → Json → Bool
  | null, null => true
  | bool a, bool b => a == b
  | number a, number b => a.same b
  | string a, string b => a == b
  | array a, array b => sameItems a b
  | object a, object b => sameEntries a b
  | _, _ => false

/-- Equality of arrays, item by item. -/
def sameItems : List Json → List Json → Bool
  | [], [] => true
  | a :: as, b :: bs => same a b && sameItems as bs
  | _, _ => false

/-- Equality of objects, entry by entry. -/
def sameEntries : List (String × Json) → List (String × Json) → Bool
  | [], [] => true
  | (k, a) :: as, (l, b) :: bs => k == l && same a b && sameEntries as bs
  | _, _ => false

end

mutual

/-- The characters of a document. -/
def chars : Json → List Char
  | null => ['n', 'u', 'l', 'l']
  | bool true => ['t', 'r', 'u', 'e']
  | bool false => ['f', 'a', 'l', 's', 'e']
  | number n => n.text
  | string s => jsonQuote s
  | array [] => ['[', ']']
  | array (a :: as) => '[' :: (chars a ++ itemChars as)
  | object [] => [Char.ofNat 123, Char.ofNat 125]
  | object ((k, a) :: as) => Char.ofNat 123 :: (jsonQuote k ++ ':' :: (chars a ++ entryChars as))

/-- The further items of an array and its end. -/
def itemChars : List Json → List Char
  | [] => [']']
  | a :: as => ',' :: (chars a ++ itemChars as)

/-- The further entries of an object and its end. -/
def entryChars : List (String × Json) → List Char
  | [] => [Char.ofNat 125]
  | (k, a) :: as => ',' :: (jsonQuote k ++ ':' :: (chars a ++ entryChars as))

end

/-- The text of a document, without blanks. -/
def text (j : Json) : String := String.ofList j.chars

/-- Puts an entry in its place by key, instead of an entry with that key. -/
def insertEntry (key : String) (value : Json) : List (String × Json) → List (String × Json)
  | [] => [(key, value)]
  | (k, v) :: rest =>
    if key == k then (key, value) :: rest
    else if key < k then (key, value) :: (k, v) :: rest
    else (k, v) :: insertEntry key value rest

/-- Puts entries in one after the other, so that of equal keys the last one stays. -/
def insertEntries (entries extra : List (String × Json)) : List (String × Json) :=
  extra.foldl (fun all e => insertEntry e.1 e.2 all) entries

/-- The name of a document's kind. -/
def kind : Json → String
  | null => "null"
  | bool _ => "boolean"
  | number _ => "number"
  | string _ => "string"
  | array _ => "array"
  | object _ => "object"

/-- Joins two documents: objects entry by entry, anything else as arrays, where a document that
is no array counts as an array of itself. -/
def append : Json → Json → Json
  | object a, object b => object (insertEntries a b)
  | array a, array b => array (a ++ b)
  | array a, b => array (a ++ [b])
  | a, array b => array (a :: b)
  | a, b => array [a, b]

mutual

/-- Containment: an object holds what it has under every key of the other, an array has some item
that contains each item of the other, an array also contains a bare scalar it holds, and other
documents contain their equals. -/
def holds (whole : Json) : Json → Bool
  | object part => match whole with
    | object entries => holdsEntries entries part
    | _ => false
  | array part => match whole with
    | array items => holdsItems items part
    | _ => false
  | scalar => match whole with
    | array items => items.any (same · scalar)
    | whole => same whole scalar

/-- Every item of the second array is contained in some item of the first. -/
def holdsItems (items : List Json) : List Json → Bool
  | [] => true
  | part :: parts => items.any (holds · part) && holdsItems items parts

/-- Every entry of the second object is contained in the first. -/
def holdsEntries (entries : List (String × Json)) : List (String × Json) → Bool
  | [] => true
  | (key, part) :: parts =>
    (match entries.lookup key with
      | some item => holds item part
      | none => false) && holdsEntries entries parts

end

end Json

end SqlStore
