import SqlStore.Json.Basic

/-!
# Reading JSON

A document is read from its text with blanks between the tokens. Arrays and objects nest to a
depth of 127. A number without fraction and exponent that fits 64 bits is an integer; any other
one is scaled in floating point: its digits as far as they fit 64 bits, times or divided by a power
of ten. A fault says what was wrong and at which line and column.
-/

namespace SqlStore

/-- What is wrong with the text of a document. -/
inductive JsonFault where
  | endInList
  | endInObject
  | endInString
  | endInValue
  | expectedColon
  | expectedListEnd
  | expectedObjectEnd
  | expectedIdent
  | expectedValue
  | invalidEscape
  | invalidNumber
  | numberOutOfRange
  | controlCharacter
  | keyNotString
  | loneSurrogate
  | trailingComma
  | trailingCharacters
  | endOfEscape
  | tooDeep
deriving Repr, DecidableEq

/-- The wording of a fault. -/
def JsonFault.message : JsonFault → String
  | endInList => "EOF while parsing a list"
  | endInObject => "EOF while parsing an object"
  | endInString => "EOF while parsing a string"
  | endInValue => "EOF while parsing a value"
  | expectedColon => "expected " ++ quoted [':']
  | expectedListEnd => "expected " ++ quoted [','] ++ " or " ++ quoted [']']
  | expectedObjectEnd => "expected " ++ quoted [','] ++ " or " ++ quoted [Char.ofNat 125]
  | expectedIdent => "expected ident"
  | expectedValue => "expected value"
  | invalidEscape => "invalid escape"
  | invalidNumber => "invalid number"
  | numberOutOfRange => "number out of range"
  | controlCharacter => "control character (\\u0000-\\u001F) found while parsing a string"
  | keyNotString => "key must be a string"
  | loneSurrogate => "lone leading surrogate in hex escape"
  | trailingComma => "trailing comma"
  | trailingCharacters => "trailing characters"
  | endOfEscape => "unexpected end of hex escape"
  | tooDeep => "recursion limit exceeded"
where
  /-- A token between grave accents. -/
  quoted (cs : List Char) : String := String.ofList (Char.ofNat 96 :: (cs ++ [Char.ofNat 96]))

/-- A fault with its place in the text. -/
structure JsonError where
  fault : JsonFault
  line : Nat
  column : Nat
deriving Repr, DecidableEq

/-- The wording of a fault with its place. -/
def JsonError.message (e : JsonError) : String :=
  e.fault.message ++ " at line " ++ Text.showInt e.line ++ " column " ++ Text.showInt e.column

namespace Json

/-- Where reading stopped: the text that is left, and whether the next character is at fault. -/
structure Stop where
  fault : JsonFault
  rest : List Char
  atNext : Bool
deriving Repr

/-- A reader of a prefix of the text. -/
abbrev Reader (α : Type) := List Char → Except Stop (α × List Char)

/-- Fails with the next character at fault. -/
def failNext {α : Type} (fault : JsonFault) (rest : List Char) : Except Stop α :=
  .error ⟨fault, rest, true⟩

/-- Fails with the character just read at fault. -/
def failHere {α : Type} (fault : JsonFault) (rest : List Char) : Except Stop α :=
  .error ⟨fault, rest, false⟩

/-- The text after its blanks. -/
def skipBlanks (cs : List Char) : List Char :=
  cs.dropWhile fun c => c == ' ' || c == '\n' || c == '\t' || c == '\r'

/-- Reads the letters of a word. -/
def readWord {α : Type} (value : α) : List Char → Reader α
  | [], cs => .ok (value, cs)
  | _ :: _, [] => failHere .endInValue []
  | w :: ws, c :: cs => if c == w then readWord value ws cs else failHere .expectedIdent cs

/-! ## Numbers -/

/-- Scales digits by a power of ten in floating point. `fuel` bounds the steps that shrink a
very small number. -/
def scaleDecimal (significand : Nat) (exponent : Int) (rest : List Char) :
    Except Stop Binary64 :=
  let power := fun (n : Nat) => Binary64.ofParts false (BinaryFormat.double.nearest (pow10 n) 1)
  let start := Binary64.ofNat significand
  if start.isZero then .ok start
  else if exponent > 308 then failHere .numberOutOfRange rest
  else if exponent ≥ 0 then
    let x := Binary64.mul start (power exponent.natAbs)
    if x.isFinite then .ok x else failHere .numberOutOfRange rest
  else if exponent ≥ -308 then .ok (Binary64.div start (power exponent.natAbs))
  else if exponent ≥ -616 then
    .ok (Binary64.div (Binary64.div start (power 308)) (power (exponent.natAbs - 308)))
  else .ok Binary64.zero

/-- Reads the digits of an exponent, whose mark was read, and scales. -/
def readExponent (significand : Nat) (base : Int) (cs : List Char) :
    Except Stop (Binary64 × List Char) :=
  let (positive, cs) := match cs with
    | '+' :: r => (true, r)
    | '-' :: r => (false, r)
    | r => (true, r)
  match cs with
  | [] => failHere .endInValue []
  | c :: r =>
    if !c.isDigit then failHere .invalidNumber r
    else
      let ds := cs.takeWhile Char.isDigit
      let rest := cs.dropWhile Char.isDigit
      let n := Text.natOfDigits ds
      if n ≥ pow2 31 then
        if significand != 0 && positive then failHere .numberOutOfRange rest
        else .ok (Binary64.zero, rest)
      else (scaleDecimal significand (if positive then base + n else base - n) rest).map (·, rest)

/-- Takes digits into a significand as long as 64 bits hold it, and counts them. -/
def takeDigits : Nat → Nat → List Char → Nat × Nat × List Char
  | significand, count, [] => (significand, count, [])
  | significand, count, c :: cs =>
    if c.isDigit && significand * 10 + Text.digitValue c < UInt64.size then
      takeDigits (significand * 10 + Text.digitValue c) (count + 1) cs
    else (significand, count, c :: cs)

/-- Reads an exponent if there is one, and scales. -/
def finishDecimal (significand : Nat) (exponent : Int) :
    List Char → Except Stop (Binary64 × List Char)
  | 'e' :: cs => readExponent significand exponent cs
  | 'E' :: cs => readExponent significand exponent cs
  | cs => (scaleDecimal significand exponent cs).map (·, cs)

/-- Reads the places behind a point, which was read. -/
def readPlaces (significand : Nat) (exponent : Int) (cs : List Char) :
    Except Stop (Binary64 × List Char) :=
  let (significand, count, rest) := takeDigits significand 0 cs
  match rest with
  | c :: _ =>
    if c.isDigit then finishDecimal significand (exponent - count) (rest.dropWhile Char.isDigit)
    else if count == 0 then failNext .invalidNumber rest
    else finishDecimal significand (exponent - count) rest
  | [] =>
    if count == 0 then failNext .endInValue [] else finishDecimal significand (exponent - count) []

/-- Reads a number behind its sign. -/
def readNumber (negative : Bool) : Reader Json := fun cs =>
  let float := fun (r : Except Stop (Binary64 × List Char)) =>
    r.map fun (x, rest) => (number (.float (if negative then x.neg else x)), rest)
  match cs with
  | [] => failHere .endInValue []
  | c :: after =>
    if !c.isDigit then failHere .invalidNumber after
    else
      let (significand, _, rest) := if c == '0' then (0, 1, after) else takeDigits 0 0 cs
      match rest with
      | '.' :: rest => float (readPlaces significand 0 rest)
      | 'e' :: rest => float (readExponent significand 0 rest)
      | 'E' :: rest => float (readExponent significand 0 rest)
      | rest =>
        if rest.head?.any Char.isDigit then
          if c == '0' then failNext .invalidNumber rest
          else
            let extra := (rest.takeWhile Char.isDigit).length
            match rest.dropWhile Char.isDigit with
            | '.' :: rest => float (readPlaces significand extra rest)
            | rest => float (finishDecimal significand extra rest)
        else if !negative then .ok (number (.int significand), rest)
        else if significand == 0 || significand > pow2 63 then
          .ok (number (.float (Binary64.ofNat significand).neg), rest)
        else .ok (number (.int (-significand)), rest)

/-! ## Strings -/

/-- The value of a hexadecimal digit. -/
def hexValue? (c : Char) : Option Nat :=
  if c.isDigit then some (c.toNat - 48)
  else if 'a' ≤ c && c ≤ 'f' then some (c.toNat - 87)
  else if 'A' ≤ c && c ≤ 'F' then some (c.toNat - 55)
  else none

/-- Reads four hexadecimal digits. -/
def readHex : Reader Nat
  | a :: b :: c :: d :: cs =>
    match hexValue? a, hexValue? b, hexValue? c, hexValue? d with
    | some a, some b, some c, some d => .ok (((a * 16 + b) * 16 + c) * 16 + d, cs)
    | _, _, _, _ => failHere .invalidEscape cs
  | _ => failHere .endInString []

/-- Reads the digits of a code unit escape, and of its partner if it is half of a pair. -/
def readUnit : Reader Char := fun cs => do
  let (n, cs) ← readHex cs
  if 0xDC00 ≤ n && n ≤ 0xDFFF then failHere .loneSurrogate cs
  else if n < 0xD800 || n > 0xDBFF then return (Char.ofNat n, cs)
  else match cs with
    | '\\' :: 'u' :: cs =>
      let (m, cs) ← readHex cs
      if m < 0xDC00 || m > 0xDFFF then failHere .loneSurrogate cs
      else return (Char.ofNat ((n - 0xD800) * 1024 + (m - 0xDC00) + 0x10000), cs)
    | [] => failHere .endInString []
    | '\\' :: [] => failHere .endInString []
    | '\\' :: _ :: cs => failHere .endOfEscape cs
    | _ :: cs => failHere .endOfEscape cs

/-- Reads one escape behind its backslash. -/
def readEscape : Reader Char
  | [] => failHere .endInString []
  | '"' :: cs => .ok ('"', cs)
  | '\\' :: cs => .ok ('\\', cs)
  | '/' :: cs => .ok ('/', cs)
  | 'b' :: cs => .ok (Char.ofNat 8, cs)
  | 'f' :: cs => .ok (Char.ofNat 12, cs)
  | 'n' :: cs => .ok ('\n', cs)
  | 'r' :: cs => .ok ('\r', cs)
  | 't' :: cs => .ok ('\t', cs)
  | 'u' :: cs => readUnit cs
  | _ :: cs => failHere .invalidEscape cs

/-- Reads a string behind its opening quote; `fuel` bounds its characters, and `done` holds those
read, last one first. -/
def readString : Nat → List Char → Reader String
  | 0, _, _ => failHere .endInString []
  | _ + 1, _, [] => failHere .endInString []
  | _ + 1, done, '"' :: cs => .ok (String.ofList done.reverse, cs)
  | fuel + 1, done, '\\' :: cs => match readEscape cs with
    | .ok (c, cs) => readString fuel (c :: done) cs
    | .error stop => .error stop
  | fuel + 1, done, c :: cs =>
    if c.toNat < 32 then failHere .controlCharacter cs else readString fuel (c :: done) cs

/-! ## Documents -/

/-- Reads the further items of an array and its end. -/
def readItems (item : Reader Json) : Nat → List Json → Reader Json
  | 0, _, cs => failHere .endInList cs
  | fuel + 1, done, cs => match skipBlanks cs with
    | [] => failNext .endInList []
    | ']' :: cs => .ok (array done.reverse, cs)
    | ',' :: cs => match skipBlanks cs with
      | [] => failNext .endInValue []
      | ']' :: cs => failNext .trailingComma (']' :: cs)
      | cs => match item cs with
        | .ok (j, cs) => readItems item fuel (j :: done) cs
        | .error stop => .error stop
    | cs => failNext .expectedListEnd cs

/-- Reads an array behind its bracket. -/
def readArray (item : Reader Json) : Reader Json := fun cs =>
  match skipBlanks cs with
  | [] => failNext .endInList []
  | ']' :: cs => .ok (array [], cs)
  | cs => match item cs with
    | .ok (j, rest) => readItems item (rest.length + 1) [j] rest
    | .error stop => .error stop

/-- Reads a key, its colon and its value. -/
def readEntry (item : Reader Json) : Reader (String × Json) := fun cs =>
  match cs with
  | '"' :: cs => do
    let (key, cs) ← readString (cs.length + 1) [] cs
    match skipBlanks cs with
    | ':' :: cs =>
      let (j, cs) ← item cs
      return ((key, j), cs)
    | [] => failNext .endInObject []
    | cs => failNext .expectedColon cs
  | cs => failNext .keyNotString cs

/-- Reads the further entries of an object and its end. -/
def readEntries (item : Reader Json) : Nat → List (String × Json) → Reader Json
  | 0, _, cs => failHere .endInObject cs
  | fuel + 1, done, cs => match skipBlanks cs with
    | [] => failNext .endInObject []
    | ',' :: cs => match skipBlanks cs with
      | [] => failNext .endInValue []
      | c :: cs =>
        if c.toNat == 125 then failNext .trailingComma (c :: cs)
        else match readEntry item (c :: cs) with
          | .ok ((key, j), cs) => readEntries item fuel (insertEntry key j done) cs
          | .error stop => .error stop
    | c :: cs =>
      if c.toNat == 125 then .ok (object done, cs) else failNext .expectedObjectEnd (c :: cs)

/-- Reads an object behind its brace. -/
def readObject (item : Reader Json) : Reader Json := fun cs =>
  match skipBlanks cs with
  | [] => failNext .endInObject []
  | c :: cs =>
    if c.toNat == 125 then .ok (object [], cs)
    else match readEntry item (c :: cs) with
      | .ok ((key, j), rest) => readEntries item (rest.length + 1) [(key, j)] rest
      | .error stop => .error stop

/-- Reads a document in which arrays and objects nest less than `depth` deep. -/
def readValue : Nat → Reader Json
  | 0, cs => failNext .tooDeep cs
  | depth + 1, cs =>
    match skipBlanks cs with
    | [] => failNext .endInValue []
    | 'n' :: cs => readWord null ['u', 'l', 'l'] cs
    | 't' :: cs => readWord (bool true) ['r', 'u', 'e'] cs
    | 'f' :: cs => readWord (bool false) ['a', 'l', 's', 'e'] cs
    | '-' :: cs => readNumber true cs
    | '"' :: cs => (readString (cs.length + 1) [] cs).map fun (s, cs) => (string s, cs)
    | '[' :: cs =>
      if depth == 0 then failNext .tooDeep ('[' :: cs) else readArray (readValue depth) cs
    | c :: cs =>
      if c.toNat == 123 then
        if depth == 0 then failNext .tooDeep (c :: cs) else readObject (readValue depth) cs
      else if c.isDigit then readNumber false (c :: cs)
      else failNext .expectedValue (c :: cs)

/-- The place where reading stopped, counted in bytes of a line. -/
def Stop.locate (text : List Char) (stop : Stop) : JsonError :=
  let consumed := text.take (text.length - stop.rest.length)
  let line := (consumed.reverse.takeWhile (· != '\n')).reverse
  let extra := if stop.atNext && !stop.rest.isEmpty then 1 else 0
  ⟨stop.fault, 1 + consumed.count '\n', (String.ofList line).utf8ByteSize + extra⟩

/-- Reads a whole text as one document. -/
def parse (s : String) : Except JsonError Json :=
  let cs := s.toList
  match readValue 128 cs with
  | .error stop => .error (stop.locate cs)
  | .ok (j, rest) => match skipBlanks rest with
    | [] => .ok j
    | rest => .error (Stop.locate cs ⟨.trailingCharacters, rest, true⟩)

end Json

end SqlStore
