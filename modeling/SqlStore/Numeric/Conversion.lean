import SqlStore.Numeric.Basic

/-!
# Decimals from other forms

Decimals are read from texts, and they are made from floating-point numbers and approximated by them.
-/

namespace SqlStore.Numeric

/-! ## Texts

A numeral has an optional sign, digits with underscores between them, and an optional point. As
soon as the next digit would not fit, or the last place is taken, that digit rounds the number and
the rest of the text is not looked at; digits in front of the point must all fit. A numeral with
an exponent moves the point of a numeral without one. -/

/-- Ends a numeral at a character that does not fit any more, which rounds it. -/
def roundOff (negative : Bool) (mantissa scale : Nat) (next : Char) : Option Numeric :=
  if !(next.isDigit || next == '_' || next == '.') then none
  else
    let up := next.isDigit && Text.digitValue next ≥ 5
    let m := if up then mantissa + 1 else mantissa
    match ofMagnitude? negative m scale with
    | some d => some d
    | none => if scale == 0 then none else ofMagnitude? negative ((m + 4) / 10) (scale - 1)

/-- Reads the rest of a numeral: `point` tells whether the point was read, `some` digit whether
there was a digit before. -/
def readFrom (negative : Bool) : Nat → Nat → Bool → Bool → List Char → Option Numeric
  | mantissa, scale, _, hasDigit, [] =>
    if hasDigit then ofMagnitude? negative mantissa scale else none
  | mantissa, scale, point, hasDigit, c :: cs =>
    if c.isDigit then
      let wider := mantissa * 10 + Text.digitValue c
      let places := if point then scale + 1 else 0
      if wider ≥ mantissaBound then
        if point then roundOff negative mantissa scale c else none
      else if point && places ≥ maxScale then
        match cs with
        | [] => ofMagnitude? negative wider places
        | next :: _ => roundOff negative wider places next
      else readFrom negative wider places point true cs
    else if c == '.' && !point then readFrom negative mantissa scale true hasDigit cs
    else if c == '_' && hasDigit then readFrom negative mantissa scale point hasDigit cs
    else none

/-- Reads a numeral without an exponent. -/
def plain? : List Char → Option Numeric
  | '-' :: cs => readFrom true 0 0 false false cs
  | '+' :: cs => readFrom false 0 0 false false cs
  | cs => readFrom false 0 0 false false cs

/-- A natural number with an optional plus sign. -/
def exponent? : List Char → Option Nat
  | '+' :: cs => Text.nat? cs
  | cs => Text.nat? cs

/-- The number with the point moved to the right by `places`. -/
def shiftRight (d : Numeric) (places : Nat) : Option Numeric :=
  if places ≤ d.scale then some { d with scale := d.scale - places }
  else if places > maxScale then none
  else ofParts? d.negative (d.mantissa * pow10 (places - d.scale)) 0

/-- The number with the point moved to the left by `places`. -/
def shiftLeft (d : Numeric) (places : Nat) : Option Numeric :=
  if d.scale + places > maxScale then none else some { d with scale := d.scale + places }

/-- Reads a numeral with an exponent. -/
def scientific? (cs : List Char) : Option Numeric :=
  let base := cs.takeWhile fun c => c != 'e' && c != 'E'
  match cs.dropWhile fun c => c != 'e' && c != 'E' with
  | [] => none
  | _ :: exponent => do
    let d ← plain? base
    match exponent with
    | '-' :: digits => d.shiftLeft (← exponent? digits)
    | digits => d.shiftRight (← exponent? digits)

/-- Reads a decimal without surrounding blanks. -/
def parse? (s : String) : Option Numeric := (plain? s.toList).orElse fun _ => scientific? s.toList

/-! ## Floating-point numbers

A decimal is approximated by the sum of its integer part and its fraction, rounded once more at
its own scale. A floating-point number is expanded exactly as far as 96 bits allow, cut to about
sixteen digits, and stripped of zeros. -/

/-- The floating-point approximation of a decimal. -/
def toBinary64 (d : Numeric) : Binary64 :=
  if d.scale == 0 then Binary64.ofInt d.signed
  else
    let unit := pow10 d.scale
    let whole := Binary64.ofNat (d.mantissa / unit)
    let fraction := Binary64.div (Binary64.ofNat (d.mantissa % unit)) (Binary64.ofNat unit)
    let magnitude :=
      if fraction.isZero then whole
      else
        let shift := Binary64.power (Binary64.ofNat 10) d.scale
        Binary64.div (Binary64.mul (Binary64.add whole fraction) shift).round shift
    if d.negative then magnitude.neg else magnitude

/-- Replaces `n` halvings of a mantissa by powers of ten: an even mantissa is halved, an odd one
multiplied by five while it fits. -/
def takeHalves : Nat → Nat → Int → Nat × Int
  | 0, m, e => (m, e)
  | n + 1, m, e =>
    if m % 2 == 0 then takeHalves n (m / 2) (e + 1)
    else if m * 5 < mantissaBound then takeHalves n (m * 5) e
    else takeHalves n (m / 2) (e + 1)

/-- Replaces `n` doublings of a mantissa by powers of ten: it is doubled while it fits and divided
by five otherwise. -/
def takeDoubles : Nat → Nat → Int → Nat × Int
  | 0, m, e => (m, e)
  | n + 1, m, e =>
    if m * 2 < mantissaBound then takeDoubles n (m * 2) (e - 1) else takeDoubles n (m / 5) e

/-- Multiplies by ten `n` times, if the mantissa still fits. -/
def raise : Nat → Nat → Option Nat
  | 0, m => some m
  | n + 1, m => if m * 10 < mantissaBound then raise n (m * 10) else none

/-- The tenth of a mantissa, a half going up. -/
def tenth (m : Nat) : Nat := if m % 10 ≥ 5 then m / 10 + 1 else m / 10

/-- Drops `n` places, rounding at each; what falls below the last place is zero. -/
def lower : Nat → Nat → Nat → Nat × Nat
  | 0, m, scale => (m, scale)
  | n + 1, m, scale => if m < 10 then (0, 0) else lower n (tenth m) (scale - 1)

/-- Drops places while the mantissa has more than 52 bits. -/
def cut : Nat → Nat → Nat × Nat
  | m, 0 => (m, 0)
  | m, scale + 1 => if m ≥ pow2 52 then cut (tenth m) scale else (m, scale + 1)

/-- Strips all zeros from the end of the places. -/
def dropZeros : Nat → Nat → Nat × Nat
  | m, 0 => (m, 0)
  | m, scale + 1 => if m % 10 == 0 then dropZeros (m / 10) scale else (m, scale + 1)

/-- The decimal that a finite floating-point number stands for, if it is in range. -/
def ofBinary64? (x : Binary64) : Option Numeric :=
  if !x.isFinite then none
  else if x.isZero then ofParts? x.negative 0 0
  else
    let (m, q) := BinaryFormat.double.decode x.code
    let (m, e) := if q < 0 then takeHalves q.natAbs m q else takeDoubles q.natAbs m q
    if e > 0 then do
      let m ← raise e.natAbs m
      ofMagnitude? x.negative m 0
    else
      let (m, scale) := lower (e.natAbs - maxScale) m e.natAbs
      let (m, scale) := cut m scale
      let (m, scale) := dropZeros m scale
      ofMagnitude? x.negative m scale

end SqlStore.Numeric
