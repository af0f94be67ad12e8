import SqlStore.Power

/-!
# Binary floating-point formats

A format has a number of fraction bits and of exponent bits. A finite magnitude is `m · 2^q`; its
code is the biased exponent in front of the fraction, so codes order as magnitudes do, and the
code after the largest finite one is infinity. `nearest` rounds any positive rational to a code,
halves to the even neighbour, and `decode` gives `m` and `q` back.
-/

namespace SqlStore

/-- The quotient of two numbers rounded to nearest, a half going to the even neighbour. -/
def roundHalfEven (num den : Nat) : Nat :=
  let q := num / den
  let r := num % den
  if 2 * r > den || (2 * r == den && q % 2 == 1) then q + 1 else q

/-- The widths of the fields of a floating-point code. -/
structure BinaryFormat where
  fractionBits : Nat
  exponentBits : Nat
deriving Repr, DecidableEq

namespace BinaryFormat

/-- Single precision. -/
def single : BinaryFormat := ⟨23, 8⟩

/-- Double precision. -/
def double : BinaryFormat := ⟨52, 11⟩

/-- The exponent `q` of the smallest magnitudes. -/
def leastExponent (f : BinaryFormat) : Int :=
  (2 : Int) - pow2 (f.exponentBits - 1) - f.fractionBits

/-- The code of infinity; larger codes are not numbers. -/
def infinity (f : BinaryFormat) : Nat := (pow2 f.exponentBits - 1) * pow2 f.fractionBits

/-- The code of the canonical value that is not a number. -/
def nan (f : BinaryFormat) : Nat := f.infinity + pow2 (f.fractionBits - 1)

/-- The numerator and denominator of `num / den / 2^q`. -/
def scaled (num den : Nat) (q : Int) : Nat × Nat :=
  if q < 0 then (num * pow2 q.natAbs, den) else (num, den * pow2 q.natAbs)

/-- The code nearest to `num / den`, a tie going to the even code; infinity when too large. -/
def nearest (f : BinaryFormat) (num den : Nat) : Nat :=
  if num == 0 then 0 else
    let least := f.leastExponent
    let guess := max ((num.log2 : Int) - den.log2 - 1 - f.fractionBits) least
    let (n, d) := scaled num den guess
    let q := if n / d < pow2 (f.fractionBits + 1) then guess else guess + 1
    let (n, d) := scaled num den q
    min f.infinity ((q - least).toNat * pow2 f.fractionBits + roundHalfEven n d)

/-- The code nearest to `m · 2^q`. -/
def nearestBinary (f : BinaryFormat) (m : Nat) (q : Int) : Nat :=
  if q < 0 then f.nearest m (pow2 q.natAbs) else f.nearest (m * pow2 q.natAbs) 1

/-- The code nearest to `m · 10^e`, where `m` has at most `width` digits. Exponents far outside
the range of a format are decided without a power. -/
def nearestDecimal (f : BinaryFormat) (m : Nat) (width : Nat) (e : Int) : Nat :=
  if m == 0 then 0
  else if e + width < -400 then 0
  else if e > 400 then f.infinity
  else if e < 0 then f.nearest m (pow10 e.natAbs)
  else f.nearest (m * pow10 e.natAbs) 1

/-- The significand and exponent of a finite code: its magnitude is `m · 2^q`. -/
def decode (f : BinaryFormat) (code : Nat) : Nat × Int :=
  let exponent := code / pow2 f.fractionBits
  let fraction := code % pow2 f.fractionBits
  if exponent == 0 then (fraction, f.leastExponent)
  else (fraction + pow2 f.fractionBits, f.leastExponent + exponent - 1)

end BinaryFormat

end SqlStore
