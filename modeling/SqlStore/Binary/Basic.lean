import SqlStore.Binary.Format

/-!
# Single- and double-precision numbers

A number is its code: a sign bit in front of a magnitude of a `BinaryFormat`. Arithmetic is exact
on the decoded values and rounds once, so every operation is a computation on integers. Two orders
are kept apart: `equal` is equality of numbers (zero has one value, and what is not a number
equals nothing), `totalCompare` orders all codes, negative ones first.

An operand that is not a number is handed on with its sign; an operation that has no value on
numbers gives the negative one.
-/

namespace SqlStore

/-- A double-precision number. -/
structure Binary64 where
  bits : UInt64
deriving Repr, DecidableEq

/-- A single-precision number. -/
structure Binary32 where
  bits : UInt32
deriving Repr, DecidableEq

namespace Binary64

/-- The weight of the sign bit. -/
abbrev signBit : Nat := 9223372036854775808

/-- The number with a given sign and magnitude code. -/
def ofParts (negative : Bool) (code : Nat) : Binary64 :=
  ⟨UInt64.ofNat ((if negative then signBit else 0) + code)⟩

/-- Whether the sign bit is set. -/
def negative (x : Binary64) : Bool := x.bits.toNat ≥ signBit

/-- The code of the magnitude. -/
def code (x : Binary64) : Nat := x.bits.toNat % signBit

/-- Zero. -/
def zero : Binary64 := ofParts false 0

/-- Positive infinity. -/
def infinity : Binary64 := ofParts false BinaryFormat.double.infinity

/-- Not a number, without a sign. -/
def nan : Binary64 := ofParts false BinaryFormat.double.nan

/-- What an operation without a value gives. -/
def undefined : Binary64 := ofParts true BinaryFormat.double.nan

def isNaN (x : Binary64) : Bool := x.code > BinaryFormat.double.infinity
def isInfinite (x : Binary64) : Bool := x.code == BinaryFormat.double.infinity
def isFinite (x : Binary64) : Bool := x.code < BinaryFormat.double.infinity
def isZero (x : Binary64) : Bool := x.code == 0

/-- Equality of numbers: the two zeros are equal, and what is not a number equals nothing. -/
def equal (x y : Binary64) : Bool :=
  !x.isNaN && !y.isNaN && (x.bits == y.bits || (x.isZero && y.isZero))

/-- The place of a code in the total order. -/
def rank (x : Binary64) : Int := if x.negative then -(x.code : Int) - 1 else x.code

/-- The total order of all codes. -/
def totalCompare (x y : Binary64) : Ordering := compare x.rank y.rank

/-- The number with the opposite sign. -/
def neg (x : Binary64) : Binary64 := ofParts (!x.negative) x.code

/-- The number without its sign. -/
def abs (x : Binary64) : Binary64 := ofParts false x.code

/-- The number nearest to `± m · 2^q`. -/
def ofBinary (negative : Bool) (m : Nat) (q : Int) : Binary64 :=
  ofParts negative (BinaryFormat.double.nearestBinary m q)

/-- The number nearest to an integer. -/
def ofInt (n : Int) : Binary64 := ofBinary (n < 0) n.natAbs 0

/-- The number nearest to a natural number. -/
def ofNat (n : Nat) : Binary64 := ofBinary false n 0

/-- The significand with its sign, and the exponent, of a finite number. -/
def signed (x : Binary64) : Int × Int :=
  let (m, q) := BinaryFormat.double.decode x.code
  (if x.negative then -m else m, q)

/-- Applies an operation of numbers, handing on an operand that is not a number. -/
def lift (op : Binary64 → Binary64 → Binary64) (x y : Binary64) : Binary64 :=
  if x.isNaN then x else if y.isNaN then y else op x y

/-- The sum. -/
def add : Binary64 → Binary64 → Binary64 := lift fun x y =>
  if x.isInfinite then
    if y.isInfinite && x.negative != y.negative then undefined else x
  else if y.isInfinite then y
  else
    let (a, p) := x.signed
    let (b, q) := y.signed
    let low := min p q
    let sum := a * pow2 (p - low).toNat + b * pow2 (q - low).toNat
    if sum == 0 then ofParts (x.negative && y.negative) 0
    else ofBinary (sum < 0) sum.natAbs low

/-- The difference. -/
def sub : Binary64 → Binary64 → Binary64 := lift fun x y => add x y.neg

/-- The product. -/
def mul : Binary64 → Binary64 → Binary64 := lift fun x y =>
  let negative := x.negative != y.negative
  if x.isInfinite || y.isInfinite then
    if x.isZero || y.isZero then undefined else ofParts negative BinaryFormat.double.infinity
  else
    let (a, p) := x.signed
    let (b, q) := y.signed
    ofBinary negative (a * b).natAbs (p + q)

/-- The quotient. -/
def div : Binary64 → Binary64 → Binary64 := lift fun x y =>
  let negative := x.negative != y.negative
  if x.isInfinite then
    if y.isInfinite then undefined else ofParts negative BinaryFormat.double.infinity
  else if y.isInfinite then ofParts negative 0
  else if y.isZero then
    if x.isZero then undefined else ofParts negative BinaryFormat.double.infinity
  else
    let (a, p) := x.signed
    let (b, q) := y.signed
    let shift := p - q
    let num := a.natAbs * pow2 shift.toNat
    let den := b.natAbs * pow2 (-shift).toNat
    ofParts negative (BinaryFormat.double.nearest num den)

/-- The exact remainder, with the sign of the dividend. -/
def rem : Binary64 → Binary64 → Binary64 := lift fun x y =>
  if x.isInfinite || y.isZero then undefined
  else if y.isInfinite then x
  else
    let (a, p) := x.signed
    let (b, q) := y.signed
    let low := min p q
    let r := (a.natAbs * pow2 (p - low).toNat) % (b.natAbs * pow2 (q - low).toNat)
    ofBinary x.negative r low

/-- The integer part of a finite number. -/
def truncate (x : Binary64) : Int :=
  let (m, q) := x.signed
  if q < 0 then m.tdiv (pow2 q.natAbs) else m * pow2 q.natAbs

/-- The integer nearest to a finite number, a half going away from zero. -/
def roundAway (x : Binary64) : Int :=
  let (m, q) := x.signed
  if q < 0 then
    let n := (2 * m.natAbs + pow2 q.natAbs) / pow2 (q.natAbs + 1)
    if m < 0 then -n else n
  else m * pow2 q.natAbs

/-- The number rounded to an integer, a half going away from zero, with its sign kept. -/
def round (x : Binary64) : Binary64 :=
  if x.isFinite then ofBinary x.negative x.roundAway.natAbs 0 else x

/-- Multiplies in the squares that the binary digits of an exponent call for. -/
def powerFrom : Nat → Binary64 → Binary64 → Nat → Binary64
  | 0, _, result, _ => result
  | fuel + 1, base, result, n =>
    let result := if n % 2 == 1 then mul result base else result
    if n / 2 == 0 then result else powerFrom fuel (mul base base) result (n / 2)

/-- A power with an integer exponent, by repeated squaring; a negative exponent inverts at the
end. -/
def power (base : Binary64) (n : Int) : Binary64 :=
  let r := powerFrom (n.natAbs.log2 + 1) base (ofNat 1) n.natAbs
  if n < 0 then div (ofNat 1) r else r

end Binary64

namespace Binary32

/-- The weight of the sign bit. -/
abbrev signBit : Nat := 2147483648

/-- The number with a given sign and magnitude code. -/
def ofParts (negative : Bool) (code : Nat) : Binary32 :=
  ⟨UInt32.ofNat ((if negative then signBit else 0) + code)⟩

/-- Whether the sign bit is set. -/
def negative (x : Binary32) : Bool := x.bits.toNat ≥ signBit

/-- The code of the magnitude. -/
def code (x : Binary32) : Nat := x.bits.toNat % signBit

def isNaN (x : Binary32) : Bool := x.code > BinaryFormat.single.infinity
def isFinite (x : Binary32) : Bool := x.code < BinaryFormat.single.infinity
def isZero (x : Binary32) : Bool := x.code == 0

/-- Equality of numbers: the two zeros are equal, and what is not a number equals nothing. -/
def equal (x y : Binary32) : Bool :=
  !x.isNaN && !y.isNaN && (x.bits == y.bits || (x.isZero && y.isZero))

/-- The number with the opposite sign. -/
def neg (x : Binary32) : Binary32 := ofParts (!x.negative) x.code

/-- The number without its sign. -/
def abs (x : Binary32) : Binary32 := ofParts false x.code

/-- The same number in double precision. -/
def widen (x : Binary32) : Binary64 :=
  if x.isNaN then Binary64.ofParts x.negative BinaryFormat.double.nan
  else if x.isFinite then
    let (m, q) := BinaryFormat.single.decode x.code
    Binary64.ofBinary x.negative m q
  else Binary64.ofParts x.negative BinaryFormat.double.infinity

end Binary32

/-- The nearest number in single precision. -/
def Binary64.narrow (x : Binary64) : Binary32 :=
  if x.isNaN then Binary32.ofParts x.negative BinaryFormat.single.nan
  else if x.isFinite then
    let (m, q) := BinaryFormat.double.decode x.code
    Binary32.ofParts x.negative (BinaryFormat.single.nearestBinary m q)
  else Binary32.ofParts x.negative BinaryFormat.single.infinity

end SqlStore
