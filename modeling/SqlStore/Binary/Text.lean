import SqlStore.Binary.Basic
import SqlStore.Text.Casing
import SqlStore.Text.Scan

/-!
# Text of floating-point numbers

Numbers are read from a sign, digits with an optional point, and an optional exponent, or from
one of the words for infinity and for what is not a number. They are written positionally with
the fewest digits that read back, never with an exponent.
-/

namespace SqlStore

/-! ## The fewest digits that read back

A finite magnitude stands for every real that rounds to it. `shortest` takes the coarsest decimal
grid that has a point in that interval, and of the two points next to the magnitude the nearer.
Which of two equally near points is taken is a choice of the printed form. -/

/-- Which of two equally near decimals is printed. -/
inductive TieRule where
  | upward
  | toEven
deriving Repr, DecidableEq

/-- A decimal `digits · 10^exponent`. -/
structure DecimalDigits where
  digits : Nat
  exponent : Int
deriving Repr, DecidableEq

/-- Drops zeros at the end, at most `fuel` of them. -/
def DecimalDigits.strip : Nat → DecimalDigits → DecimalDigits
  | 0, d => d
  | fuel + 1, d =>
    if d.digits % 10 == 0 && d.digits != 0 then strip fuel ⟨d.digits / 10, d.exponent + 1⟩ else d

namespace BinaryFormat

/-- Whether `10^e ≤ num / den`. -/
def atLeastPower (num den : Nat) (e : Int) : Bool :=
  if e < 0 then den ≤ num * pow10 e.natAbs else den * pow10 e.natAbs ≤ num

/-- Raises an estimate of the decimal exponent until the next power is too large. -/
def raiseExponent (num den : Nat) : Nat → Int → Int
  | 0, e => e
  | fuel + 1, e => if atLeastPower num den (e + 1) then raiseExponent num den fuel (e + 1) else e

/-- The `e` with `10^e ≤ num / den < 10^(e+1)`. -/
def decimalExponent (num den : Nat) : Int :=
  let binary : Int := (num.log2 : Int) - den.log2 - 1
  raiseExponent num den 4 (binary * 30103 / 100000 - 1)

/-- The reals that round to a magnitude, over one denominator: the magnitude is
`value / unit`, its ends are `low / unit` and `high / unit`. -/
structure Preimage where
  unit : Nat
  low : Nat
  value : Nat
  high : Nat
  closed : Bool

/-- The reals that round to a finite code. -/
def preimage (f : BinaryFormat) (code : Nat) : Preimage :=
  let (m, q) := f.decode code
  let narrow := m == pow2 f.fractionBits && code ≥ 2 * pow2 f.fractionBits
  let low := if narrow then 4 * m - 1 else 4 * m - 2
  let scale := if q < 2 then 1 else pow2 (q - 2).natAbs
  let unit := if q < 2 then pow2 (2 - q).natAbs else 1
  ⟨unit, low * scale, 4 * m * scale, (4 * m + 2) * scale, m % 2 == 0⟩

/-- Whether `point / unit` rounds to the magnitude. -/
def Preimage.holds (i : Preimage) (point : Nat) : Bool :=
  if i.closed then i.low ≤ point && point ≤ i.high else i.low < point && point < i.high

/-- The nearer of two neighbouring points, where `below` and `above` are the distances to them. -/
def nearer (tie : TieRule) (down below above : Nat) : Nat :=
  if below < above then down
  else if above < below then down + 1
  else match tie with
    | .upward => down + 1
    | .toEven => if down % 2 == 0 then down else down + 1

/-- The magnitude and its ends multiplied by `k`. -/
def Preimage.times (i : Preimage) (k : Nat) : Preimage :=
  { i with low := i.low * k, value := i.value * k, high := i.high * k }

/-- The point of the grid `10^e` that prints the magnitude, if the grid has one. -/
def gridPoint (tie : TieRule) (i : Preimage) (e : Int) : Option Nat :=
  let step := if e < 0 then i.unit else i.unit * pow10 e.natAbs
  let i := i.times (if e < 0 then pow10 e.natAbs else 1)
  let down := i.value / step
  match down > 0 && i.holds (down * step), i.holds ((down + 1) * step) with
  | true, true => some (nearer tie down (i.value - down * step) ((down + 1) * step - i.value))
  | true, false => some down
  | false, true => some (down + 1)
  | false, false => none

/-- Tries finer and finer grids, from `10^e` on. -/
def searchGrids (tie : TieRule) (i : Preimage) : Nat → Int → DecimalDigits
  | 0, e => ⟨i.value / i.unit, e⟩
  | fuel + 1, e =>
    match gridPoint tie i e with
    | some digits => ⟨digits, e⟩
    | none => searchGrids tie i fuel (e - 1)

/-- The decimal with the fewest digits that rounds to a finite code, without zeros at the end. -/
def shortest (f : BinaryFormat) (tie : TieRule) (code : Nat) : DecimalDigits :=
  if code == 0 then ⟨0, 0⟩ else
    let i := f.preimage code
    (searchGrids tie i 20 (decimalExponent i.value i.unit)).strip 20

end BinaryFormat

/-! ## Reading and writing -/

/-- A decimal numeral: all its digits as one number, how many digits there are, and the power of
ten that the last one stands for. -/
structure Numeral where
  mantissa : Nat
  width : Nat
  exponent : Int
deriving Repr, DecidableEq

/-- Reads digits with an optional point and an optional exponent; there has to be a digit in front
of the exponent, and one behind an exponent mark. -/
def Numeral.read? (cs : List Char) : Option Numeral :=
  let whole := cs.takeWhile Char.isDigit
  let rest := cs.dropWhile Char.isDigit
  let (fraction, rest) := match rest with
    | '.' :: r => (r.takeWhile Char.isDigit, r.dropWhile Char.isDigit)
    | r => ([], r)
  let ds := whole ++ fraction
  if ds.isEmpty then none else
    let point : Int := -fraction.length
    let numeral := fun (e : Int) => Numeral.mk (Text.natOfDigits ds) ds.length (point + e)
    match rest with
    | [] => some (numeral 0)
    | 'e' :: r => (Text.int? r).map numeral
    | 'E' :: r => (Text.int? r).map numeral
    | _ => none

namespace Binary64

/-- Reads a magnitude: a numeral or a word in lower case. -/
def magnitude? (cs : List Char) : Option Nat :=
  match String.ofList cs with
  | "inf" => some BinaryFormat.double.infinity
  | "infinity" => some BinaryFormat.double.infinity
  | "nan" => some BinaryFormat.double.nan
  | _ => (Numeral.read? cs).map fun n =>
      BinaryFormat.double.nearestDecimal n.mantissa n.width n.exponent

/-- Reads a number in any case, with an optional sign. -/
def parse? (s : String) : Option Binary64 :=
  match s.toList.map Char.toLower with
  | '-' :: cs => (magnitude? cs).map (ofParts true)
  | '+' :: cs => (magnitude? cs).map (ofParts false)
  | cs => (magnitude? cs).map (ofParts false)

end Binary64

/-- The positional form of a decimal, without an exponent. -/
def DecimalDigits.positional (d : DecimalDigits) : List Char :=
  let ds := Text.digits d.digits
  if d.exponent ≥ 0 then ds ++ List.replicate d.exponent.toNat '0'
  else
    let places := d.exponent.natAbs
    if places < ds.length then
      ds.take (ds.length - places) ++ '.' :: ds.drop (ds.length - places)
    else '0' :: '.' :: (List.replicate (places - ds.length) '0' ++ ds)

/-- The text of a magnitude with its sign. -/
def BinaryFormat.positional (f : BinaryFormat) (negative : Bool) (code : Nat) : String :=
  if code > f.infinity then "NaN" else
    let body := if code == f.infinity then "inf".toList else (f.shortest .upward code).positional
    String.ofList (if negative then '-' :: body else body)

/-- The positional text of a double-precision number. -/
def Binary64.text (x : Binary64) : String := BinaryFormat.double.positional x.negative x.code

/-- The positional text of a single-precision number. -/
def Binary32.text (x : Binary32) : String := BinaryFormat.single.positional x.negative x.code

end SqlStore
