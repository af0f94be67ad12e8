import SqlStore.Text.Scan
import SqlStore.Binary.Basic

/-!
# Exact decimals

A `Numeric` is a sign, a mantissa of at most 96 bits, and a scale, the number of decimal places.
Trailing zeros count: `1.5` and `1.50` are equal in value and differ in text. Zero keeps a sign
where an operation gives it one. Results that do not fit are rounded to the most places that do,
at most `maxScale` of them; a declared scale may pad beyond that.
-/

namespace SqlStore

/-- The mantissas of decimals are the numbers of 96 bits. -/
abbrev Numeric.mantissaBound : Nat := 79228162514264337593543950336

/-- An exact decimal, `± mantissa / 10^scale`. -/
structure Numeric where
  negative : Bool
  mantissa : Nat
  scale : Nat
  mantissa_lt : mantissa < Numeric.mantissaBound
deriving DecidableEq

namespace Numeric

/-- The most decimal places that a computed result has. -/
def maxScale : Nat := 28

/-- A decimal of given parts, if the mantissa fits. -/
def ofParts? (negative : Bool) (mantissa scale : Nat) : Option Numeric :=
  if h : mantissa < mantissaBound then some ⟨negative, mantissa, scale, h⟩ else none

/-- A decimal of given parts, if the mantissa fits; zero has no sign. -/
def ofMagnitude? (negative : Bool) (mantissa scale : Nat) : Option Numeric :=
  ofParts? (negative && mantissa != 0) mantissa scale

/-- Zero without decimal places. -/
def zero : Numeric := ⟨false, 0, 0, by decide⟩

/-- An integer as a decimal, if it fits. -/
def ofInt? (n : Int) : Option Numeric := ofParts? (n < 0) n.natAbs 0

/-- The mantissa with its sign. -/
def signed (d : Numeric) : Int := if d.negative then -d.mantissa else d.mantissa

def isZero (d : Numeric) : Bool := d.mantissa == 0

/-- Whether two mantissas are short enough for arithmetic in one word. -/
def short (d : Numeric) : Bool := d.mantissa < UInt32.size

/-- The opposite number; zero changes its sign too. -/
def neg (d : Numeric) : Numeric := { d with negative := !d.negative }

/-- The number without its sign. -/
def abs (d : Numeric) : Numeric := { d with negative := false }

/-- The order of values, whatever the scales. -/
def compareValue (a b : Numeric) : Ordering :=
  compare (a.signed * pow10 b.scale) (b.signed * pow10 a.scale)

/-- Equality of values, whatever the scales. -/
def equal (a b : Numeric) : Bool := a.compareValue b == .eq

/-- Drops `k` places and then as many more as the mantissa needs to fit; `none` when even the
integer part does not fit. -/
def dropPlaces (negative : Bool) (mantissa scale : Nat) : Nat → Nat → Option Numeric
  | 0, _ => none
  | fuel + 1, k =>
    if k > scale then none
    else match ofMagnitude? negative (roundHalfEven mantissa (pow10 k)) (scale - k) with
      | some d => some d
      | none => dropPlaces negative mantissa scale fuel (k + 1)

/-- The decimal nearest to `± mantissa / 10^scale` with as many places as fit, a half going to
the even neighbour. -/
def fit? (negative : Bool) (mantissa scale : Nat) : Option Numeric :=
  dropPlaces negative mantissa scale (scale + 2) (scale - maxScale)

/-- The sum at the larger scale. A zero operand leaves the other as it is. -/
def add? (a b : Numeric) : Option Numeric :=
  if a.isZero then some b
  else if b.isZero then some a
  else
    let scale := max a.scale b.scale
    let sum := a.signed * pow10 (scale - a.scale) + b.signed * pow10 (scale - b.scale)
    if sum == 0 then ofParts? false 0 scale else fit? (sum < 0) sum.natAbs scale

/-- The difference at the larger scale. -/
def sub? (a b : Numeric) : Option Numeric :=
  if b.isZero then some (if a.isZero then b else a) else add? a b.neg

/-- The product at the sum of the scales. A product with zero is plain zero, and so is one of
short numbers that lies more than nineteen places below the last one. -/
def mul? (a b : Numeric) : Option Numeric :=
  if a.isZero || b.isZero then some zero
  else
    let scale := a.scale + b.scale
    if a.short && b.short && scale > maxScale + 19 then some zero
    else fit? (a.negative != b.negative) (a.mantissa * b.mantissa) scale

/-- Strips `k` zeros from the end of the places, if there are as many. -/
def stripZeros (k : Nat) (n : Nat × Nat) : Nat × Nat :=
  if k ≤ n.2 && n.1 % pow10 k == 0 then (n.1 / pow10 k, n.2 - k) else n

/-- Strips eight zeros at a time while the mantissa is a multiple of a whole word; `fuel` bounds the
times. -/
def stripWords : Nat → Nat × Nat → Nat × Nat
  | 0, n => n
  | fuel + 1, n =>
    if n.1 % UInt32.size == 0 && 8 ≤ n.2 && n.1 % pow10 8 == 0 then
      stripWords fuel (stripZeros 8 n)
    else n

/-- Strips zeros from the places that a division took: four, two and one, each once. -/
def strip (mantissa scale : Nat) : Nat × Nat :=
  stripZeros 1 (stripZeros 2 (stripZeros 4 (stripWords 4 (mantissa, scale))))

/-- How many places more a quotient can take at a time: at most nine, as many as its mantissa and
the scale allow. -/
def morePlaces (quotient : Nat) (scale : Int) : Nat :=
  let most := min 9 (maxScale - scale).toNat
  ((List.range (most + 1)).filter fun k => quotient * pow10 k < mantissaBound).getLast?.getD 0

/-- The decimal of a quotient that took places, without zeros at its end. -/
def ofQuotient? (negative : Bool) (mantissa scale : Nat) : Option Numeric :=
  let (m, s) := strip mantissa scale
  ofMagnitude? negative m s

/-- The quotient `num / den` rounded at a scale, or one place before if it does not fit. -/
def roundQuotient? (negative : Bool) (num den scale : Nat) : Option Numeric :=
  let m := roundHalfEven num den
  if m < mantissaBound then ofQuotient? negative m scale
  else if scale == 0 then none
  else ofQuotient? negative (roundHalfEven num (den * 10)) (scale - 1)

/-- Takes places of the quotient `num / den` until it is exact or no more fit, then rounds it;
`fuel` bounds the times. -/
def takePlaces? (negative : Bool) : Nat → Nat → Nat → Int → Option Numeric
  | 0, _, _, _ => none
  | fuel + 1, num, den, scale =>
    let quotient := num / den
    if mantissaBound ≤ quotient then roundQuotient? negative num den scale.toNat
    else if num % den == 0 && 0 ≤ scale then ofQuotient? negative quotient scale.toNat
    else
      let more := if num % den == 0 then min 9 (-scale).toNat else morePlaces quotient scale
      if more < 9 && more + scale < 0 then none
      else if more == 0 then roundQuotient? negative num den scale.toNat
      else takePlaces? negative fuel (num * pow10 more) den (scale + more)

/-- The quotient. It starts with the difference of the scales and takes more places, up to nine at
a time, until it is exact or full; zeros are stripped only from places it took. -/
def div? (a b : Numeric) : Option Numeric :=
  if b.isZero then none
  else if a.isZero then some zero
  else
    let negative := a.negative != b.negative
    if a.mantissa % b.mantissa == 0 then
      let quotient := a.mantissa / b.mantissa
      ofMagnitude? negative (quotient * pow10 (b.scale - a.scale)) (a.scale - b.scale)
    else takePlaces? negative 64 a.mantissa b.mantissa ((a.scale : Int) - b.scale)

/-- The remainder with the sign of the dividend. A dividend below the divisor is the remainder
itself. -/
def rem? (a b : Numeric) : Option Numeric :=
  if b.isZero then none
  else if a.isZero then some zero
  else match a.abs.compareValue b.abs with
    | .eq => some zero
    | .lt => some a
    | .gt =>
      let scale := max a.scale b.scale
      let r := (a.mantissa * pow10 (scale - a.scale)) % (b.mantissa * pow10 (scale - b.scale))
      ofMagnitude? a.negative r scale

theorem round_lt {m k : Nat} (h : m < mantissaBound) (hk : 0 < k) :
    (m + 5 * pow10 (k - 1)) / pow10 k < mantissaBound := by
  obtain ⟨j, rfl⟩ : ∃ j, k = j + 1 := ⟨k - 1, by omega⟩
  have hpos := pow10_pos j
  rw [Nat.add_sub_cancel, Nat.div_lt_iff_lt_mul (pow10_pos _), pow10_succ]
  unfold mantissaBound at h ⊢
  omega

/-- The number rounded to at most `places` places, a half going away from zero. -/
def round (d : Numeric) (places : Nat) : Numeric :=
  if h : d.scale ≤ places then d
  else
    let k := d.scale - places
    let m := (d.mantissa + 5 * pow10 (k - 1)) / pow10 k
    ⟨d.negative && m != 0, m, places, round_lt d.mantissa_lt (by omega)⟩

/-- Adds up to `n` zeros at the end, as many as fit. -/
def padPlaces (d : Numeric) : Nat → Numeric
  | 0 => d
  | n + 1 => match ofParts? d.negative (d.mantissa * 10) (d.scale + 1) with
    | some wider => padPlaces wider n
    | none => d

/-- The number with `places` places: rounded, or padded as far as the mantissa allows. -/
def withScale (d : Numeric) (places : Nat) : Numeric :=
  let d := d.round places
  if d.isZero then { d with scale := min places (max d.scale maxScale) }
  else d.padPlaces (places - d.scale)

/-- The integer part. -/
def truncate (d : Numeric) : Int := d.signed.tdiv (pow10 d.scale)

/-- The text: every place is written. -/
def text (d : Numeric) : String :=
  let ds := Text.padded (d.scale + 1) d.mantissa
  let whole := ds.take (ds.length - d.scale)
  let places := if d.scale == 0 then [] else '.' :: ds.drop (ds.length - d.scale)
  String.ofList ((if d.negative then ['-'] else []) ++ whole ++ places)

end Numeric

end SqlStore
