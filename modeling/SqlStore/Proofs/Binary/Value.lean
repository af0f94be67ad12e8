import Mathlib.Algebra.Order.Round
import Mathlib.Data.Rat.Floor
import SqlStore.Proofs.Binary.Narrowing

/-!
# The number that a code stands for

A finite code stands for a rational number: its significand times its power of two, with its sign.
Widening to double precision keeps this number. It is rounded to the nearest whole number, and a half goes
away from zero: double precision computes this from significand and exponent.
-/

namespace SqlStore

namespace BinaryFormat

variable {f : BinaryFormat}

/-- The magnitude of a finite code. -/
def magnitude (f : BinaryFormat) (code : Nat) : ℚ := (f.decode code).1 * 2 ^ (f.decode code).2

/-- The code of a significand and an exponent stands for them. The significand may be one too long, as a
rounded one is: then its code is the one with the next exponent. -/
theorem magnitude_encode {m : Nat} {q : Int} (hleast : f.leastExponent ≤ q)
    (hle : m ≤ pow2 (f.fractionBits + 1)) (hshort : pow2 f.fractionBits ≤ m ∨ q = f.leastExponent) :
    f.magnitude (f.encode m q) = m * 2 ^ q := by
  have hpos := pow2_pos f.fractionBits
  have hsucc := pow2_succ f.fractionBits
  unfold magnitude
  by_cases hlong : m = pow2 (f.fractionBits + 1)
  · have hcode : f.encode m q = f.encode (pow2 f.fractionBits) (q + 1) := by
      have hplace : (q + 1 - f.leastExponent).toNat = (q - f.leastExponent).toNat + 1 := by omega
      unfold encode
      rw [hplace, hlong, hsucc, Nat.add_mul]
      omega
    have hnormal : f.Normal (pow2 f.fractionBits) (q + 1) := ⟨by omega, by omega, .inl le_rfl⟩
    rw [hcode, decode_encode hnormal le_rfl, hlong, hsucc, zpow_add₀ (by norm_num)]
    push_cast
    ring
  · by_cases hfull : pow2 f.fractionBits ≤ m
    · rw [decode_encode ⟨hleast, by omega, hshort⟩ hfull]
    · obtain rfl : q = f.leastExponent := by omega
      have hcode : f.encode m f.leastExponent = m := by simp [encode]
      have hdecode : f.decode m = (m, f.leastExponent) := by
        unfold decode
        rw [Nat.div_eq_of_lt (not_le.mp hfull), Nat.mod_eq_of_lt (not_le.mp hfull)]
        rfl
      rw [hcode, hdecode]

theorem magnitude_of_normal {m : Nat} {q : Int} (h : f.Normal m q) : f.magnitude (f.encode m q) = m * 2 ^ q :=
  magnitude_encode h.least_le h.lt.le h.short

theorem magnitude_zero (f : BinaryFormat) : f.magnitude 0 = 0 := by
  have hdecode : f.decode 0 = (0, f.leastExponent) := by simp [decode]
  unfold magnitude
  rw [hdecode]
  simp

theorem magnitude_nonneg (f : BinaryFormat) (code : Nat) : 0 ≤ f.magnitude code := by
  unfold magnitude
  positivity

end BinaryFormat

open BinaryFormat

namespace Binary64

/-- The number that a finite code stands for. -/
def toRat (x : Binary64) : ℚ := if x.negative then -double.magnitude x.code else double.magnitude x.code

theorem toRat_ofParts (n : Bool) {c : Nat} (hc : c < signBit) :
    (ofParts n c).toRat = if n then -double.magnitude c else double.magnitude c := by
  unfold toRat
  rw [negative_ofParts n hc, code_ofParts n hc]

theorem toRat_eq_signed (x : Binary64) : x.toRat = x.signed.1 * 2 ^ x.signed.2 := by
  unfold toRat signed magnitude
  dsimp only
  split
  · push_cast
    ring
  · push_cast
    rfl

theorem isFinite_ofParts (n : Bool) {c : Nat} (hc : c < double.infinity) : (ofParts n c).isFinite = true := by
  have hsign : double.infinity < signBit := by decide
  unfold isFinite
  rw [code_ofParts n (hc.trans hsign)]
  exact decide_eq_true hc

end Binary64

namespace Binary32

/-- The number that a finite code stands for. -/
def toRat (x : Binary32) : ℚ := if x.negative then -single.magnitude x.code else single.magnitude x.code

/-- Double precision has the magnitude of a finite code. -/
theorem magnitude_widenCode {code : Nat} (h : code < single.infinity) :
    widenCode code < double.infinity ∧ double.magnitude (widenCode code) = single.magnitude code := by
  unfold widenCode
  rw [if_neg h.not_gt, if_pos h]
  by_cases hzero : (single.decode code).1 = 0
  · have hmagnitude : single.magnitude code = 0 := by simp [magnitude, hzero]
    rw [hzero, nearestBinary_zero, magnitude_zero, hmagnitude]
    exact ⟨by decide, rfl⟩
  · obtain ⟨m, q, hdouble, -, hlt, hvalue⟩ := exists_double_of_single h hzero
    rw [nearestBinary_of_normal hzero hvalue hdouble, min_eq_right hlt.le, magnitude_of_normal hdouble]
    exact ⟨hlt, hvalue.symm⟩

/-- Widening keeps the number. -/
theorem toRat_widen {x : Binary32} (h : x.isFinite = true) : x.widen.toRat = x.toRat := by
  obtain ⟨-, hmagnitude⟩ := magnitude_widenCode (of_decide_eq_true h)
  rw [widen_eq, Binary64.toRat_ofParts _ (widenCode_lt _), hmagnitude]
  rfl

theorem isFinite_widen (x : Binary32) : x.widen.isFinite = x.isFinite := by
  have hsign : Binary64.code (Binary64.ofParts x.negative (widenCode x.code)) = widenCode x.code :=
    Binary64.code_ofParts _ (widenCode_lt _)
  unfold Binary64.isFinite isFinite
  rw [widen_eq, hsign, decide_eq_decide]
  constructor
  · intro hlt
    by_contra hinfinite
    -- what is not finite is widened to infinity or to what is not a number
    have hle : double.infinity ≤ widenCode x.code := by
      unfold widenCode
      rw [if_neg hinfinite]
      split
      · decide
      · exact le_rfl
    omega
  · exact fun hlt => (magnitude_widenCode hlt).1

end Binary32

/-! ## Rounding to whole numbers -/

/-- The nearest whole number, of two equally near ones the one farther from zero. -/
def nearestInteger (q : ℚ) : ℤ := if q < 0 then -⌊-q + 1 / 2⌋ else ⌊q + 1 / 2⌋

theorem nearestInteger_neg (q : ℚ) : nearestInteger (-q) = -nearestInteger q := by
  unfold nearestInteger
  rcases lt_trichotomy q 0 with h | rfl | h
  · rw [if_neg (by linarith), if_pos h, neg_neg]
  · norm_num
  · rw [if_pos (by linarith), if_neg (by linarith), neg_neg]

theorem floor_add_half_eq_iff {q : ℚ} {n : ℤ} (hq : 0 ≤ q) :
    ⌊q + 1 / 2⌋ = n ↔ |q - n| < 1 / 2 ∨ |q - n| = 1 / 2 ∧ |q| < |(n : ℚ)| := by
  rw [Int.floor_eq_iff, abs_of_nonneg hq]
  constructor
  · rintro ⟨hlow, hhigh⟩
    rcases hlow.lt_or_eq with hlt | heq
    · exact .inl (abs_lt.mpr ⟨by linarith, by linarith⟩)
    · have hhalf : q - n = -(1 / 2) := by linarith
      refine .inr ⟨by rw [hhalf, abs_neg, abs_of_pos (by norm_num)], ?_⟩
      rw [heq, abs_of_nonneg (by linarith)]
      linarith
  · rintro (hnear | ⟨hhalf, hfar⟩)
    · obtain ⟨hlow, hhigh⟩ := abs_lt.mp hnear
      exact ⟨by linarith, by linarith⟩
    · rcases (abs_eq (by norm_num)).mp hhalf with habove | hbelow
      · -- a half above is nearer to zero
        have hn : (0 : ℚ) ≤ n := by
          have hlt : ((-1 : ℤ) : ℚ) < n := by
            push_cast
            linarith
          have hle : -1 + 1 ≤ n := by exact_mod_cast hlt
          exact_mod_cast hle
        rw [abs_of_nonneg hn] at hfar
        linarith
      · exact ⟨by linarith, by linarith⟩

/-- No whole number is nearer, and no other is as near unless the chosen one is farther from zero. -/
theorem nearestInteger_eq_iff {q : ℚ} {n : ℤ} :
    nearestInteger q = n ↔ |q - n| < 1 / 2 ∨ |q - n| = 1 / 2 ∧ |q| < |(n : ℚ)| := by
  by_cases hq : q < 0
  · have hopposite : nearestInteger q = n ↔ ⌊-q + 1 / 2⌋ = -n := by
      unfold nearestInteger
      rw [if_pos hq, neg_eq_iff_eq_neg]
    have hdistance : |-q - (-n : ℤ)| = |q - n| := by
      push_cast
      rw [← abs_neg]
      congr 1
      ring
    have hsize : |((-n : ℤ) : ℚ)| = |(n : ℚ)| := by
      push_cast
      exact abs_neg _
    rw [hopposite, floor_add_half_eq_iff (by linarith), hdistance, abs_neg, hsize]
  · unfold nearestInteger
    rw [if_neg hq, floor_add_half_eq_iff (not_lt.mp hq)]

theorem nearestInteger_intCast (n : ℤ) : nearestInteger n = n :=
  nearestInteger_eq_iff.mpr (.inl (by norm_num))

/-- The nearest whole number of a quotient of naturals. -/
theorem nearestInteger_div {m d : Nat} (hd : 0 < d) :
    nearestInteger ((m : ℚ) / d) = ((2 * m + d) / (2 * d) : Nat) := by
  have hd' : (d : ℚ) ≠ 0 := by exact_mod_cast hd.ne'
  have hsum : (m : ℚ) / d + 1 / 2 = ((2 * m + d : Nat) : ℚ) / ((2 * d : Nat) : ℚ) := by
    push_cast
    field_simp
  have hnonneg : ¬ (m : ℚ) / d < 0 := not_lt.mpr (by positivity)
  unfold nearestInteger
  rw [if_neg hnonneg, hsum, Rat.floor_natCast_div_natCast]
  norm_cast

namespace Binary64

/-- A finite magnitude as a quotient or a multiple. -/
theorem magnitude_eq (m : Nat) (q : Int) :
    (m : ℚ) * 2 ^ q =
      if q < 0 then (m : ℚ) / (pow2 q.natAbs : Nat) else ((m * pow2 q.natAbs : Nat) : ℚ) := by
  split
  · next h =>
    obtain ⟨k, rfl⟩ : ∃ k : Nat, q = -(k : Int) := ⟨q.natAbs, by omega⟩
    rw [zpow_neg, zpow_natCast, Int.natAbs_neg, Int.natAbs_natCast, cast_pow2, div_eq_mul_inv]
  · next h =>
    obtain ⟨k, rfl⟩ : ∃ k : Nat, q = (k : Int) := ⟨q.natAbs, by omega⟩
    rw [zpow_natCast, Int.natAbs_natCast, Nat.cast_mul, cast_pow2]

/-- The nearest whole number of a finite magnitude. -/
theorem nearestInteger_magnitude (m : Nat) (q : Int) :
    nearestInteger ((m : ℚ) * 2 ^ q) =
      if q < 0 then ((2 * m + pow2 q.natAbs) / pow2 (q.natAbs + 1) : Nat) else (m * pow2 q.natAbs : Nat) := by
  rw [magnitude_eq]
  split
  · rw [nearestInteger_div (pow2_pos _), pow2_succ]
  · exact_mod_cast nearestInteger_intCast _

/-- Rounding goes to the nearest whole number. -/
theorem roundAway_eq (x : Binary64) : x.roundAway = nearestInteger x.toRat := by
  unfold roundAway toRat signed BinaryFormat.magnitude
  generalize BinaryFormat.double.decode x.code = parts
  obtain ⟨m, q⟩ := parts
  dsimp only
  by_cases hneg : x.negative = true
  · rw [if_pos hneg, if_pos hneg, nearestInteger_neg, nearestInteger_magnitude, Int.natAbs_neg,
      Int.natAbs_natCast]
    split
    · by_cases hzero : m = 0
      · -- without a sign zero is rounded as it is
        have hhalf : pow2 q.natAbs / pow2 (q.natAbs + 1) = 0 := by
          have hpos := pow2_pos q.natAbs
          exact Nat.div_eq_of_lt (by rw [pow2_succ]; omega)
        simp [hzero, hhalf]
      · rw [if_pos (by omega)]
    · push_cast
      ring
  · rw [if_neg hneg, if_neg hneg, nearestInteger_magnitude, Int.natAbs_natCast]
    split
    · rw [if_neg (by omega)]
    · push_cast
      rfl

end Binary64

end SqlStore
