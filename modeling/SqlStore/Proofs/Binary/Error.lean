import SqlStore.Proofs.Binary.Value

/-!
# Errors of rounding

A rational is rounded to the significand of an exponent that suits it, by at most half of a unit there. So
the result of an operation is near to the exact one, unless that is too large, and it is the exact one if
this is an integer of 53 bits.
-/

namespace SqlStore

/-- Rounding a quotient moves it by at most a half. -/
theorem roundHalfEven_error {n d : Nat} (hd : 0 < d) : |(roundHalfEven n d : ℚ) - n / d| ≤ 1 / 2 := by
  have hd' : (0 : ℚ) < d := by exact_mod_cast hd
  -- the same bounds without division, on the two branches of the rounding
  have hbounds : 2 * n ≤ 2 * (roundHalfEven n d * d) + d ∧ 2 * (roundHalfEven n d * d) ≤ 2 * n + d := by
    have hdiv := Nat.div_add_mod n d
    have hmod := Nat.mod_lt n hd
    unfold roundHalfEven
    dsimp only
    split
    · next hup =>
      have hhalf : d ≤ 2 * (n % d) := by
        simp only [Bool.or_eq_true, decide_eq_true_eq, Bool.and_eq_true, beq_iff_eq] at hup
        omega
      rw [Nat.add_mul, Nat.mul_comm (n / d)]
      omega
    · next hdown =>
      have hhalf : 2 * (n % d) ≤ d := by
        simp only [Bool.or_eq_true, decide_eq_true_eq, Bool.and_eq_true, beq_iff_eq] at hdown
        omega
      rw [Nat.mul_comm (n / d)]
      omega
  obtain ⟨hlow, hhigh⟩ := hbounds
  have hlow' : 2 * (n : ℚ) ≤ 2 * (roundHalfEven n d * d) + d := by exact_mod_cast hlow
  have hhigh' : 2 * ((roundHalfEven n d : ℚ) * d) ≤ 2 * n + d := by exact_mod_cast hhigh
  rw [abs_le]
  constructor
  · have hquotient : (n : ℚ) / d ≤ roundHalfEven n d + 1 / 2 := by
      rw [div_le_iff₀ hd']
      linarith
    linarith
  · have hquotient : (roundHalfEven n d : ℚ) - 1 / 2 ≤ n / d := by
      rw [le_div_iff₀ hd']
      linarith
    linarith

/-- Rounding gives one of two neighbours. -/
theorem roundHalfEven_bounds (n d : Nat) :
    n / d ≤ roundHalfEven n d ∧ roundHalfEven n d ≤ n / d + 1 := by
  unfold roundHalfEven
  dsimp only
  split <;> omega

namespace BinaryFormat

variable {f : BinaryFormat} {num den : Nat}

/-! ## The exponent -/

/-- The exponent of the unit that a quotient is rounded to. -/
def place (f : BinaryFormat) (num den : Nat) : Int :=
  if (scaled num den (f.firstGuess num den)).1 / (scaled num den (f.firstGuess num den)).2 <
    pow2 (f.fractionBits + 1) then f.firstGuess num den else f.firstGuess num den + 1

/-- The significand that a quotient is rounded to. -/
def significand (f : BinaryFormat) (num den : Nat) : Nat :=
  roundHalfEven (scaled num den (f.place num den)).1 (scaled num den (f.place num den)).2

theorem nearest_eq (hnum : num ≠ 0) :
    f.nearest num den = min f.infinity (f.encode (f.significand num den) (f.place num den)) := by
  unfold nearest
  rw [if_neg (by simpa using hnum)]
  rfl

theorem nearest_zero (f : BinaryFormat) (den : Nat) : f.nearest 0 den = 0 := rfl

/-- Scaling does not change how a quotient compares with a power of two. -/
theorem scaled_lt_iff (hden : 0 < den) (q : Int) (k : Nat) :
    (scaled num den q).1 / (scaled num den q).2 < pow2 k ↔ (num : ℚ) / den < 2 ^ (k + q) := by
  obtain ⟨hpos, hratio⟩ := @scaled_ratio num den hden q
  rw [div_lt_pow2_iff hpos, hratio, zpow_neg, ← div_eq_mul_inv, div_lt_iff₀ (by positivity),
    zpow_add₀ (by norm_num), zpow_natCast]

/-- The quotient has its highest bit in front of a significand, unless the exponent is the least one. -/
theorem place_spec (hnum : num ≠ 0) (hden : 0 < den) :
    f.leastExponent ≤ f.place num den ∧
      (num : ℚ) / den < 2 ^ ((f.fractionBits + 1 : Nat) + f.place num den) ∧
      ((2 : ℚ) ^ (f.fractionBits + f.place num den) ≤ num / den ∨
        f.place num den = f.leastExponent) := by
  obtain ⟨hlow, hhigh⟩ := log2_ratio hnum hden
  have hguess : f.firstGuess num den =
      max ((num.log2 : Int) - den.log2 - 1 - f.fractionBits) f.leastExponent := rfl
  have hfits := @scaled_lt_iff num den hden (f.firstGuess num den) (f.fractionBits + 1)
  unfold place
  split
  · next h =>
    refine ⟨by omega, hfits.mp h, ?_⟩
    rcases le_total ((num.log2 : Int) - den.log2 - 1 - f.fractionBits) f.leastExponent with hle | hle
    · exact .inr (by omega)
    · have hexponent : f.fractionBits + f.firstGuess num den = (num.log2 : Int) - den.log2 - 1 := by omega
      rw [hexponent]
      exact .inl hlow.le
  · next h =>
    have hover := not_lt.mp (mt hfits.mpr h)
    have hexponent : f.fractionBits + (f.firstGuess num den + 1) =
        (f.fractionBits + 1 : Nat) + f.firstGuess num den := by omega
    rw [hexponent]
    exact ⟨by omega, hhigh.trans_le (zpow_le_zpow_right₀ (by norm_num) (by omega)), .inl hover⟩

/-! ## The error -/

theorem significand_le (hnum : num ≠ 0) (hden : 0 < den) :
    f.significand num den ≤ pow2 (f.fractionBits + 1) := by
  obtain ⟨-, hlt, -⟩ := place_spec (f := f) hnum hden
  exact (roundHalfEven_bounds _ _).2.trans ((scaled_lt_iff hden _ _).mpr hlt)

/-- The significand is rounded by at most half of a unit. -/
theorem magnitude_significand (hnum : num ≠ 0) (hden : 0 < den) :
    |f.magnitude (f.encode (f.significand num den) (f.place num den)) - num / den| ≤
      2 ^ (f.place num den - 1) := by
  obtain ⟨hleast, -, hfull⟩ := place_spec (f := f) hnum hden
  have hshort : pow2 f.fractionBits ≤ f.significand num den ∨ f.place num den = f.leastExponent := by
    refine hfull.imp_left fun h => ?_
    have hquotient := mt (scaled_lt_iff hden (f.place num den) f.fractionBits).mp h.not_gt
    exact (Nat.le_of_not_lt hquotient).trans (roundHalfEven_bounds _ _).1
  obtain ⟨hpos, hratio⟩ := @scaled_ratio num den hden (f.place num den)
  have herror : |(f.significand num den : ℚ) - num / den * 2 ^ (-f.place num den)| ≤ 1 / 2 := by
    rw [← hratio]
    exact roundHalfEven_error hpos
  rw [magnitude_encode hleast (significand_le hnum hden) hshort]
  generalize f.place num den = q at *
  generalize (f.significand num den : ℚ) = r at *
  have hunit : (0 : ℚ) < 2 ^ q := by positivity
  have hvalue : r * 2 ^ q - num / den = (r - num / den * 2 ^ (-q)) * 2 ^ q := by
    rw [zpow_neg]
    field_simp
  calc |r * 2 ^ q - num / den| = |r - num / den * 2 ^ (-q)| * 2 ^ q := by
        rw [hvalue, abs_mul, abs_of_pos hunit]
    _ ≤ 1 / 2 * 2 ^ q := mul_le_mul_of_nonneg_right herror hunit.le
    _ = 2 ^ (q - 1) := by
        rw [zpow_sub₀ (by norm_num), zpow_one]
        ring

/-- Below a power of two that the format has, rounding gives a finite number and is off by at most half of the
unit that belongs to this power. -/
theorem nearest_error {e : Int} (hden : 0 < den) (hleast : f.leastExponent + f.fractionBits + 1 ≤ e)
    (hmost : e - f.leastExponent - f.fractionBits + 2 < pow2 f.exponentBits) (h : (num : ℚ) / den < 2 ^ e) :
    f.nearest num den < f.infinity ∧
      |f.magnitude (f.nearest num den) - num / den| ≤ 2 ^ (e - f.fractionBits - 2) := by
  have hpos := pow2_pos f.fractionBits
  by_cases hnum : num = 0
  · have hinfinity : 0 < f.infinity := Nat.mul_pos (by omega) hpos
    rw [hnum, nearest_zero, magnitude_zero, Nat.cast_zero, zero_div, sub_zero, abs_zero]
    exact ⟨hinfinity, by positivity⟩
  · have hplace : f.place num den ≤ e - f.fractionBits - 1 := by
      obtain ⟨-, -, hfull | hshort⟩ := place_spec (f := f) hnum hden
      · have hexponents := (zpow_lt_zpow_iff_right₀ (by norm_num)).mp (hfull.trans_lt h)
        omega
      · omega
    have hcode : f.encode (f.significand num den) (f.place num den) < f.infinity := by
      have hsignificand := significand_le (f := f) hnum hden
      rw [pow2_succ] at hsignificand
      calc f.encode (f.significand num den) (f.place num den)
          ≤ (f.place num den - f.leastExponent).toNat * pow2 f.fractionBits + 2 * pow2 f.fractionBits :=
            Nat.add_le_add_left hsignificand _
        _ = ((f.place num den - f.leastExponent).toNat + 2) * pow2 f.fractionBits := by rw [Nat.add_mul]
        _ < f.infinity := Nat.mul_lt_mul_of_pos_right (by omega) hpos
    rw [nearest_eq hnum, min_eq_right hcode.le]
    refine ⟨hcode, (magnitude_significand hnum hden).trans ?_⟩
    exact zpow_le_zpow_right₀ (by norm_num) (by omega)

/-- A binary number as a quotient. -/
theorem exists_nearest_eq (f : BinaryFormat) (m : Nat) (q : Int) :
    ∃ num den, 0 < den ∧ f.nearestBinary m q = f.nearest num den ∧ (num : ℚ) / den = m * 2 ^ q := by
  unfold nearestBinary
  rw [Binary64.magnitude_eq]
  split
  · exact ⟨m, _, pow2_pos _, rfl, rfl⟩
  · exact ⟨_, 1, Nat.one_pos, rfl, by rw [Nat.cast_one, div_one]⟩

end BinaryFormat

open BinaryFormat

namespace Binary64

/-! ## Made of significand and exponent -/

/-- A number with a sign. -/
def signedValue (negative : Bool) (v : ℚ) : ℚ := if negative then -v else v

theorem abs_signedValue (n : Bool) {v : ℚ} (hv : 0 ≤ v) : |signedValue n v| = v := by
  cases n with
  | false => exact abs_of_nonneg hv
  | true => exact (abs_neg v).trans (abs_of_nonneg hv)

theorem abs_signedValue_sub (n : Bool) (v w : ℚ) : |signedValue n v - signedValue n w| = |v - w| := by
  cases n with
  | false => rfl
  | true =>
    show |-v - -w| = |v - w|
    rw [neg_sub_neg, abs_sub_comm]

theorem toRat_ofCode (n : Bool) {c : Nat} (hc : c < double.infinity) :
    (ofParts n c).toRat = signedValue n (double.magnitude c) :=
  toRat_ofParts n (hc.trans (by decide))

section

variable {num den m k : Nat} {q e : Int}

/-- A quotient is made with a small error, unless it is too large. -/
theorem ofNearest_error (n : Bool) (hden : 0 < den) (hleast : -1021 ≤ e) (hmost : e < 1024)
    (h : (num : ℚ) / den < 2 ^ e) :
    (ofParts n (double.nearest num den)).isFinite = true ∧
      |(ofParts n (double.nearest num den)).toRat - signedValue n (num / den)| ≤ 2 ^ (e - 54) := by
  have hformat : double.leastExponent = -1074 := by decide
  have hbits : double.fractionBits = 52 := rfl
  have hexponents : pow2 double.exponentBits = 2048 := by decide
  obtain ⟨hfinite, herror⟩ := nearest_error (f := double) hden (by omega) (by omega) h
  rw [toRat_ofCode n hfinite, abs_signedValue_sub]
  exact ⟨isFinite_ofParts n hfinite, herror.trans (zpow_le_zpow_right₀ (by norm_num) (by omega))⟩

/-- A natural number of 53 bits is made exactly. -/
theorem ofNearest_natural (n : Bool) (hden : 0 < den) (hk : k < 2 ^ 53) (h : (num : ℚ) / den = k) :
    (ofParts n (double.nearest num den)).isFinite = true ∧
      (ofParts n (double.nearest num den)).toRat = signedValue n k := by
  have hden' : (den : ℚ) ≠ 0 := by exact_mod_cast hden.ne'
  by_cases hk0 : k = 0
  · have hzero : num = 0 := by
      rw [hk0, Nat.cast_zero, div_eq_zero_iff] at h
      exact_mod_cast h.resolve_right hden'
    have hfinite : 0 < double.infinity := by decide
    rw [hzero, nearest_zero, hk0, toRat_ofCode n hfinite, magnitude_zero, Nat.cast_zero]
    exact ⟨isFinite_ofParts n hfinite, rfl⟩
  · obtain ⟨hnormal, hvalue⟩ := normal_natural hk0 hk
    obtain ⟨hencode, hfinite⟩ := encode_natural hk0 hk
    have hnum : num ≠ 0 := by
      rintro rfl
      rw [Nat.cast_zero, zero_div] at h
      exact hk0 (by exact_mod_cast h.symm)
    rw [← hencode] at hfinite
    rw [nearest_of_normal hnum hden (h.trans hvalue) hnormal, min_eq_right hfinite.le,
      toRat_ofCode n hfinite, magnitude_of_normal hnormal, ← hvalue]
    exact ⟨isFinite_ofParts n hfinite, rfl⟩

theorem ofBinary_error (n : Bool) (hleast : -1021 ≤ e) (hmost : e < 1024) (h : (m : ℚ) * 2 ^ q < 2 ^ e) :
    (ofBinary n m q).isFinite = true ∧
      |(ofBinary n m q).toRat - signedValue n (m * 2 ^ q)| ≤ 2 ^ (e - 54) := by
  obtain ⟨num, den, hden, hnearest, hvalue⟩ := exists_nearest_eq double m q
  unfold ofBinary
  rw [hnearest, ← hvalue]
  exact ofNearest_error n hden hleast hmost (hvalue ▸ h)

theorem ofBinary_natural (n : Bool) (hk : k < 2 ^ 53) (h : (m : ℚ) * 2 ^ q = k) :
    (ofBinary n m q).isFinite = true ∧ (ofBinary n m q).toRat = signedValue n k := by
  obtain ⟨num, den, hden, hnearest, hvalue⟩ := exists_nearest_eq double m q
  unfold ofBinary
  rw [hnearest]
  exact ofNearest_natural n hden hk (hvalue.trans h)

end

/-! ## Integers -/

/-- An integer is made of its magnitude and its sign. -/
theorem signedValue_natAbs {s : Bool} {n : Int} (h : if s then n ≤ 0 else 0 ≤ n) :
    signedValue s n.natAbs = n := by
  unfold signedValue
  rw [Nat.cast_natAbs]
  cases s with
  | true => exact_mod_cast neg_eq_iff_eq_neg.mpr (abs_of_nonpos h)
  | false => exact_mod_cast abs_of_nonneg h

theorem signedValue_self (n : Int) : signedValue (decide (n < 0)) n.natAbs = n := by
  refine signedValue_natAbs ?_
  split
  · next h => exact (of_decide_eq_true h).le
  · next h => exact not_lt.mp (by simpa using h)

/-- Double precision has the integers of 53 bits. -/
theorem ofInt_exact {n : Int} (hn : n.natAbs < 2 ^ 53) :
    (ofInt n).isFinite = true ∧ (ofInt n).toRat = n := by
  obtain ⟨hfinite, hvalue⟩ := ofBinary_natural (decide (n < 0)) hn (m := n.natAbs) (q := 0)
    (by rw [zpow_zero, mul_one])
  exact ⟨hfinite, hvalue.trans (signedValue_self n)⟩

variable {x y : Binary64} {n : Int}

/-- The integer part of an integer is the integer. -/
theorem truncate_of_toRat (h : x.toRat = n) : x.truncate = n := by
  rw [toRat_eq_signed] at h
  unfold truncate
  generalize x.signed = parts at h
  obtain ⟨a, q⟩ := parts
  dsimp only at h ⊢
  split
  · next hq =>
    obtain ⟨k, rfl⟩ : ∃ k : Nat, q = -(k : Int) := ⟨q.natAbs, by omega⟩
    have hpower : (pow2 k : Int) ≠ 0 := by
      have := pow2_pos k
      omega
    have ha : a = n * pow2 k := by
      rw [zpow_neg, zpow_natCast, ← div_eq_mul_inv, div_eq_iff (by positivity), ← cast_pow2] at h
      exact_mod_cast h
    rw [Int.natAbs_neg, Int.natAbs_natCast, ha, Int.mul_tdiv_cancel _ hpower]
  · next hq =>
    obtain ⟨k, rfl⟩ : ∃ k : Nat, q = (k : Int) := ⟨q.natAbs, by omega⟩
    rw [zpow_natCast, ← cast_pow2] at h
    exact_mod_cast h

/-- A finite number near to an integer is rounded to it. -/
theorem round_exact (hx : x.isFinite = true) (hn : n.natAbs < 2 ^ 53) (h : nearestInteger x.toRat = n) :
    x.round.isFinite = true ∧ x.round.toRat = n := by
  have hsign : if x.negative then n ≤ 0 else 0 ≤ n := by
    have hmagnitude : 0 ≤ nearestInteger (double.magnitude x.code) := by
      have hnonneg := magnitude_nonneg double x.code
      unfold nearestInteger
      rw [if_neg hnonneg.not_gt]
      exact Int.floor_nonneg.mpr (by linarith)
    unfold toRat at h
    cases hnegative : x.negative with
    | true =>
      rw [if_pos hnegative, nearestInteger_neg] at h
      show n ≤ 0
      omega
    | false =>
      rw [hnegative, if_neg Bool.false_ne_true] at h
      show 0 ≤ n
      omega
  obtain ⟨hfinite, hvalue⟩ := ofBinary_natural x.negative hn (m := n.natAbs) (q := 0)
    (by rw [zpow_zero, mul_one])
  unfold round
  rw [if_pos hx, roundAway_eq, h]
  exact ⟨hfinite, hvalue.trans (signedValue_natAbs hsign)⟩

/-! ## Products -/

theorem mul_of_finite (hx : x.isFinite = true) (hy : y.isFinite = true) :
    mul x y = ofBinary (x.negative != y.negative) ((double.decode x.code).1 * (double.decode y.code).1)
      ((double.decode x.code).2 + (double.decode y.code).2) := by
  have hnan {z : Binary64} (hz : z.isFinite = true) : z.isNaN = false ∧ z.isInfinite = false := by
    have hlt : z.code < double.infinity := of_decide_eq_true hz
    exact ⟨decide_eq_false hlt.not_gt, beq_eq_false_iff_ne.mpr hlt.ne⟩
  have hsigned (n : Bool) (a : Nat) : (if n then -(a : Int) else a).natAbs = a := by
    cases n with
    | false => rfl
    | true => exact Int.natAbs_neg a
  unfold mul lift
  rw [(hnan hx).1, (hnan hy).1, if_neg Bool.false_ne_true, if_neg Bool.false_ne_true]
  dsimp only
  rw [(hnan hx).2, (hnan hy).2, Bool.or_self, if_neg Bool.false_ne_true]
  unfold signed
  dsimp only
  rw [Int.natAbs_mul, hsigned, hsigned]

theorem toRat_mul_toRat (x y : Binary64) :
    x.toRat * y.toRat = signedValue (x.negative != y.negative)
      (((double.decode x.code).1 * (double.decode y.code).1 : Nat) *
        2 ^ ((double.decode x.code).2 + (double.decode y.code).2)) := by
  have hmagnitude : (((double.decode x.code).1 * (double.decode y.code).1 : Nat) : ℚ) *
      2 ^ ((double.decode x.code).2 + (double.decode y.code).2) =
        double.magnitude x.code * double.magnitude y.code := by
    unfold magnitude
    rw [zpow_add₀ (by norm_num)]
    push_cast
    ring
  rw [hmagnitude]
  unfold toRat
  cases x.negative <;> cases y.negative <;> simp [signedValue]

/-- A product is near to the exact one, unless this is too large. -/
theorem mul_error {e : Int} (hx : x.isFinite = true) (hy : y.isFinite = true) (hleast : -1021 ≤ e)
    (hmost : e < 1024) (h : |x.toRat * y.toRat| < 2 ^ e) :
    (mul x y).isFinite = true ∧ |(mul x y).toRat - x.toRat * y.toRat| ≤ 2 ^ (e - 54) := by
  rw [mul_of_finite hx hy, toRat_mul_toRat]
  refine ofBinary_error _ hleast hmost ?_
  rwa [toRat_mul_toRat, abs_signedValue _ (by positivity)] at h

/-- A product that is an integer of 53 bits is exact. -/
theorem mul_exact (hx : x.isFinite = true) (hy : y.isFinite = true) (hn : n.natAbs < 2 ^ 53)
    (h : x.toRat * y.toRat = n) : (mul x y).isFinite = true ∧ (mul x y).toRat = n := by
  rw [mul_of_finite hx hy, ← h]
  rw [toRat_mul_toRat] at h ⊢
  have hmagnitude := congrArg (|·|) h
  rw [abs_signedValue _ (by positivity), ← Int.cast_abs, Int.abs_eq_natAbs, Int.cast_natCast] at hmagnitude
  rw [hmagnitude]
  exact ofBinary_natural _ hn hmagnitude

end Binary64

end SqlStore
