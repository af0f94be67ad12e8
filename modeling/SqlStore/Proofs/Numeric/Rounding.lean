import SqlStore.Proofs.Binary.Numerals
import SqlStore.Proofs.Value.Whole

/-!
# The number of a rounded decimal

Rounding a decimal to places gives the nearest multiple of the last place, and a half goes away from zero.
Padding keeps the number, so the same holds of a decimal that is brought to a scale.
-/

namespace SqlStore

open Binary64 (signedValue abs_signedValue)

theorem nearestInteger_signedValue (negative : Bool) (q : ℚ) :
    (nearestInteger (signedValue negative q) : ℚ) = signedValue negative (nearestInteger q) := by
  cases negative with
  | false => rfl
  | true =>
    show ((nearestInteger (-q) : ℤ) : ℚ) = -(nearestInteger q : ℤ)
    rw [nearestInteger_neg, Int.cast_neg]

theorem signedValue_mul (negative : Bool) (q r : ℚ) :
    signedValue negative q * r = signedValue negative (q * r) := by
  cases negative with
  | false => rfl
  | true => exact neg_mul q r

theorem signedValue_div (negative : Bool) (q r : ℚ) :
    signedValue negative q / r = signedValue negative (q / r) := by
  rw [div_eq_mul_inv, signedValue_mul, div_eq_mul_inv]

/-! ## Multiples of a power of ten -/

/-- The nearest multiple of the unit of a place, of two equally near ones the one farther from zero. The
places in front of the point are negative. -/
def nearestMultiple (places : ℤ) (q : ℚ) : ℚ := nearestInteger (q * 10 ^ places) / 10 ^ places

theorem nearestMultiple_signedValue (places : ℤ) (negative : Bool) (q : ℚ) :
    nearestMultiple places (signedValue negative q) = signedValue negative (nearestMultiple places q) := by
  unfold nearestMultiple
  rw [signedValue_mul, nearestInteger_signedValue, signedValue_div]

theorem nearestMultiple_of_eq {places : ℤ} {q : ℚ} {n : ℤ} (h : q = n / 10 ^ places) :
    nearestMultiple places q = q := by
  have hpower : (10 : ℚ) ^ places ≠ 0 := (zpow_pos (by norm_num) places).ne'
  have hwhole : q * 10 ^ places = n := by rw [h, div_mul_cancel₀ _ hpower]
  unfold nearestMultiple
  rw [hwhole, nearestInteger_intCast, h]

namespace Numeric

variable {d : Numeric} {m s : Nat}

/-- The number without its sign. -/
def magnitude (d : Numeric) : ℚ := d.mantissa / 10 ^ d.scale

theorem magnitude_nonneg (d : Numeric) : 0 ≤ d.magnitude := by
  unfold magnitude
  positivity

theorem toRat_eq_signedValue (d : Numeric) : d.toRat = signedValue d.negative d.magnitude := by
  rw [toRat_eq, cast_pow10]
  rfl

theorem abs_toRat (d : Numeric) : |d.toRat| = d.magnitude := by
  rw [toRat_eq_signedValue, abs_signedValue _ d.magnitude_nonneg]

theorem natAbs_signed (d : Numeric) : d.signed.natAbs = d.mantissa := by
  unfold signed
  split
  · rw [Int.natAbs_neg, Int.natAbs_natCast]
  · exact Int.natAbs_natCast _

/-- A mantissa without its sign if it is zero stands for the same. -/
theorem signedValue_nonzero (negative : Bool) (m : Nat) (q : ℚ) :
    signedValue (negative && m != 0) ((m : ℚ) / q) = signedValue negative (m / q) := by
  by_cases hzero : m = 0
  · rw [hzero, Nat.cast_zero, zero_div]
    cases negative <;> simp [signedValue]
  · have hnonzero : (m != 0) = true := by simpa using hzero
    rw [hnonzero, Bool.and_true]

theorem exists_ofMagnitude? (negative : Bool) (hm : m < mantissaBound) (s : Nat) :
    ∃ d, ofMagnitude? negative m s = some d ∧ d.toRat = signedValue negative (m / 10 ^ s) := by
  refine ⟨_, ofMagnitude?_eq hm, ?_⟩
  rw [toRat_eq_signedValue]
  exact signedValue_nonzero negative m _

theorem magnitude_of_ofParts? {negative : Bool} (h : ofParts? negative m s = some d) :
    d.negative = negative ∧ d.magnitude = m / 10 ^ s := by
  unfold ofParts? at h
  split at h
  · cases h
    exact ⟨rfl, rfl⟩
  · cases h

/-! ## Rounding -/

/-- A decimal has no more places than its scale. -/
theorem nearestMultiple_magnitude {places : Nat} (h : d.scale ≤ places) :
    nearestMultiple places d.magnitude = d.magnitude := by
  refine nearestMultiple_of_eq (n := (d.mantissa * 10 ^ (places - d.scale) : Nat)) ?_
  have hpower : (10 : ℚ) ^ places = 10 ^ (places - d.scale) * 10 ^ d.scale := by
    rw [← pow_add, Nat.sub_add_cancel h]
  unfold magnitude
  rw [zpow_natCast, hpower, Int.cast_natCast, Nat.cast_mul, Nat.cast_pow]
  field_simp
  norm_num

/-- A quotient by a power of ten, rounded a few places in front of its last one. -/
theorem nearestMultiple_places (m places k : Nat) :
    nearestMultiple places ((m : ℚ) / 10 ^ (places + (k + 1))) =
      ((m + 5 * pow10 k) / pow10 (k + 1) : Nat) / 10 ^ places := by
  have hshift : (m : ℚ) / 10 ^ (places + (k + 1)) * 10 ^ places = m / (pow10 (k + 1) : Nat) := by
    rw [cast_pow10, pow_add]
    field_simp
  unfold nearestMultiple
  rw [zpow_natCast, hshift, nearestInteger_div (pow10_pos _), add_half_div, Int.cast_natCast]

/-- Rounding goes to the nearest multiple of the last place. -/
theorem toRat_round (d : Numeric) (places : Nat) :
    (d.round places).toRat = nearestMultiple places d.toRat := by
  rw [d.toRat_eq_signedValue, nearestMultiple_signedValue]
  unfold round
  split
  · next hle => rw [nearestMultiple_magnitude hle, toRat_eq_signedValue]
  · next hgt =>
    obtain ⟨k, hk⟩ : ∃ k, d.scale = places + (k + 1) := ⟨d.scale - places - 1, by omega⟩
    have hcut : d.scale - places = k + 1 := by omega
    have hmultiple := nearestMultiple_places d.mantissa places k
    rw [← hk] at hmultiple
    rw [toRat_eq_signedValue]
    unfold magnitude
    dsimp only
    rw [signedValue_nonzero, hmultiple, hcut, Nat.add_sub_cancel]

/-! ## Declared scales -/

theorem toRat_padPlaces (d : Numeric) (n : Nat) : (d.padPlaces n).toRat = d.toRat := by
  induction n generalizing d with
  | zero => rfl
  | succ n ih =>
    unfold padPlaces
    split
    · next wider hwider =>
      obtain ⟨hnegative, hmagnitude⟩ := magnitude_of_ofParts? hwider
      have hsame : wider.magnitude = d.magnitude := by
        unfold magnitude at hmagnitude ⊢
        rw [hmagnitude, pow_succ]
        push_cast
        field_simp
      rw [ih, toRat_eq_signedValue, toRat_eq_signedValue, hnegative, hsame]
    · rfl

theorem toRat_of_isZero (h : d.isZero = true) : d.toRat = 0 := by
  have hmantissa : d.mantissa = 0 := eq_of_beq h
  unfold toRat signed
  rw [hmantissa]
  simp

/-- The declared scale does not change the rounded number. -/
theorem toRat_withScale (d : Numeric) (places : Nat) :
    (d.withScale places).toRat = nearestMultiple places d.toRat := by
  rw [← toRat_round]
  by_cases hzero : (d.round places).isZero = true
  · rw [withScale_of_isZero hzero, toRat_of_isZero hzero]
    exact toRat_of_isZero hzero
  · rw [withScale_of_not_isZero hzero, toRat_padPlaces]

end Numeric

end SqlStore
