import SqlStore.Function.Scalar
import SqlStore.Proofs.Numeric.Quotient

/-!
# Rounding in front of the point

`round` brings a decimal to the nearest multiple of a power of ten. For places behind the point this is done
at once. In front of the point the number is divided by the power first, and the quotient is rounded to the
places of a computed result before it is rounded to a whole number. The first rounding makes a difference
only just below a half: a quotient that needs it is less than one, so a half is the only limit it can cross.
-/

namespace SqlStore

open Binary64 (signedValue)

/-! ## Rounding twice -/

/-- An even number is reached from the middle on. -/
theorem succ_le_roundHalfEven_iff {n d h : Nat} (hd : 0 < d) (hodd : h % 2 = 1) :
    h + 1 ≤ roundHalfEven n d ↔ (2 * h + 1) * d ≤ 2 * n := by
  have hdiv := Nat.div_add_mod n d
  have hmod := Nat.mod_lt n hd
  have hbounds := roundHalfEven_bounds n d
  have hmiddle : (2 * h + 1) * d = 2 * (d * h) + d := by ring
  rw [hmiddle]
  -- only a quotient of exactly `h` leaves the choice to the remainder
  rcases lt_trichotomy (n / d) h with hlt | heq | hgt
  · have hmul : d * (n / d + 1) ≤ d * h := Nat.mul_le_mul_left d hlt
    rw [Nat.mul_add, Nat.mul_one] at hmul
    omega
  · unfold roundHalfEven
    dsimp only
    rw [heq] at hdiv ⊢
    split
    · next hup =>
      simp only [hodd, beq_self_eq_true, Bool.and_true, Bool.or_eq_true, decide_eq_true_eq, beq_iff_eq] at hup
      omega
    · next hdown =>
      simp only [hodd, beq_self_eq_true, Bool.and_true, Bool.or_eq_true, decide_eq_true_eq, beq_iff_eq] at hdown
      omega
  · have hmul : d * (h + 1) ≤ d * (n / d) := Nat.mul_le_mul_left d hgt
    rw [Nat.mul_add, Nat.mul_one] at hmul
    omega

/-- A quotient is a half of an even number of units from the middle of the unit in front of the half on. -/
theorem half_le_roundHalfEven_iff {n d h : Nat} (hd : 0 < d) (hodd : h % 2 = 1) :
    (1 : ℚ) / 2 ≤ roundHalfEven n d / (2 * (h + 1)) ↔
      (1 - 1 / (2 * (h + 1))) / 2 ≤ (n : ℚ) / d / (2 * (h + 1)) := by
  have hd' : (0 : ℚ) < d := by exact_mod_cast hd
  have hrounded : (1 : ℚ) / 2 ≤ roundHalfEven n d / (2 * (h + 1)) ↔ h + 1 ≤ roundHalfEven n d := by
    rw [div_le_div_iff₀ (by norm_num) (by positivity), ← Nat.cast_le (α := ℚ)]
    push_cast
    constructor <;> intro hle <;> linarith
  have hexact : (1 - 1 / (2 * (h + 1))) / 2 ≤ (n : ℚ) / d / (2 * (h + 1)) ↔ (2 * h + 1) * d ≤ 2 * n := by
    have hmiddle : (1 - 1 / (2 * ((h : ℚ) + 1))) / 2 = (2 * h + 1) / 2 / (2 * (h + 1)) := by
      field_simp
      ring
    rw [hmiddle, div_le_div_iff_of_pos_right (by positivity), div_le_div_iff₀ (by norm_num) hd',
      ← Nat.cast_le (α := ℚ)]
    push_cast
    rw [mul_comm (2 : ℚ) n]
  rw [hrounded, hexact, succ_le_roundHalfEven_iff hd hodd]

/-- A small number is rounded up from a half on. -/
theorem nearestInteger_small {q : ℚ} (hq : 0 ≤ q) (hlt : q < 3 / 2) :
    nearestInteger q = if q < 1 / 2 then 0 else 1 := by
  rw [nearestInteger_eq_iff]
  split
  · next hsmall =>
    rw [Int.cast_zero, sub_zero, abs_of_nonneg hq]
    exact .inl hsmall
  · next hlarge =>
    rw [Int.cast_one, abs_of_nonneg hq, abs_one]
    rcases (not_lt.mp hlarge).lt_or_eq with hgt | rfl
    · exact .inl (abs_lt.mpr ⟨by linarith, by linarith⟩)
    · exact .inr (by norm_num)

/-- The number is less than a half, but would be a half with the places of a computed result. -/
def JustBelowHalf (q : ℚ) : Prop := (1 - 1 / 10 ^ 28) / 2 ≤ q ∧ q < 1 / 2

namespace Numeric

variable {m s k : Nat}

/-- A number with so few places is not just below a half. -/
theorem not_justBelowHalf_of_places {c : Nat} {q : ℚ} (h : q = c / 10 ^ 28) : ¬ JustBelowHalf q := by
  rintro ⟨hlow, hhigh⟩
  rw [h, div_lt_div_iff₀ (by positivity) (by norm_num)] at hhigh
  rw [h, le_div_iff₀ (by positivity)] at hlow
  norm_num at hlow hhigh
  have hlow' : (9999999999999999999999999999 : ℚ) ≤ c * 2 := by linarith
  have hlow'' : 9999999999999999999999999999 ≤ c * 2 := by exact_mod_cast hlow'
  have hhigh' : c * 2 < 10000000000000000000000000000 := by exact_mod_cast hhigh
  omega

/-- With the places of a quotient a half is reached from the middle of the last place on. -/
theorem half_le_shifted_iff (m s k : Nat) :
    1 / 2 ≤ shifted m s k ↔ (1 - 1 / 10 ^ max s maxScale) / 2 ≤ (m : ℚ) / 10 ^ (s + k) := by
  -- half of a unit has an even number of the last place, so that the number in front of it is odd
  obtain ⟨h, hodd, hdouble⟩ : ∃ h, h % 2 = 1 ∧ 10 ^ max s maxScale = 2 * (h + 1) := by
    obtain ⟨p, hp⟩ : ∃ p, max s maxScale = p + 2 := ⟨max s maxScale - 2, by unfold maxScale; omega⟩
    have hone : 0 < 10 ^ p := by positivity
    exact ⟨50 * 10 ^ p - 1, by omega, by rw [hp, pow_succ, pow_succ]; omega⟩
  have hunit : (10 : ℚ) ^ max s maxScale = 2 * (h + 1) := by exact_mod_cast hdouble
  rw [div_power_eq]
  unfold shifted
  rw [hunit]
  exact half_le_roundHalfEven_iff (pow10_pos k) hodd

/-- Behind so many places no mantissa is large. -/
theorem small_of_places {n i : Nat} (hm : m < mantissaBound) (h : 29 + i ≤ n) :
    (m : ℚ) / 10 ^ n < 1 / 10 ^ i := by
  have hshort : (m : ℚ) < 10 ^ 29 := by
    have hlt : m < 10 ^ 29 := hm.trans (by decide)
    exact_mod_cast hlt
  rw [div_lt_div_iff₀ (by positivity) (by positivity), one_mul]
  calc (m : ℚ) * 10 ^ i < 10 ^ 29 * 10 ^ i := mul_lt_mul_of_pos_right hshort (by positivity)
    _ = 10 ^ (29 + i) := (pow_add 10 29 i).symm
    _ ≤ 10 ^ n := pow_le_pow_right₀ (by norm_num) h

/-- A quotient that is rounded is not large. -/
theorem shifted_lt (hm : m < mantissaBound) (hk : maxScale - s < k) : shifted m s k < 3 / 2 := by
  have hround : roundHalfEven (m * pow10 (maxScale - s)) (pow10 k) ≤ 10 ^ 28 := by
    have hquotient := quotient_le (m := m) hk
    have hupper := (roundHalfEven_bounds (m * pow10 (maxScale - s)) (pow10 k)).2
    unfold mantissaBound at hm
    omega
  have hround' : (roundHalfEven (m * pow10 (maxScale - s)) (pow10 k) : ℚ) ≤ 10 ^ 28 := by
    exact_mod_cast hround
  have hpower : (10 : ℚ) ^ 28 ≤ 10 ^ max s maxScale := pow_le_pow_right₀ (by norm_num) (le_max_right s 28)
  have hle : shifted m s k ≤ 1 := (div_le_one (by positivity)).mpr (hround'.trans hpower)
  linarith

/-- With more places than a computed result a quotient is far below a half, so its own do not matter. -/
theorem half_le_shifted_iff_of_pos (hm : m < mantissaBound) (hk : 0 < k) :
    1 / 2 ≤ shifted m s k ↔ (1 - 1 / 10 ^ 28) / 2 ≤ (m : ℚ) / 10 ^ (s + k) := by
  rw [half_le_shifted_iff]
  by_cases hs : s ≤ maxScale
  · rw [max_eq_right hs, show maxScale = 28 from rfl]
  · have hfar : (m : ℚ) / 10 ^ (s + k) < 1 / 10 ^ 1 := by
      unfold maxScale at hs
      exact small_of_places hm (by omega)
    have hpower : (10 : ℚ) ^ 28 ≤ 10 ^ max s maxScale := pow_le_pow_right₀ (by norm_num) (le_max_right s 28)
    have hunit : (1 : ℚ) / 10 ^ max s maxScale ≤ 1 / 10 ^ 28 := one_div_le_one_div_of_le (by positivity) hpower
    norm_num at hfar hunit ⊢
    constructor <;> intro hle <;> linarith

/-- Only just below a half it makes a difference that the quotient was rounded before. -/
theorem nearestInteger_shifted (hm : m < mantissaBound) (hk : 0 < k) :
    (JustBelowHalf (m / 10 ^ (s + k)) → nearestInteger (shifted m s k) = 1) ∧
      (¬ JustBelowHalf (m / 10 ^ (s + k)) →
        nearestInteger (shifted m s k) = nearestInteger ((m : ℚ) / 10 ^ (s + k))) := by
  have hscale : maxScale = 28 := rfl
  by_cases hplaces : k ≤ maxScale - s
  · -- the quotient is exact, and has too few places to be just below a half
    obtain ⟨i, hi⟩ : ∃ i, 28 = s + k + i := ⟨28 - (s + k), by omega⟩
    have hvalue : (m : ℚ) / 10 ^ (s + k) = (m * 10 ^ i : Nat) / 10 ^ 28 := by
      rw [hi, pow_add _ (s + k)]
      push_cast
      field_simp
    rw [shifted_of_dvd (dvd_of_le hplaces)]
    exact ⟨fun h => absurd h (not_justBelowHalf_of_places hvalue), fun _ => rfl⟩
  have hsmall : (m : ℚ) / 10 ^ (s + k) < 1 / 10 ^ 0 := small_of_places hm (by omega)
  have hlimit : 1 / 2 ≤ shifted m s k ↔ (1 - 1 / 10 ^ 28) / 2 ≤ (m : ℚ) / 10 ^ (s + k) :=
    half_le_shifted_iff_of_pos hm hk
  have hnonneg : 0 ≤ shifted m s k := by unfold shifted; positivity
  rw [nearestInteger_small hnonneg (shifted_lt hm (by omega)),
    nearestInteger_small (by positivity) (by linarith)]
  constructor
  · rintro ⟨hlow, -⟩
    rw [if_neg (not_lt.mpr (hlimit.mpr hlow))]
  · intro hfar
    by_cases hhalf : (m : ℚ) / 10 ^ (s + k) < 1 / 2
    · rw [if_pos hhalf, if_pos (not_le.mp fun hle => hfar ⟨hlimit.mp hle, hhalf⟩)]
    · have hlow : (1 - 1 / 10 ^ 28) / 2 ≤ (m : ℚ) / 10 ^ (s + k) := by
        norm_num at hhalf ⊢
        linarith
      rw [if_neg hhalf, if_neg (not_lt.mpr (hlimit.mpr hlow))]

end Numeric

/-! ## Representable numbers -/

/-- Some decimal stands for the number. -/
def Representable (q : ℚ) : Prop := ∃ d : Numeric, d.toRat = q

theorem representable_intCast (n : ℤ) : Representable n ↔ n.natAbs < Numeric.mantissaBound := by
  constructor
  · rintro ⟨d, hd⟩
    have hle : (n.natAbs : ℚ) ≤ d.mantissa := by
      have hone : (1 : ℚ) ≤ 10 ^ d.scale := one_le_pow₀ (by norm_num)
      rw [Nat.cast_natAbs, Int.cast_abs, ← hd, d.abs_toRat]
      exact div_le_self (Nat.cast_nonneg _) hone
    exact (Nat.cast_le.mp hle).trans_lt d.mantissa_lt
  · intro hn
    refine ⟨⟨decide (n < 0), n.natAbs, 0, hn⟩, ?_⟩
    rw [Numeric.toRat_eq_signedValue, Numeric.magnitude, pow_zero, div_one]
    exact Binary64.signedValue_self n

/-- The answer is a decimal of the number, or an overflow if there is none. -/
def Delivers (q : ℚ) (r : Except Error Value) : Prop :=
  (Representable q → ∃ d, r = .ok (.numeric d) ∧ d.toRat = q) ∧
    (¬ Representable q → r = .error numericOverflow)

theorem delivers_toRat (d : Numeric) : Delivers d.toRat (.ok (.numeric d)) :=
  ⟨fun _ => ⟨d, rfl, rfl⟩, fun hnone => absurd ⟨d, rfl⟩ hnone⟩

theorem representable_power (negative : Bool) {k : Nat} (hk : k ≤ Numeric.maxScale) :
    Representable (signedValue negative (10 ^ k)) := by
  refine ⟨{ Numeric.power k hk with negative := negative }, ?_⟩
  rw [Numeric.toRat_eq_signedValue]
  show signedValue negative ((pow10 k : Nat) / 10 ^ 0) = _
  rw [cast_pow10, pow_zero, div_one]

/-- An answer gives one representable number only. -/
theorem eq_of_delivers {q q' : ℚ} {r : Except Error Value} (hq : Representable q) (h : Delivers q r)
    (h' : Delivers q' r) : q = q' := by
  obtain ⟨d, rfl, rfl⟩ := h.1 hq
  by_cases hq' : Representable q'
  · obtain ⟨e, he, rfl⟩ := h'.1 hq'
    cases he
    rfl
  · cases h'.2 hq'

/-! ## Multiplying by a power of ten -/

namespace Numeric

variable {d : Numeric} {k : Nat}

/-- What has no places to drop fits as it is or not at all. -/
theorem fit?_whole (negative : Bool) (m : Nat) : fit? negative m 0 = ofMagnitude? negative m 0 := by
  have hround : roundHalfEven m (pow10 0) = m := by
    have hone := roundHalfEven_mul (m := m) Nat.one_pos
    rwa [Nat.mul_one] at hone
  unfold fit? dropPlaces
  rw [Nat.zero_sub, if_neg (Nat.not_lt_zero 0), hround, Nat.sub_zero]
  cases ofMagnitude? negative m 0 with
  | some d => rfl
  | none => rfl

theorem mul?_power (hscale : d.scale = 0) (hk : k ≤ maxScale) (hzero : ¬ d.isZero = true) :
    d.mul? (power k hk) = ofMagnitude? d.negative (d.mantissa * pow10 k) 0 := by
  unfold mul?
  rw [if_neg (by simp [hzero, isZero_power hk])]
  dsimp only
  rw [hscale, if_neg (by simp [power])]
  show fit? (d.negative != false) (d.mantissa * pow10 k) 0 = _
  rw [Bool.bne_false, fit?_whole]

/-- A whole number times a power of ten is exact or too large. -/
theorem delivers_mul?_power (hscale : d.scale = 0) (hk : k ≤ maxScale) :
    Delivers (d.toRat * 10 ^ k) ((DataType.orFail numericOverflow (d.mul? (power k hk))).map .numeric) := by
  by_cases hzero : d.isZero = true
  · have hmul : d.mul? (power k hk) = some zero := by
      unfold mul?
      rw [hzero]
      rfl
    have hvalue : d.toRat * 10 ^ k = zero.toRat := by
      rw [toRat_of_isZero hzero, toRat_of_isZero rfl, zero_mul]
    rw [hmul, hvalue]
    exact delivers_toRat zero
  have hvalue : d.toRat * 10 ^ k = (d.signed * pow10 k : ℤ) := by
    unfold toRat
    rw [hscale]
    push_cast
    rw [cast_pow10, cast_pow10, pow_zero, div_one]
  have hrepresentable : Representable (d.toRat * 10 ^ k) ↔ d.mantissa * pow10 k < mantissaBound := by
    rw [hvalue, representable_intCast, Int.natAbs_mul, natAbs_signed, Int.natAbs_natCast]
  rw [mul?_power hscale hk hzero]
  by_cases hfits : d.mantissa * pow10 k < mantissaBound
  · obtain ⟨e, he, hproduct⟩ := exists_ofMagnitude? d.negative hfits 0
    have hsame : d.toRat * 10 ^ k = signedValue d.negative ((d.mantissa * pow10 k : Nat) / 10 ^ 0) := by
      rw [toRat_eq_signedValue, signedValue_mul, magnitude, hscale, Nat.cast_mul, cast_pow10, pow_zero,
        div_one, div_one]
    rw [he, hsame, ← hproduct]
    exact delivers_toRat e
  · have hnone : ofMagnitude? d.negative (d.mantissa * pow10 k) 0 = none := by
      unfold ofMagnitude? ofParts?
      rw [dif_neg hfits]
    rw [hnone]
    exact ⟨fun h => absurd (hrepresentable.mp h) hfits, fun _ => rfl⟩

end Numeric

namespace ScalarFunction

open Numeric

variable {x : Numeric} {v : Value} {n : ℤ} {k : Nat}

/-- Behind the point a decimal is rounded at once. -/
theorem delivers_roundDecimal_of_nonneg (x : Numeric) (hn : 0 ≤ n) :
    Delivers (nearestMultiple n x.toRat) ((roundDecimal x n).map .numeric) := by
  obtain ⟨places, rfl⟩ := Int.eq_ofNat_of_zero_le hn
  have hround : roundDecimal x places = .ok (x.round places) := by
    unfold roundDecimal
    rw [if_pos hn, Int.toNat_natCast]
  rw [hround, ← toRat_round]
  exact delivers_toRat _

/-- In front of the point the quotient by the power of ten is rounded and multiplied by it again. -/
theorem delivers_roundDecimal (x : Numeric) (hpos : 0 < k) (hk : k ≤ 18) :
    Delivers (signedValue x.negative (nearestInteger (shifted x.mantissa x.scale k) * 10 ^ k))
      ((roundDecimal x (-(k : ℤ))).map .numeric) := by
  have hplaces : k ≤ maxScale := hk.trans (by decide)
  obtain ⟨d, hdiv, hd⟩ := exists_div?_power x hplaces
  have hwhole : (d.round 0).toRat = signedValue x.negative (nearestInteger (shifted x.mantissa x.scale k)) := by
    rw [toRat_round, hd, nearestMultiple_signedValue]
    simp [nearestMultiple]
  have hround : roundDecimal x (-(k : ℤ)) =
      DataType.orFail numericOverflow ((d.round 0).mul? (power k hplaces)) := by
    unfold roundDecimal
    rw [if_neg (by omega), if_neg (by omega), Int.natAbs_neg, Int.natAbs_natCast, ofInt?_pow10 hplaces]
    show DataType.orFail numericOverflow
      ((x.div? (power k hplaces)).bind fun e => (e.round 0).mul? (power k hplaces)) = _
    rw [hdiv]
    rfl
  rw [hround, ← signedValue_mul, ← hwhole]
  exact delivers_mul?_power (Nat.le_zero.mp (scale_round_le d 0)) hplaces

/-- The number as a multiple of the power of ten. -/
theorem abs_mul_zpow (x : Numeric) (k : Nat) :
    |x.toRat| * 10 ^ (-(k : ℤ)) = x.mantissa / 10 ^ (x.scale + k) := by
  rw [abs_toRat, magnitude, zpow_neg, zpow_natCast, pow_add]
  field_simp

theorem nearestMultiple_neg (x : Numeric) (k : Nat) :
    nearestMultiple (-(k : ℤ)) x.toRat =
      signedValue x.negative (nearestInteger ((x.mantissa : ℚ) / 10 ^ (x.scale + k)) * 10 ^ k) := by
  rw [toRat_eq_signedValue, nearestMultiple_signedValue, ← abs_mul_zpow, abs_toRat]
  unfold nearestMultiple
  rw [zpow_neg, zpow_natCast, div_inv_eq_mul]

/-- A decimal is rounded to the nearest multiple unless it is just below a half of the power of ten. -/
theorem delivers_roundDecimal_iff (x : Numeric) (hpos : 0 < k) (hk : k ≤ 18) :
    (JustBelowHalf (|x.toRat| * 10 ^ (-(k : ℤ))) →
      nearestMultiple (-(k : ℤ)) x.toRat = 0 ∧
        Delivers (signedValue x.negative (10 ^ k)) ((roundDecimal x (-(k : ℤ))).map .numeric)) ∧
    (¬ JustBelowHalf (|x.toRat| * 10 ^ (-(k : ℤ))) →
      Delivers (nearestMultiple (-(k : ℤ)) x.toRat) ((roundDecimal x (-(k : ℤ))).map .numeric)) := by
  obtain ⟨hhalf, hfar⟩ := nearestInteger_shifted (s := x.scale) x.mantissa_lt hpos
  have hdelivers := delivers_roundDecimal x hpos hk
  rw [abs_mul_zpow, nearestMultiple_neg]
  refine ⟨fun h => ?_, fun h => ?_⟩
  · rw [hhalf h, Int.cast_one, one_mul] at hdelivers
    have hzero : nearestInteger ((x.mantissa : ℚ) / 10 ^ (x.scale + k)) = 0 := by
      rw [nearestInteger_small (by positivity) (h.2.trans (by norm_num)), if_pos h.2]
    rw [hzero]
    exact ⟨by cases x.negative <;> simp [signedValue], hdelivers⟩
  · rwa [hfar h] at hdelivers

/-! ## The function -/

/-- A decimal stays of its own type. -/
theorem apply_round (now : Timestamp) (serial : Nat) (x : Numeric) (hv : v.int? = some n)
    (hn : DataType.integer.holds n = true) :
    round.apply now serial [.numeric x, v] = (roundDecimal x n).map .numeric := by
  have hword : int32? n = some (Int32.ofInt n) := by rw [int32?_eq, if_pos hn]
  have hvalue : v.int?.bind int32? = some (Int32.ofInt n) := by
    rw [hv]
    exact hword
  have hplaces (args : Tuple) : roundPlaces args (some v) = .ok (some n) := by
    cases v with
    | null => cases hv
    | _ =>
      unfold roundPlaces
      dsimp only
      rw [hvalue]
      exact congrArg (fun m => Except.ok (some m)) (toInt_of_int32? hword)
  show (roundPlaces [.numeric x, v] (some v) >>= _) = _
  rw [hplaces]
  show (roundDecimal x n >>= fun d => (DataType.numeric none none).convert (.numeric d)) = _
  cases roundDecimal x n <;> rfl

/-- More places in front of the point than a word of 64 bits has are refused. -/
theorem roundDecimal_of_lt (x : Numeric) (hn : n < -18) : roundDecimal x n = .error numericOverflow := by
  unfold roundDecimal
  rw [if_neg (by omega), if_pos hn]

end ScalarFunction

open ScalarFunction in
/-- `round` gives the nearest multiple of a power of ten, or the overflow if no decimal has its value. There
are two exceptions. More than 18 places in front of the point always overflow, and a number just below a half
of the power of ten is rounded up as if it were a half. -/
theorem rounded_correctly_iff {v : Value} {n : ℤ} (now : Timestamp) (serial : Nat) (x : Numeric)
    (hv : v.int? = some n) (hn : DataType.integer.holds n = true) :
    (Delivers (nearestMultiple n x.toRat) (round.apply now serial [.numeric x, v]) ↔
        ¬ (n < -18 ∧ Representable (nearestMultiple n x.toRat)) ∧
        ¬ (-18 ≤ n ∧ n < 0 ∧ JustBelowHalf (|x.toRat| * 10 ^ n))) ∧
      (n < -18 → round.apply now serial [.numeric x, v] = .error numericOverflow) ∧
      (-18 ≤ n → n < 0 → JustBelowHalf (|x.toRat| * 10 ^ n) →
        ∃ d, round.apply now serial [.numeric x, v] = .ok (.numeric d) ∧ |d.toRat| = 10 ^ (-n)) := by
  rw [apply_round now serial x hv hn]
  by_cases hfront : 0 ≤ n
  · have hdelivers := delivers_roundDecimal_of_nonneg x hfront
    exact ⟨iff_of_true hdelivers ⟨by omega, by omega⟩, by omega, by omega⟩
  by_cases hfar : n < -18
  · rw [roundDecimal_of_lt x hfar]
    refine ⟨⟨fun h => ⟨?_, by omega⟩, fun h => ?_⟩, fun _ => rfl, by omega⟩
    · rintro ⟨-, hq⟩
      obtain ⟨d, hd, -⟩ := h.1 hq
      cases hd
    · exact ⟨fun hq => absurd ⟨hfar, hq⟩ h.1, fun _ => rfl⟩
  · obtain ⟨k, rfl⟩ : ∃ k : Nat, n = -(k : ℤ) := ⟨n.natAbs, by omega⟩
    have hk : k ≤ Numeric.maxScale := by unfold Numeric.maxScale; omega
    have hten : (10 : ℚ) ^ k ≠ 0 := by positivity
    obtain ⟨hhalf, hnear⟩ := delivers_roundDecimal_iff x (k := k) (by omega) (by omega)
    refine ⟨⟨fun h => ⟨by omega, ?_⟩, fun h => hnear ?_⟩, by omega, fun _ _ hbelow => ?_⟩
    · rintro ⟨-, -, hbelow⟩
      obtain ⟨hzero, hpower⟩ := hhalf hbelow
      rw [hzero] at h
      have heq := eq_of_delivers (representable_power x.negative hk) hpower h
      have habs := congrArg abs heq
      rw [Binary64.abs_signedValue _ (by positivity), abs_zero] at habs
      exact hten habs
    · exact fun hbelow => h.2 ⟨by omega, by omega, hbelow⟩
    · obtain ⟨d, hd, hvalue⟩ := (hhalf hbelow).2.1 (representable_power x.negative hk)
      refine ⟨d, hd, ?_⟩
      rw [hvalue, Binary64.abs_signedValue _ (by positivity), neg_neg, zpow_natCast]

namespace Sample

/-- A decimal rounded to places. -/
def roundedTo (places : Int32) (x : Numeric) : Except Error Value :=
  ScalarFunction.round.apply (.ofDate .epoch) 0 [.numeric x, .integer places]

/-- A half of a hundred behind some hundreds. -/
def hundreds : Numeric := ⟨true, 12500, 1, by decide⟩

/-- The last number before five. -/
def nearlyFive : Numeric := ⟨false, 49999999999999999999999999999, 28, by decide⟩

/-- A half is rounded away from zero. -/
theorem hundreds_rounded :
    (Value.integer (-2)).int? = some (-2) ∧ DataType.integer.holds (-2) = true ∧
      Delivers (nearestMultiple (-2) hundreds.toRat) (roundedTo (-2) hundreds) ∧
      roundedTo (-2) hundreds = .ok (.numeric ⟨true, 1300, 0, by decide⟩) := by
  have hlarge : ¬ |hundreds.toRat| * 10 ^ (-2 : ℤ) < 1 / 2 := by decide +kernel
  have hnear : ¬ ((-2 : ℤ) < -18 ∧ Representable (nearestMultiple (-2) hundreds.toRat)) := by omega
  exact ⟨rfl, rfl,
    (rounded_correctly_iff _ 0 hundreds rfl rfl).1.mpr ⟨hnear, fun h => hlarge h.2.2.2⟩, rfl⟩

/-- The last number before five is rounded up to ten, and zero is not found as a multiple of a large power. -/
theorem nearlyFive_rounded_up :
    nearestMultiple (-1) nearlyFive.toRat = 0 ∧
      roundedTo (-1) nearlyFive = .ok (.numeric ⟨false, 10, 0, by decide⟩) ∧
      ¬ Delivers (nearestMultiple (-1) nearlyFive.toRat) (roundedTo (-1) nearlyFive) ∧
      nearestMultiple (-19) nearlyFive.toRat = 0 ∧
      roundedTo (-19) nearlyFive = .error numericOverflow ∧
      ¬ Delivers (nearestMultiple (-19) nearlyFive.toRat) (roundedTo (-19) nearlyFive) := by
  have hten : nearestMultiple (-1) nearlyFive.toRat = 0 := by decide +kernel
  have hlarge : nearestMultiple (-19) nearlyFive.toRat = 0 := by decide +kernel
  have hup : roundedTo (-1) nearlyFive = .ok (.numeric ⟨false, 10, 0, by decide⟩) := rfl
  have hfails : roundedTo (-19) nearlyFive = .error numericOverflow := rfl
  have hzero : Representable 0 := ⟨.zero, by decide +kernel⟩
  refine ⟨hten, hup, ?_, hlarge, hfails, ?_⟩
  · rw [hten, hup]
    intro h
    obtain ⟨d, hd, hvalue⟩ := h.1 hzero
    cases hd
    exact absurd hvalue (by decide +kernel)
  · rw [hlarge, hfails]
    intro h
    obtain ⟨d, hd, -⟩ := h.1 hzero
    cases hd

end Sample

end SqlStore
