import SqlStore.Proofs.Numeric.Rounding

/-!
# Division by a power of ten

A quotient takes places until it is exact or has as many as a computed result can have, and zeros at its end
are stripped. Behind a power of ten the mantissa of the dividend is long enough for all these places. So the
quotient is the exact one, rounded to the last place if it has more.
-/

namespace SqlStore.Numeric

open Binary64 (signedValue)

/-! ## Stripping zeros -/

/-- A mantissa with its places stands for the same number as another, and is not longer. -/
structure Shortens (a b : Nat × Nat) : Prop where
  le : a.1 ≤ b.1
  value : (a.1 : ℚ) / 10 ^ a.2 = b.1 / 10 ^ b.2

theorem Shortens.refl (a : Nat × Nat) : Shortens a a := ⟨le_rfl, rfl⟩

theorem Shortens.trans {a b c : Nat × Nat} (hab : Shortens a b) (hbc : Shortens b c) : Shortens a c :=
  ⟨hab.le.trans hbc.le, hab.value.trans hbc.value⟩

theorem stripZeros_shortens (k : Nat) (n : Nat × Nat) : Shortens (stripZeros k n) n := by
  obtain ⟨m, s⟩ := n
  unfold stripZeros
  split
  · next h =>
    obtain ⟨hle, hmod⟩ : k ≤ s ∧ m % pow10 k = 0 := by simpa using h
    obtain ⟨c, rfl⟩ := Nat.dvd_of_mod_eq_zero hmod
    obtain ⟨j, rfl⟩ := Nat.exists_eq_add_of_le hle
    have hquotient : pow10 k * c / pow10 k = c := Nat.mul_div_cancel_left c (pow10_pos k)
    have hplaces : k + j - k = j := Nat.add_sub_cancel_left k j
    refine ⟨Nat.div_le_self _ _, ?_⟩
    dsimp only
    rw [hquotient, hplaces, Nat.cast_mul, cast_pow10, pow_add]
    field_simp
  · exact Shortens.refl _

theorem stripWords_shortens (fuel : Nat) (n : Nat × Nat) : Shortens (stripWords fuel n) n := by
  induction fuel generalizing n with
  | zero => exact Shortens.refl n
  | succ fuel ih =>
    unfold stripWords
    split
    · exact (ih _).trans (stripZeros_shortens 8 n)
    · exact Shortens.refl n

theorem strip_shortens (m s : Nat) : Shortens (strip m s) (m, s) :=
  (stripZeros_shortens 1 _).trans <| (stripZeros_shortens 2 _).trans <|
    (stripZeros_shortens 4 _).trans (stripWords_shortens 4 (m, s))

/-- The decimal of a quotient has the value of its mantissa and its places. -/
theorem exists_ofQuotient? (negative : Bool) {m : Nat} (hm : m < mantissaBound) (s : Nat) :
    ∃ d, ofQuotient? negative m s = some d ∧ d.toRat = signedValue negative (m / 10 ^ s) := by
  have hstrip := strip_shortens m s
  obtain ⟨d, hd, hvalue⟩ := exists_ofMagnitude? negative (hstrip.le.trans_lt hm) (strip m s).2
  exact ⟨d, hd, by rw [hvalue, hstrip.value]⟩

/-! ## The last place -/

section

variable (negative : Bool) {num den : Nat} (s : Nat)

theorem exists_roundQuotient? (h : roundHalfEven num den < mantissaBound) :
    ∃ d, roundQuotient? negative num den s = some d ∧
      d.toRat = signedValue negative (roundHalfEven num den / 10 ^ s) := by
  unfold roundQuotient?
  rw [if_pos h]
  exact exists_ofQuotient? negative h s

/-- What does not fit is rounded a place before. -/
theorem exists_roundQuotient?_before (hlong : mantissaBound ≤ roundHalfEven num den)
    (h : roundHalfEven num (den * 10) < mantissaBound) :
    ∃ d, roundQuotient? negative num den (s + 1) = some d ∧
      d.toRat = signedValue negative (roundHalfEven num (den * 10) / 10 ^ s) := by
  unfold roundQuotient?
  rw [if_neg (not_lt.mpr hlong)]
  exact exists_ofQuotient? negative h s

end

/-! ## More places -/

/-- The last number below a bound that passes a test, or zero. -/
theorem getLast?_filter_range_succ (p : Nat → Bool) (n : Nat) :
    ((List.range (n + 1)).filter p).getLast?.getD 0 =
      if p n then n else ((List.range n).filter p).getLast?.getD 0 := by
  rw [List.range_succ, List.filter_append]
  by_cases h : p n = true <;> simp [h]

/-- A quotient takes no place only if it has all or is too long for one more. -/
theorem morePlaces_spec (q : Nat) (scale : Int) :
    morePlaces q scale ≤ min 9 (maxScale - scale).toNat ∧
      (morePlaces q scale = 0 ∨ q * pow10 (morePlaces q scale) < mantissaBound) ∧
      (morePlaces q scale = 0 → min 9 (maxScale - scale).toNat = 0 ∨ mantissaBound ≤ q * 10) := by
  unfold morePlaces
  dsimp only
  generalize min 9 (maxScale - scale).toNat = most
  induction most with
  | zero =>
    rw [getLast?_filter_range_succ]
    simp
  | succ most ih =>
    rw [getLast?_filter_range_succ]
    obtain ⟨hle, hfits, hnone⟩ := ih
    split
    · next h =>
      exact ⟨le_rfl, .inr (of_decide_eq_true h), fun heq => absurd heq (Nat.succ_ne_zero most)⟩
    · next h =>
      refine ⟨hle.trans (Nat.le_succ most), hfits, fun heq => ?_⟩
      rcases hnone heq with rfl | hlong
      · exact .inr (not_lt.mp (by simpa [pow10] using h))
      · exact .inr hlong

/-- A step of the division from a scale on that is not negative. -/
theorem takePlaces?_succ (negative : Bool) (fuel num den s : Nat) :
    takePlaces? negative (fuel + 1) num den (s : Int) =
      if mantissaBound ≤ num / den then roundQuotient? negative num den s
      else if num % den = 0 then ofQuotient? negative (num / den) s
      else if morePlaces (num / den) s = 0 then roundQuotient? negative num den s
      else takePlaces? negative fuel (num * pow10 (morePlaces (num / den) s)) den
        ((s + morePlaces (num / den) s : Nat) : Int) := by
  have hscale : (0 : Int) ≤ s := Int.natCast_nonneg s
  rw [takePlaces?]
  dsimp only
  rw [Int.toNat_natCast]
  by_cases hexact : num % den = 0
  · simp [hexact]
  · have hpositive (more : Nat) : ¬ ((more : Int) + s < 0) := by omega
    simp only [beq_iff_eq, hexact, if_false, Bool.and_eq_true, false_and, decide_eq_true_eq, hpositive,
      and_false]
    rw [Nat.cast_add]

/-! ## Division by a power of ten -/

section

variable {m s k j : Nat}

/-- The number `m / 10^s` divided by `10^k`, rounded to the places of a computed result or to its own
places if these are more. -/
def shifted (m s k : Nat) : ℚ := roundHalfEven (m * pow10 (maxScale - s)) (pow10 k) / 10 ^ max s maxScale

/-- The quotient before it is rounded. -/
theorem div_power_eq (m s k : Nat) : (m : ℚ) / 10 ^ (s + k) =
    ((m * pow10 (maxScale - s) : Nat) : ℚ) / (pow10 k : Nat) / 10 ^ max s maxScale := by
  have hscale : max s maxScale = s + (maxScale - s) := by omega
  rw [hscale, Nat.cast_mul, cast_pow10, cast_pow10, pow_add, pow_add]
  field_simp

theorem shifted_of_dvd (h : pow10 k ∣ m * pow10 (maxScale - s)) : shifted m s k = m / 10 ^ (s + k) := by
  obtain ⟨c, hc⟩ := h
  have hpos := pow10_pos k
  have hpower : ((pow10 k : Nat) : ℚ) ≠ 0 := by exact_mod_cast hpos.ne'
  unfold shifted
  rw [div_power_eq, hc, Nat.mul_comm, roundHalfEven_mul hpos, Nat.cast_mul, mul_div_cancel_right₀ _ hpower]

/-- A quotient that is exact after some places is so after all places. -/
theorem shifted_of_dvd_places (hplaces : j = 0 ∨ s + j ≤ maxScale) (h : pow10 k ∣ m * pow10 j) :
    shifted m s k = m / 10 ^ (s + k) := by
  obtain ⟨i, hi⟩ : ∃ i, maxScale - s = j + i := ⟨maxScale - s - j, by omega⟩
  refine shifted_of_dvd ?_
  rw [hi, pow10_add, ← Nat.mul_assoc]
  exact Dvd.dvd.mul_right h _

theorem cast_quotient {n : Nat} (h : pow10 k ∣ n) : ((n / pow10 k : Nat) : ℚ) = n / 10 ^ k := by
  have hpower : (10 : ℚ) ^ k ≠ 0 := by positivity
  rw [eq_div_iff hpower, ← cast_pow10, ← Nat.cast_mul, Nat.div_mul_cancel h]

theorem dvd_of_le (h : k ≤ j) : pow10 k ∣ m * pow10 j := Dvd.dvd.mul_left (pow_dvd_pow 10 h) m

theorem quotient_le (h : j < k) : m * pow10 j / pow10 k * 10 ≤ m := by
  obtain ⟨i, rfl⟩ : ∃ i, k = j + (i + 1) := ⟨k - j - 1, by omega⟩
  rw [pow10_add, Nat.mul_comm m, Nat.mul_div_mul_left _ _ (pow10_pos j), pow10_succ, ← Nat.div_div_eq_div_mul]
  have hle := Nat.div_le_self (m / 10) (pow10 i)
  omega

/-- As many places as the quotient can take leave the mantissa at most one digit too long. -/
theorem long_of_fits {t : Nat} (hnine : t ≤ 9) (hfits : m * pow10 j / pow10 k * pow10 t < mantissaBound) :
    m * pow10 (j + t) < mantissaBound * pow10 (k + 1) := by
  generalize hq : m * pow10 j / pow10 k = q at hfits
  have hlt : m * pow10 j < (q + 1) * pow10 k := by
    rw [← hq, Nat.add_mul, Nat.one_mul]
    exact Nat.lt_div_mul_add (pow10_pos k)
  have hsmall : pow10 t ≤ pow10 9 := Nat.pow_le_pow_right (by decide) hnine
  have hdouble : (q + 1) * pow10 t ≤ mantissaBound * 10 := by
    have hnine : pow10 9 = 1000000000 := rfl
    rw [Nat.add_mul, Nat.one_mul]
    unfold mantissaBound at hfits ⊢
    by_cases hzero : q = 0
    · rw [hzero]
      omega
    · have hle : 1 * pow10 t ≤ q * pow10 t := Nat.mul_le_mul_right _ (by omega)
      omega
  calc m * pow10 (j + t) = m * pow10 j * pow10 t := by rw [pow10_add, Nat.mul_assoc]
    _ < (q + 1) * pow10 k * pow10 t := Nat.mul_lt_mul_of_pos_right hlt (pow10_pos t)
    _ = (q + 1) * pow10 t * pow10 k := Nat.mul_right_comm _ _ _
    _ ≤ mantissaBound * 10 * pow10 k := Nat.mul_le_mul_right _ hdouble
    _ = mantissaBound * pow10 (k + 1) := by rw [pow10_succ, Nat.mul_assoc]

/-- A quotient with a place too many has more places than the divisor has zeros, so it is exact. -/
theorem exists_long (negative : Bool) (hm : m < mantissaBound)
    (hquotient : mantissaBound ≤ m * pow10 j / pow10 k)
    (hlong : m * pow10 j < mantissaBound * pow10 (k + 1)) (hplaces : j = 0 ∨ s + j ≤ maxScale) :
    ∃ d, roundQuotient? negative (m * pow10 j) (pow10 k) (s + j) = some d ∧
      d.toRat = signedValue negative (shifted m s k) := by
  obtain ⟨i, rfl⟩ : ∃ i, j = k + 1 + i := by
    -- with fewer places the quotient is not above the mantissa, which fits
    refine ⟨j - (k + 1), ?_⟩
    by_contra hle
    have hdivisor : m * pow10 j ≤ pow10 k * m := by
      rw [Nat.mul_comm]
      exact Nat.mul_le_mul_right _ (Nat.pow_le_pow_right (by decide) (by omega))
    have hle := Nat.div_le_of_le_mul hdivisor
    omega
  have hnum : m * pow10 (k + 1 + i) = m * pow10 i * (pow10 k * 10) := by
    rw [pow10_add, pow10_succ]
    ring
  have hbefore : roundHalfEven (m * pow10 (k + 1 + i)) (pow10 k * 10) = m * pow10 i := by
    have hpos := pow10_pos k
    rw [hnum, roundHalfEven_mul (by omega)]
  have hfits : m * pow10 i < mantissaBound := by
    rw [pow10_succ, Nat.mul_comm 10, hnum] at hlong
    exact Nat.lt_of_mul_lt_mul_right hlong
  obtain ⟨d, hd, hvalue⟩ := exists_roundQuotient?_before negative (s + k + i)
    (hquotient.trans (roundHalfEven_bounds _ _).1) (hbefore ▸ hfits)
  rw [shifted_of_dvd_places hplaces (dvd_of_le (by omega)), show s + (k + 1 + i) = s + k + i + 1 by omega]
  refine ⟨d, hd, hvalue.trans (congrArg _ ?_)⟩
  rw [hbefore, pow_add _ (s + k), Nat.cast_mul, cast_pow10]
  field_simp

theorem exists_exact (negative : Bool) (hquotient : m * pow10 j / pow10 k < mantissaBound)
    (hexact : m * pow10 j % pow10 k = 0) (hplaces : j = 0 ∨ s + j ≤ maxScale) :
    ∃ d, ofQuotient? negative (m * pow10 j / pow10 k) (s + j) = some d ∧
      d.toRat = signedValue negative (shifted m s k) := by
  have hdvd := Nat.dvd_of_mod_eq_zero hexact
  obtain ⟨d, hd, hvalue⟩ := exists_ofQuotient? negative hquotient (s + j)
  rw [shifted_of_dvd_places hplaces hdvd]
  refine ⟨d, hd, hvalue.trans (congrArg _ ?_)⟩
  rw [cast_quotient hdvd, Nat.cast_mul, cast_pow10, pow_add, pow_add]
  field_simp

/-- The mantissa has room for a place, so if none is taken there is none left. -/
theorem exists_last (negative : Bool) (hm : m < mantissaBound) (hjk : j < k)
    (hplaces : j = 0 ∨ s + j ≤ maxScale) (hlast : maxScale ≤ s + j) :
    ∃ d, roundQuotient? negative (m * pow10 j) (pow10 k) (s + j) = some d ∧
      d.toRat = signedValue negative (shifted m s k) := by
  have hplace : maxScale - s = j := by omega
  have hmax : max s maxScale = s + j := by omega
  have hround : roundHalfEven (m * pow10 j) (pow10 k) < mantissaBound := by
    have hle := quotient_le (m := m) hjk
    have hupper := (roundHalfEven_bounds (m * pow10 j) (pow10 k)).2
    unfold mantissaBound at hm ⊢
    omega
  unfold shifted
  rw [hplace, hmax]
  exact exists_roundQuotient? negative (s + j) hround

/-- The places taken so far and those behind them give the whole quotient. -/
theorem exists_takePlaces? (negative : Bool) {fuel : Nat} (hm : m < mantissaBound)
    (hlong : m * pow10 j < mantissaBound * pow10 (k + 1)) (hplaces : j = 0 ∨ s + j ≤ maxScale)
    (hfuel : maxScale < s + j + fuel) (hpos : 0 < fuel) :
    ∃ d, takePlaces? negative fuel (m * pow10 j) (pow10 k) ((s + j : Nat) : Int) = some d ∧
      d.toRat = signedValue negative (shifted m s k) := by
  -- on the fuel: every step takes a place, and there is fuel for the places that are left
  induction fuel generalizing j with
  | zero => cases hpos
  | succ fuel ih =>
    rw [takePlaces?_succ]
    by_cases hquotient : mantissaBound ≤ m * pow10 j / pow10 k
    · rw [if_pos hquotient]
      exact exists_long negative hm hquotient hlong hplaces
    rw [if_neg hquotient]
    by_cases hexact : m * pow10 j % pow10 k = 0
    · rw [if_pos hexact]
      exact exists_exact negative (not_le.mp hquotient) hexact hplaces
    have hjk : j < k := by
      by_contra hle
      exact hexact (Nat.mod_eq_zero_of_dvd (dvd_of_le (not_lt.mp hle)))
    obtain ⟨hmost, hfits, hnone⟩ := morePlaces_spec (m * pow10 j / pow10 k) ((s + j : Nat) : Int)
    rw [if_neg hexact]
    generalize morePlaces (m * pow10 j / pow10 k) ((s + j : Nat) : Int) = t at *
    by_cases hzero : t = 0
    · have hle := quotient_le (m := m) hjk
      have hlast := (hnone hzero).resolve_right (by omega)
      rw [if_pos hzero]
      exact exists_last negative hm hjk hplaces (by omega)
    · have hnum : m * pow10 j * pow10 t = m * pow10 (j + t) := by rw [pow10_add, Nat.mul_assoc]
      rw [if_neg hzero, hnum, Nat.add_assoc s j t]
      exact ih (long_of_fits (by omega) (hfits.resolve_left hzero)) (by omega) (by omega) (by omega)

end

/-- A power of ten without places. -/
def power (k : Nat) (hk : k ≤ maxScale) : Numeric :=
  ⟨false, pow10 k, 0, (Nat.pow_le_pow_right (by decide) hk).trans_lt (by decide)⟩

theorem isZero_power {k : Nat} (hk : k ≤ maxScale) : ¬ (power k hk).isZero = true := by
  simpa [isZero, power] using (pow10_pos k).ne'

theorem ofInt?_pow10 {k : Nat} (hk : k ≤ maxScale) : ofInt? (pow10 k) = some (power k hk) := by
  have hfits : pow10 k < mantissaBound := (power k hk).mantissa_lt
  unfold ofInt? ofParts?
  rw [Int.natAbs_natCast, dif_pos hfits, decide_eq_false (by omega)]
  rfl

theorem div?_power {d : Numeric} {k : Nat} (hk : k ≤ maxScale) (hzero : ¬ d.isZero = true) :
    d.div? (power k hk) =
      if d.mantissa % pow10 k = 0 then ofMagnitude? d.negative (d.mantissa / pow10 k) d.scale
      else takePlaces? d.negative 64 d.mantissa (pow10 k) d.scale := by
  unfold div?
  rw [if_neg (isZero_power hk), if_neg hzero]
  show (if d.mantissa % pow10 k == 0 then
      ofMagnitude? (d.negative != false) (d.mantissa / pow10 k * pow10 (0 - d.scale)) (d.scale - 0)
    else takePlaces? (d.negative != false) 64 d.mantissa (pow10 k) ((d.scale : Int) - (0 : Nat))) = _
  have hone : pow10 (0 - d.scale) = 1 := congrArg pow10 (Nat.zero_sub d.scale)
  rw [Bool.bne_false, hone, Nat.mul_one, Nat.sub_zero, Nat.cast_zero, sub_zero]
  simp only [beq_iff_eq]

/-- The quotient by a power of ten is the exact one, rounded to the places of a computed result. -/
theorem exists_div?_power (d : Numeric) {k : Nat} (hk : k ≤ maxScale) :
    ∃ e, d.div? (power k hk) = some e ∧
      e.toRat = signedValue d.negative (shifted d.mantissa d.scale k) := by
  have hlt := d.mantissa_lt
  by_cases hzero : d.isZero = true
  · have hmantissa : d.mantissa = 0 := eq_of_beq hzero
    have hdiv : d.div? (power k hk) = some zero := by
      unfold div?
      rw [if_neg (isZero_power hk), if_pos hzero]
    refine ⟨zero, hdiv, ?_⟩
    rw [toRat_of_isZero rfl, hmantissa, shifted_of_dvd (by simp)]
    simp [signedValue]
  rw [div?_power hk hzero]
  by_cases hexact : d.mantissa % pow10 k = 0
  · have hdvd := Nat.dvd_of_mod_eq_zero hexact
    have hfits := (Nat.div_le_self d.mantissa (pow10 k)).trans_lt hlt
    obtain ⟨e, he, hvalue⟩ := exists_ofMagnitude? d.negative hfits d.scale
    rw [if_pos hexact, shifted_of_dvd (hdvd.mul_right _)]
    refine ⟨e, he, ?_⟩
    rw [hvalue, cast_quotient hdvd, pow_add, div_div, mul_comm]
  · have hlong : d.mantissa * pow10 0 < mantissaBound * pow10 (k + 1) :=
      (Nat.mul_one d.mantissa).trans_lt (hlt.trans_le (Nat.le_mul_of_pos_right _ (pow10_pos _)))
    have hfuel : maxScale < d.scale + 0 + 64 := by unfold maxScale; omega
    have hstart := exists_takePlaces? d.negative hlt hlong (.inl rfl) hfuel (by decide)
    rw [if_neg hexact]
    rwa [show pow10 0 = 1 from rfl, Nat.mul_one, Nat.add_zero] at hstart

end SqlStore.Numeric
